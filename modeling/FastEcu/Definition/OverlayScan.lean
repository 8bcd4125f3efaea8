import FastEcu.Data.Candidates
import FastEcu.Definition.Overlay

/-!
# An overlay without its index

`OverlayDefinition` looks a supplied map up through `MapIndex`, which is updated while the list of
maps is (`src/backend/definition/definition_resolver.cpp`).  Without the index, it would compare every
map with `MapsMatch`.

* `scanMaps`, `scanDefinition` : the overlay that compares every map.
* `MapIndex.Covers` : every map has an entry under its present name and under its present id.
* `Overlaying` : the maps and the index before each supplied map.
* `overlayDefinition_eq_scan` : with and without the index, the overlay is the same.
-/

namespace FastEcu.Definition

open Calibration (Error ErrorKind invalidConfig)

/-! ### The plain scan -/

/-- The one position that matches, if there is one; more than one are ambiguous. -/
def onlyMatch : List ℕ → Except Unit (Option ℕ)
  | [] => .ok none
  | [position] => .ok (some position)
  | _ :: _ :: _ => .error ()

/-- The map that a linear scan finds for a supplied one: every map is compared with it. -/
def scanMatch (maps : List UnresolvedCalibrationMap) (map : UnresolvedCalibrationMap) :
    Except Unit (Option ℕ) :=
  onlyMatch (matchPositions (mapsMatch · map) maps)

/-- The loop of `OverlayDefinition` over the maps, without the index. -/
def scanMaps (supplied : UnresolvedDefinition) :
    List UnresolvedCalibrationMap → List UnresolvedCalibrationMap →
      Except Error (List UnresolvedCalibrationMap)
  | maps, [] => .ok maps
  | maps, map :: rest =>
    match scanMatch maps map with
    | .error () =>
      invalidConfig s!"ambiguous map name fallback '{map.name}' while resolving definition '{
        supplied.identity.xmlId}' from '{supplied.source}'"
    | .ok none => scanMaps supplied (maps ++ [map]) rest
    | .ok (some existing) => scanMaps supplied (maps.modify existing (overlayMap · map)) rest

/-- `OverlayDefinition` without the index. -/
def scanDefinition (value supplied : UnresolvedDefinition) : Except Error UnresolvedDefinition :=
  match scanMaps supplied value.maps supplied.maps with
  | .error e => .error e
  | .ok maps =>
    match overlayScalings supplied value.scalings supplied.scalings with
    | .error e => .error e
    | .ok scalings =>
      .ok
        { format := supplied.format
          source := supplied.source
          identity := overlayIdentity value.identity supplied.identity
          metadata := overlayMetadata value.metadata supplied.metadata
          parents := supplied.parents
          maps
          scalings }

/-! ### What the index has -/

section Index

variable {index : MapIndex} {maps : List UnresolvedCalibrationMap}
  {map : UnresolvedCalibrationMap}

/-- Every map has an entry under its name and, if it has an id, under its id; other entries, of names
and ids that a map had before, are of maps too. -/
structure MapIndex.Covers (index : MapIndex) (maps : List UnresolvedCalibrationMap) : Prop where
  names : ∀ i existing, maps[i]? = some existing → (existing.name, i) ∈ index.byName
  ids : ∀ i existing id, maps[i]? = some existing → stableMapId existing = some id →
    (id, i) ∈ index.byId
  ofName : ∀ entry ∈ index.byName, entry.2 < maps.length
  ofId : ∀ entry ∈ index.byId, entry.2 < maps.length

theorem MapIndex.mem_bucket {entries : List (String × ℕ)} {key : String} {i : ℕ} :
    i ∈ MapIndex.bucket entries key ↔ (key, i) ∈ entries := by
  simp only [MapIndex.bucket, List.mem_map, List.mem_filter, beq_iff_eq, Prod.exists,
    exists_eq_right]

theorem MapIndex.mem_add_byName {entry : String × ℕ} {position : ℕ} :
    entry ∈ (index.add map position).byName ↔
      entry ∈ index.byName ∨ entry = (map.name, position) := by
  simp only [MapIndex.add, List.mem_append, List.mem_singleton]

theorem MapIndex.mem_add_byId {entry : String × ℕ} {position : ℕ} :
    entry ∈ (index.add map position).byId ↔
      entry ∈ index.byId ∨ ∃ id, stableMapId map = some id ∧ entry = (id, position) := by
  simp only [MapIndex.add, List.mem_append, Option.mem_toList, Option.map_eq_some_iff]
  exact or_congr_right (exists_congr fun id => and_congr_right fun _ => eq_comm)

theorem MapIndex.covers_nil : MapIndex.Covers {} [] where
  names _ _ h := by simp at h
  ids _ _ _ h := by simp at h
  ofName _ h := by cases h
  ofId _ h := by cases h

/-- An entry for a map that is new or has changed keeps the index complete. -/
theorem MapIndex.Covers.add {maps' : List UnresolvedCalibrationMap} {position : ℕ}
    (h : index.Covers maps) (hnew : maps'[position]? = some map)
    (hold : ∀ i, i ≠ position → maps'[i]? = maps[i]?) (hle : maps.length ≤ maps'.length) :
    (index.add map position).Covers maps' := by
  have hlt : position < maps'.length := (List.getElem?_eq_some_iff.1 hnew).1
  constructor
  · intro i existing hi
    by_cases heq : i = position
    · subst heq
      cases hnew.symm.trans hi
      exact mem_add_byName.2 (.inr rfl)
    · rw [hold i heq] at hi
      exact mem_add_byName.2 (.inl (h.names i existing hi))
  · intro i existing id hi hid
    by_cases heq : i = position
    · subst heq
      cases hnew.symm.trans hi
      exact mem_add_byId.2 (.inr ⟨id, hid, rfl⟩)
    · rw [hold i heq] at hi
      exact mem_add_byId.2 (.inl (h.ids i existing id hi hid))
  · intro entry hentry
    rcases mem_add_byName.1 hentry with hentry | rfl
    · exact (h.ofName entry hentry).trans_le hle
    · exact hlt
  · intro entry hentry
    rcases mem_add_byId.1 hentry with hentry | ⟨id, -, rfl⟩
    · exact (h.ofId entry hentry).trans_le hle
    · exact hlt

/-- `MapIndex::Add` of a map that is appended. -/
theorem MapIndex.Covers.concat (h : index.Covers maps) :
    (index.add map maps.length).Covers (maps ++ [map]) := by
  refine h.add List.getElem?_concat_length (fun i hi => ?_) (by simp)
  rcases lt_or_gt_of_ne hi with hlt | hgt
  · exact List.getElem?_append_left hlt
  · rw [List.getElem?_eq_none hgt.le, List.getElem?_eq_none]
    rw [List.length_append, List.length_singleton]
    exact hgt

/-- `MapIndex::Add` of a map that something is merged into. -/
theorem MapIndex.Covers.modify {existing : ℕ} {f : UnresolvedCalibrationMap → UnresolvedCalibrationMap}
    (h : index.Covers maps) :
    (((maps.modify existing f)[existing]?.map fun merged => index.add merged existing).getD
      index).Covers (maps.modify existing f) := by
  cases hmerged : (maps.modify existing f)[existing]? with
  | none =>
    -- there is no such map, so nothing changes
    rw [List.modify_eq_self (by simpa using hmerged)]
    exact h
  | some merged =>
    refine h.add hmerged (fun i hi => ?_) (by rw [List.length_modify])
    exact List.getElem?_modify_ne f maps hi.symm

/-- The index that the overlay begins with. -/
theorem MapIndex.covers_foldl (maps : List UnresolvedCalibrationMap) :
    (maps.zipIdx.foldl (fun index (map, i) => index.add map i) ({} : MapIndex)).Covers maps := by
  induction maps using List.reverseRecOn with
  | nil => exact covers_nil
  | append_singleton maps map ih =>
    rw [List.zipIdx_append, List.foldl_append]
    simpa using ih.concat

/-- Maps that match have the same id or the same name. -/
theorem shared_of_mapsMatch {existing : UnresolvedCalibrationMap} (h : mapsMatch existing map = true) :
    (∃ id, stableMapId existing = some id ∧ stableMapId map = some id) ∨ existing.name = map.name := by
  rw [mapsMatch] at h
  split at h
  · rename_i hboth
    obtain ⟨id, hid⟩ := Option.isSome_iff_exists.1 hboth.1
    have hsame : stableMapId existing = stableMapId map := by
      rw [stableMapId, stableMapId, eq_of_beq h]
    exact .inl ⟨id, hid, hsame ▸ hid⟩
  · exact .inr (eq_of_beq h)

/-- **The candidates** of a complete index are positions in ascending order, with every match. -/
theorem MapIndex.Covers.candidates_spec (h : index.Covers maps) (map : UnresolvedCalibrationMap) :
    (index.candidates map).Pairwise (· < ·) ∧
      (∀ i, maps[i]?.any (mapsMatch · map) = true → i ∈ index.candidates map) ∧
      ∀ i ∈ index.candidates map, i < maps.length := by
  have hsorted := List.pairwise_mergeSort' (· ≤ ·)
    ((stableMapId map).elim [] (bucket index.byId) ++ bucket index.byName map.name)
  obtain ⟨hpairwise, hmem⟩ := eraseReps_spec hsorted
  have hiff : ∀ i, i ∈ index.candidates map ↔
      i ∈ (stableMapId map).elim [] (bucket index.byId) ∨ i ∈ bucket index.byName map.name :=
    fun i => (hmem i).trans (List.mem_mergeSort.trans List.mem_append)
  refine ⟨hpairwise, fun i hi => ?_, fun i hi => ?_⟩
  · cases hexisting : maps[i]? with
    | none =>
      rw [hexisting] at hi
      cases hi
    | some existing =>
      rw [hexisting, Option.any_some] at hi
      rcases shared_of_mapsMatch hi with ⟨id, hid, hsupplied⟩ | hname
      · refine (hiff i).2 (.inl ?_)
        rw [hsupplied]
        exact mem_bucket.2 (h.ids i existing id hexisting hid)
      · exact (hiff i).2 (.inr (mem_bucket.2 (hname ▸ h.names i existing hexisting)))
  · rcases (hiff i).1 hi with hid | hname
    · cases hsupplied : stableMapId map with
      | none =>
        rw [hsupplied] at hid
        cases hid
      | some id =>
        rw [hsupplied] at hid
        exact h.ofId _ (mem_bucket.1 hid)
    · exact h.ofName _ (mem_bucket.1 hname)

/-- The loop over the candidates looks at the ones that match, and at how many there are. -/
theorem findMatch_eq_onlyMatch (maps : List UnresolvedCalibrationMap)
    (map : UnresolvedCalibrationMap) (candidates : List ℕ) :
    findMatch maps map none candidates =
        onlyMatch (candidates.filter fun i => maps[i]?.any (mapsMatch · map)) ∧
      ∀ existing, findMatch maps map (some existing) candidates =
        onlyMatch (existing :: candidates.filter fun i => maps[i]?.any (mapsMatch · map)) := by
  induction candidates with
  | nil => exact ⟨rfl, fun _ => rfl⟩
  | cons candidate rest ih =>
    cases hmatch : maps[candidate]?.any (mapsMatch · map) with
    | true =>
      rw [List.filter_cons, if_pos hmatch]
      refine ⟨?_, fun existing => ?_⟩
      · rw [findMatch, if_pos hmatch]
        exact ih.2 candidate
      · rw [findMatch, if_pos hmatch]
        rfl
    | false =>
      have hnot : ¬ maps[candidate]?.any (mapsMatch · map) = true := by rw [hmatch]; decide
      rw [List.filter_cons, if_neg hnot]
      refine ⟨?_, fun existing => ?_⟩
      · rw [findMatch, if_neg hnot]
        exact ih.1
      · rw [findMatch, if_neg hnot]
        exact ih.2 existing

/-- **One lookup**: with a complete index, the loop finds what the linear scan finds. -/
theorem MapIndex.Covers.findMatch_eq (h : index.Covers maps) (map : UnresolvedCalibrationMap) :
    findMatch maps map none (index.candidates map) = scanMatch maps map := by
  obtain ⟨hsorted, hall, -⟩ := h.candidates_spec map
  rw [(findMatch_eq_onlyMatch maps map _).1, filter_eq_matchPositions hsorted hall, scanMatch]

end Index

/-! ### The overlay -/

section Overlay

variable {value supplied : UnresolvedDefinition}

/-- The maps and the index before the supplied maps that are still to come. -/
inductive Overlaying (value supplied : UnresolvedDefinition) :
    List UnresolvedCalibrationMap → MapIndex → List UnresolvedCalibrationMap → Prop
  | start : Overlaying value supplied value.maps
      (value.maps.zipIdx.foldl (fun index (map, i) => index.add map i) {}) supplied.maps
  | append {maps : List UnresolvedCalibrationMap} {index : MapIndex}
      {map : UnresolvedCalibrationMap} {rest : List UnresolvedCalibrationMap}
      (h : Overlaying value supplied maps index (map :: rest))
      (hmatch : findMatch maps map none (index.candidates map) = .ok none) :
      Overlaying value supplied (maps ++ [map]) (index.add map maps.length) rest
  | merge {maps : List UnresolvedCalibrationMap} {index : MapIndex}
      {map : UnresolvedCalibrationMap} {rest : List UnresolvedCalibrationMap} {existing : ℕ}
      (h : Overlaying value supplied maps index (map :: rest))
      (hmatch : findMatch maps map none (index.candidates map) = .ok (some existing)) :
      Overlaying value supplied (maps.modify existing (overlayMap · map))
        (((maps.modify existing (overlayMap · map))[existing]?.map
          fun merged => index.add merged existing).getD index) rest

/-- The index stays complete while the maps change. -/
theorem Overlaying.covers {maps rest : List UnresolvedCalibrationMap} {index : MapIndex}
    (h : Overlaying value supplied maps index rest) : index.Covers maps := by
  induction h with
  | start => exact MapIndex.covers_foldl value.maps
  | append _ _ ih => exact ih.concat
  | merge _ _ ih => exact ih.modify

/-- The overlay goes through these maps and indexes. -/
theorem Overlaying.overlayMaps_eq {maps rest : List UnresolvedCalibrationMap} {index : MapIndex}
    (h : Overlaying value supplied maps index rest) :
    overlayMaps supplied maps index rest = overlayMaps supplied value.maps
      (value.maps.zipIdx.foldl (fun index (map, i) => index.add map i) {}) supplied.maps := by
  induction h with
  | start => rfl
  | append _ hmatch ih =>
    rw [← ih, overlayMaps, hmatch]
  | merge _ hmatch ih =>
    rw [← ih, overlayMaps, hmatch]

theorem MapIndex.Covers.overlayMaps_eq_scanMaps {maps rest : List UnresolvedCalibrationMap}
    {index : MapIndex} (h : index.Covers maps) :
    overlayMaps supplied maps index rest = scanMaps supplied maps rest := by
  induction rest generalizing maps index with
  | nil => rfl
  | cons map rest ih =>
    rw [overlayMaps, scanMaps, h.findMatch_eq map]
    cases scanMatch maps map with
    | error u => rfl
    | ok existing =>
      cases existing with
      | none => exact ih h.concat
      | some existing => exact ih h.modify

/-- **The index changes nothing.**  With it, the overlay has the same result or the same error as
with a linear scan over all maps; before each supplied map, the candidates are maps of the list, and
the target that they lead to is the one of the scan. -/
theorem overlayDefinition_eq_scan (value supplied : UnresolvedDefinition) :
    overlayDefinition value supplied = scanDefinition value supplied ∧
      ∀ maps index map rest, Overlaying value supplied maps index (map :: rest) →
        findMatch maps map none (index.candidates map) = scanMatch maps map ∧
        (∀ candidate ∈ index.candidates map, candidate < maps.length) ∧
        overlayMaps supplied maps index (map :: rest) = overlayMaps supplied value.maps
          (value.maps.zipIdx.foldl (fun index (map, i) => index.add map i) {}) supplied.maps := by
  refine ⟨?_, fun maps index map rest h => ⟨h.covers.findMatch_eq map,
    (h.covers.candidates_spec map).2.2, h.overlayMaps_eq⟩⟩
  unfold overlayDefinition
  dsimp only
  rw [(MapIndex.covers_foldl value.maps).overlayMaps_eq_scanMaps]
  rfl

/-- A map that gets its id from the first supplied map is found by it for the second. -/
theorem overlayDefinition_eq_scan_renamed :
    let value : UnresolvedDefinition := { maps := [{ name := "Fuel" }] }
    let supplied : UnresolvedDefinition :=
      { maps := [{ id := some "f1", name := "Fuel" }, { id := some "f1", name := "Fuel map" }] }
    overlayDefinition value supplied = scanDefinition value supplied ∧
      findMatch [{ id := some "f1", name := "Fuel" }] { id := some "f1", name := "Fuel map" } none
        (MapIndex.candidates ⟨[("f1", 0)], [("Fuel", 0), ("Fuel", 0)]⟩
          { id := some "f1", name := "Fuel map" }) = .ok (some 0) := by
  intro value supplied
  have hscan := overlayDefinition_eq_scan value supplied
  have hmerged := (hscan.2 _ _ _ _
    (@Overlaying.merge value supplied _ _ _ _ 0 .start (by decide +kernel))).1
  exact ⟨hscan.1, hmerged.trans (by decide +kernel)⟩

end Overlay

end FastEcu.Definition
