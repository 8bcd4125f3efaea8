import FastEcu.Definition.Termination

/-!
# What a resolved definition is

Whatever the parents supply and whatever is laid over them, a definition that `ResolveDefinition`
returns can be decoded: its maps can be told apart, its dimensions fit each other and what it names
is there.

* `RomDefinition.WellFormed` : the whole of it.
* `validateMap_wellFormed` : what the check of one map ensures.
* `finishRoot_wellFormed` : what the checks after the overlays ensure.
* `resolveDefinition_wellFormed` : every definition that is resolved is well formed.
-/

namespace FastEcu.Definition

open Data Memory
open Calibration (Error ErrorKind StorageType invalidConfig)

/-! ### Well-formedness -/

/-- The scaling that a name stands for. -/
def scalingNamed (scalings : List Scaling) (name : String) : Option Scaling :=
  scalings.find? (·.name == name)

/-- Selections are there exactly for blobs; they have one width and different names. -/
structure Scaling.WellFormed (scaling : Scaling) : Prop where
  bloblist : scaling.storageType = some .bloblist ↔ scaling.selections ≠ []
  width : ∀ a ∈ scaling.selections, ∀ b ∈ scaling.selections, a.value.length = b.value.length
  complete : ∀ a ∈ scaling.selections, a.name ≠ "" ∧ a.value ≠ []
  names : (scaling.selections.map (·.name)).Nodup

/-- An axis that is there fits the dimension it is for. -/
structure AxisDefinition.WellFormed (scalings : List Scaling) (dimension : UInt32)
    (axis : AxisDefinition) : Prop where
  size : axis ≠ {} → axis.size = dimension
  startPosition : axis ≠ {} → 1 ≤ axis.startPosition
  staticData : axis ≠ {} → axis.IsStatic → axis.staticData.length = axis.size.toNat
  dynamicData : axis ≠ {} → ¬ axis.IsStatic → axis.staticData = []
  scaling : axis.scalingName ≠ "" → (scalingNamed scalings axis.scalingName).isSome

/-- A map with positive dimensions that its axes fit, a scaling that is there, and a list of blobs
exactly when it is selectable. -/
structure CalibrationMap.WellFormed (scalings : List Scaling) (map : CalibrationMap) : Prop where
  named : map.name ≠ ""
  xSize : 1 ≤ map.xSize
  ySize : 1 ≤ map.ySize
  startPosition : 1 ≤ map.startPosition
  xAxis : map.xAxis.WellFormed scalings map.xSize
  yAxis : map.yAxis.WellFormed scalings map.ySize
  scaling : map.scalingName ≠ "" → (scalingNamed scalings map.scalingName).isSome
  bloblist : map.storageType = some .bloblist ↔ map.type = "Selectable"
  selectable : map.type = "Selectable" ↔
    ∃ s, map.scalingName ≠ "" ∧ scalingNamed scalings map.scalingName = some s ∧ s.selections ≠ []

/-- A definition that can be decoded. -/
structure RomDefinition.WellFormed (definition : RomDefinition) : Prop where
  maps : ∀ map ∈ definition.maps, map.WellFormed definition.scalings
  distinct : definition.maps.Pairwise fun left right => left.matches right = false
  scalings : ∀ scaling ∈ definition.scalings, scaling.WellFormed

/-! ### Scalings -/

theorem exists_of_mem_forall₂ {α β : Type} {R : α → β → Prop} {as : List α} {bs : List β}
    (h : List.Forall₂ R as bs) {b : β} (hb : b ∈ bs) : ∃ a ∈ as, R a b := by
  induction h with
  | nil => cases hb
  | @cons a first as bs hfirst _ ih =>
    rcases List.mem_cons.1 hb with rfl | hb
    · exact ⟨a, List.mem_cons_self .., hfirst⟩
    · obtain ⟨a', ha', hR⟩ := ih hb
      exact ⟨a', List.mem_cons_of_mem _ ha', hR⟩

theorem validateSelections_eq_ok {scaling : Scaling} {width : ℕ} {names : List String}
    {selections : List Selection} (hn : names.Nodup)
    (h : validateSelections scaling width names selections = .ok ()) :
    (∀ a ∈ selections, a.value.length = width ∧ a.name ≠ "" ∧ a.value ≠ []) ∧
      (names ++ selections.map (·.name)).Nodup := by
  induction selections generalizing names with
  | nil => exact ⟨by simp, by simpa using hn⟩
  | cons selection rest ih =>
    simp only [validateSelections] at h
    split at h
    · cases h
    · rename_i hcomplete
      split at h
      · cases h
      · rename_i hwidth
        split at h
        · cases h
        · rename_i hnew
          rw [ne_eq, not_not] at hwidth
          rw [not_or] at hcomplete
          obtain ⟨hall, hnodup⟩ := ih (by simpa [List.nodup_append, hn] using
            fun a ha => ne_of_mem_of_not_mem ha hnew) h
          refine ⟨?_, by simpa using hnodup⟩
          intro a ha
          rcases List.mem_cons.1 ha with rfl | ha
          · exact ⟨hwidth, hcomplete⟩
          · exact hall a ha

theorem validateScaling_wellFormed {scaling : Scaling} (h : validateScaling scaling = .ok ()) :
    scaling.WellFormed := by
  simp only [validateScaling] at h
  split at h
  · rename_i hnone
    split at h
    · cases h
    · rename_i hstorage
      exact ⟨by simp [hnone, hstorage], by simp [hnone], by simp [hnone], by simp [hnone]⟩
  · rename_i first rest hsome
    split at h
    · cases h
    · rename_i hstorage
      rw [ne_eq, not_not] at hstorage
      rw [← hsome] at h
      obtain ⟨hall, hnodup⟩ := validateSelections_eq_ok List.nodup_nil h
      refine ⟨by simp [hstorage, hsome], ?_, fun a ha => (hall a ha).2, by simpa using hnodup⟩
      intro a ha b hb
      rw [(hall a ha).1, (hall b hb).1]

theorem resolveSelections_length {name : String} {selections : List (String × String)}
    {resolved : List Selection} (h : resolveSelections name selections = .ok resolved) :
    resolved.length = selections.length := by
  induction selections generalizing resolved with
  | nil => cases h; rfl
  | cons selection rest ih =>
    simp only [resolveSelections] at h
    split at h
    · cases h
    · split at h
      · cases h
      · rename_i hrest
        cases h
        rw [List.length_cons, List.length_cons, ih hrest]

/-- What `ResolveScaling` keeps of the scaling, and what it ensures. -/
theorem resolveScaling_eq_ok {value : UnresolvedScaling} {scaling : Scaling}
    (h : resolveScaling value = .ok scaling) :
    scaling.name = value.name ∧ (scaling.selections = [] ↔ value.selections = []) ∧
      scaling.storageType = value.storageType ∧ scaling.WellFormed := by
  simp only [resolveScaling] at h
  split at h
  · cases h
  · rename_i selections hselections
    split at h
    · cases h
    · rename_i hvalid
      cases h
      have hlength := resolveSelections_length hselections
      refine ⟨rfl, ?_, rfl, validateScaling_wellFormed hvalid⟩
      rw [← List.length_eq_zero_iff, hlength, List.length_eq_zero_iff]

theorem resolveScalings_eq_ok {values : List UnresolvedScaling} {scalings : List Scaling}
    (h : resolveScalings values = .ok scalings) :
    List.Forall₂ (fun value scaling => resolveScaling value = .ok scaling) values scalings := by
  induction values generalizing scalings with
  | nil => cases h; exact .nil
  | cons value rest ih =>
    simp only [resolveScalings] at h
    split at h
    · cases h
    · rename_i hvalue
      split at h
      · cases h
      · rename_i hrest
        cases h
        exact .cons hvalue (ih hrest)

/-- A name stands for the resolved form of what it stood for. -/
theorem scalingNamed_of_find {values : List UnresolvedScaling} {scalings : List Scaling}
    (h : List.Forall₂ (fun value scaling => resolveScaling value = .ok scaling) values scalings)
    {name : String} {value : UnresolvedScaling}
    (hfind : values.find? (·.name == name) = some value) :
    ∃ scaling, scalingNamed scalings name = some scaling ∧ resolveScaling value = .ok scaling := by
  simp only [scalingNamed]
  induction h with
  | nil => cases hfind
  | @cons first scaling rest scalings hfirst _ ih =>
    have hname := (resolveScaling_eq_ok hfirst).1
    rw [List.find?_cons, hname]
    rw [List.find?_cons] at hfind
    split at hfind
    · rename_i heq
      cases hfind
      exact ⟨scaling, rfl, hfirst⟩
    · exact ih hfind

theorem findScaling_eq_ok {values : List UnresolvedScaling} {name subject : String}
    {value : UnresolvedScaling} (h : findScaling values name subject = .ok value) :
    values.find? (·.name == name) = some value := by
  simp only [findScaling] at h
  split at h
  · cases h
  · cases h
    assumption

/-! ### Maps -/

section Maps

variable {values : List UnresolvedScaling} {scalings : List Scaling}

/-- The scaling of an axis adds to what the axis says and changes neither its shape nor its data. -/
theorem applyAxisScaling_eq_ok
    (hs : List.Forall₂ (fun value scaling => resolveScaling value = .ok scaling) values scalings)
    {axis result : AxisDefinition} {context : String}
    (h : applyAxisScaling axis context values = .ok result) :
    result.type = axis.type ∧ result.size = axis.size ∧
      result.startPosition = axis.startPosition ∧ result.staticData = axis.staticData ∧
      (result.scalingName ≠ "" → (scalingNamed scalings result.scalingName).isSome) := by
  simp only [applyAxisScaling] at h
  split at h
  · rename_i hname
    cases h
    exact ⟨rfl, rfl, rfl, rfl, fun hne => absurd hname hne⟩
  · split at h
    · cases h
    · rename_i value hfind
      obtain ⟨scaling, hscaling, -⟩ := scalingNamed_of_find hs (findScaling_eq_ok hfind)
      split at h
      · cases h
      · split at h
        · cases h
        · cases h
          exact ⟨rfl, rfl, rfl, rfl, fun _ => by
            rw [overlayAxisScaling, hscaling]; rfl⟩

theorem one_le_of_ne_zero {n : UInt32} (h : n ≠ 0) : 1 ≤ n := by
  have : n.toNat ≠ 0 := fun h' => h (UInt32.toNat_inj.1 h')
  rw [UInt32.le_iff_toNat_le]
  exact Nat.one_le_iff_ne_zero.2 this

/-- What `ValidateAxis` checks of an axis that is there. -/
theorem validateAxis_eq_ok {axis result : AxisDefinition} {context : String} {dimension : UInt32}
    {supportsStaticData : Bool}
    (h : validateAxis axis context dimension supportsStaticData values = .ok result) :
    result = {} ∨ axis.startPosition ≠ 0 ∧ axis.size = dimension ∧
      (axis.IsStatic → axis.staticData.length = axis.size.toNat) ∧
      (¬ axis.IsStatic → axis.staticData = []) ∧
      applyAxisScaling axis context values = .ok result := by
  simp only [validateAxis] at h
  split at h
  · rename_i hempty
    cases h
    exact .inl hempty
  · refine .inr ?_
    split at h
    · cases h
    · split at h
      · cases h
      · split at h
        · cases h
        · rename_i hstart
          split at h
          · cases h
          · rename_i hsize
            rw [ne_eq, not_not] at hsize
            split at h
            · cases h
            · split at h
              · rename_i hstatic
                split at h
                · cases h
                · rename_i hdata
                  rw [not_or, not_not] at hdata
                  exact ⟨hstart, hsize, fun _ => hdata.1, fun hdyn => absurd hstatic hdyn, h⟩
              · rename_i hdynamic
                split at h
                · cases h
                · rename_i hdata
                  rw [ne_eq, not_not] at hdata
                  exact ⟨hstart, hsize, fun hstatic => absurd hstatic hdynamic, fun _ => hdata, h⟩

theorem validateAxis_wellFormed
    (hs : List.Forall₂ (fun value scaling => resolveScaling value = .ok scaling) values scalings)
    {axis result : AxisDefinition} {context : String} {dimension : UInt32}
    {supportsStaticData : Bool}
    (h : validateAxis axis context dimension supportsStaticData values = .ok result) :
    result.WellFormed scalings dimension := by
  rcases validateAxis_eq_ok h with rfl | ⟨hstart, hsize, hstatic, hdynamic, happly⟩
  · exact ⟨fun h => absurd rfl h, fun h => absurd rfl h, fun h => absurd rfl h,
      fun h => absurd rfl h, fun h => absurd rfl h⟩
  · obtain ⟨htype, hsize', hstart', hdata, hscaling⟩ := applyAxisScaling_eq_ok hs happly
    have hiff : result.IsStatic ↔ axis.IsStatic := by
      rw [AxisDefinition.IsStatic, AxisDefinition.IsStatic, htype]
    refine ⟨fun _ => hsize'.trans hsize, fun _ => ?_, fun _ hst => ?_, fun _ hst => ?_, hscaling⟩
    · rw [hstart']
      exact one_le_of_ne_zero hstart
    · rw [hdata, hsize']
      exact hstatic (hiff.1 hst)
    · rw [hdata]
      exact hdynamic (mt hiff.2 hst)

/-- What `ApplyMapScaling` leaves as it was, and when the map gets selections. -/
theorem applyMapScaling_eq_ok
    (hs : List.Forall₂ (fun value scaling => resolveScaling value = .ok scaling) values scalings)
    {map result : CalibrationMap} {subject : String} {selectable : Bool}
    (h : applyMapScaling map subject values = .ok (result, selectable)) :
    (∃ type storageType endian, result = { map with type, storageType, endian }) ∧
      (map.scalingName ≠ "" → (scalingNamed scalings map.scalingName).isSome) ∧
      (selectable = true → result.type = "Selectable") ∧
      (selectable = true ↔ ∃ s, map.scalingName ≠ "" ∧
        scalingNamed scalings map.scalingName = some s ∧ s.selections ≠ []) := by
  simp only [applyMapScaling] at h
  split at h
  · rename_i hname
    cases h
    refine ⟨⟨_, _, _, rfl⟩, fun hne => absurd hname hne, by simp, ?_⟩
    simp [hname]
  · rename_i hname
    split at h
    · cases h
    · rename_i value hfind
      obtain ⟨scaling, hscaling, hresolve⟩ := scalingNamed_of_find hs (findScaling_eq_ok hfind)
      obtain ⟨-, hselections, -⟩ := resolveScaling_eq_ok hresolve
      split at h
      · cases h
      · split at h
        · rename_i hnone
          cases h
          refine ⟨⟨_, _, _, rfl⟩, fun _ => by simp [hscaling], by simp, ?_⟩
          simp [hscaling, hselections.2 hnone]
        · rename_i hsome
          cases h
          refine ⟨⟨_, _, _, rfl⟩, fun _ => by simp [hscaling], fun _ => rfl, ?_⟩
          simpa [hscaling, hname] using mt hselections.1 hsome

/-- What `ValidateMap` ensures of the map it leaves. -/
theorem validateMap_wellFormed
    (hs : List.Forall₂ (fun value scaling => resolveScaling value = .ok scaling) values scalings)
    {map result : CalibrationMap} {key : String} (hname : map.name ≠ "")
    (h : validateMap map key values = .ok result) :
    result.WellFormed scalings ∧ result.id = map.id ∧ result.name = map.name := by
  simp only [validateMap] at h
  split at h
  · cases h
  · rename_i hdimensions
    rw [not_or] at hdimensions
    split at h
    · cases h
    · rename_i hstart
      split at h
      · cases h
      · rename_i scaled selectable happly
        obtain ⟨⟨type, storageType, endian, rfl⟩, hscaling, htype, hselectable⟩ :=
          applyMapScaling_eq_ok hs happly
        split at h
        · cases h
        · rename_i hneeds
          split at h
          · cases h
          · rename_i hblob
            split at h
            · cases h
            · rename_i xAxis hx
              split at h
              · cases h
              · rename_i yAxis hy
                cases h
                simp only [not_and, not_or, not_not] at hneeds hblob
                refine ⟨?_, rfl, rfl⟩
                exact {
                  named := hname
                  xSize := one_le_of_ne_zero hdimensions.1
                  ySize := one_le_of_ne_zero hdimensions.2
                  startPosition := one_le_of_ne_zero hstart
                  xAxis := validateAxis_wellFormed hs hx
                  yAxis := validateAxis_wellFormed hs hy
                  scaling := hscaling
                  bloblist := ⟨fun hb => hblob hb, fun ht => (hneeds ht).1⟩
                  selectable := by
                    rw [← hselectable]
                    exact ⟨fun ht => by simpa using (hneeds ht).2, htype⟩ }

theorem CalibrationMap.matches_congr {left left' right right' : CalibrationMap}
    (hid : left'.id = left.id) (hname : left'.name = left.name) (hid' : right'.id = right.id)
    (hname' : right'.name = right.name) : left'.matches right' = left.matches right := by
  simp only [CalibrationMap.matches, hid, hname, hid', hname']

/-- The maps before and the maps that are checked can all be told apart. -/
theorem validateMaps_wellFormed
    (hs : List.Forall₂ (fun value scaling => resolveScaling value = .ok scaling) values scalings)
    {before maps result : List CalibrationMap} (hw : ∀ map ∈ before, map.WellFormed scalings)
    (hd : before.Pairwise fun left right => left.matches right = false)
    (h : validateMaps values before maps = .ok result) :
    (∀ map ∈ result, map.WellFormed scalings) ∧
      result.Pairwise fun left right => left.matches right = false := by
  induction maps generalizing before with
  | nil =>
    cases h
    exact ⟨hw, hd⟩
  | cons map rest ih =>
    simp only [validateMaps] at h
    split at h
    · cases h
    · rename_i hidentity
      rw [not_or] at hidentity
      split at h
      · cases h
      · rename_i hnew
        split at h
        · cases h
        · rename_i checked hvalid
          obtain ⟨hchecked, hid, hname⟩ := validateMap_wellFormed hs hidentity.2 hvalid
          refine ih ?_ ?_ h
          · intro map' hmem
            rcases List.mem_append.1 hmem with hmem | hmem
            · exact hw map' hmem
            · rw [List.mem_singleton.1 hmem]
              exact hchecked
          · refine List.pairwise_append.2 ⟨hd, List.pairwise_singleton _ _, ?_⟩
            intro left hleft right hright
            rw [List.mem_singleton.1 hright, CalibrationMap.matches_congr rfl rfl hid hname]
            simp only [List.any_eq_true, not_exists, not_and] at hnew
            simpa using hnew left hleft

end Maps

/-! ### The whole -/

/-- What the checks after the overlays ensure. -/
theorem finishRoot_wellFormed {root : UnresolvedDefinition} {resolved : Resolved}
    {r : RomDefinition} (h : finishRoot root resolved = .ok r) :
    r.WellFormed ∧ r.resolvedDefinitionIds = resolved.ids := by
  simp only [finishRoot, materialize] at h
  cases hscalings : resolveScalings resolved.definition.scalings with
  | error e =>
    rw [hscalings] at h
    cases h
  | ok scalings =>
    have hs := resolveScalings_eq_ok hscalings
    simp only [hscalings, validateAndResolveMaps] at h
    cases hmaps : validateMaps resolved.definition.scalings []
        (resolved.definition.maps.map resolveMap) with
    | error e =>
      rw [hmaps] at h
      cases h
    | ok maps =>
      rw [hmaps] at h
      cases h
      obtain ⟨hmaps, hdistinct⟩ := validateMaps_wellFormed hs (by simp) List.Pairwise.nil hmaps
      refine ⟨⟨hmaps, hdistinct, ?_⟩, rfl⟩
      intro scaling hmem
      obtain ⟨value, -, hvalue⟩ := exists_of_mem_forall₂ hs hmem
      exact (resolveScaling_eq_ok hvalue).2.2.2

theorem nodup_appendUnique {destination : List String} (h : destination.Nodup)
    (values : List String) : (appendUnique destination values).Nodup := by
  induction values generalizing destination with
  | nil => exact h
  | cons value rest ih =>
    refine ih ?_
    split
    · exact h
    · rename_i hnew
      exact List.nodup_append'.2 ⟨h, List.nodup_singleton _, by simpa using hnew⟩

theorem mem_appendUnique {destination values : List String} {value : String} :
    value ∈ appendUnique destination values ↔ value ∈ destination ∨ value ∈ values := by
  induction values generalizing destination with
  | nil => simp [appendUnique]
  | cons first rest ih =>
    rw [appendUnique, ih]
    split
    · rename_i hmem
      simp only [List.mem_cons]
      constructor
      · exact fun h => h.imp_right .inr
      · rintro (h | rfl | h)
        · exact .inl h
        · exact .inl hmem
        · exact .inr h
    · rw [List.mem_append, List.mem_singleton, List.mem_cons, or_assoc]

theorem overlayParents_ids {stack : List String} {parents : List Resolved}
    {resolved result : Option Resolved} (hr : ∀ r, resolved = some r → r.ids.Nodup)
    (hp : ∀ parent ∈ parents, parent.ids.Nodup)
    (h : overlayParents stack parents resolved = .ok result) :
    ∀ r, result = some r → r.ids.Nodup := by
  induction parents generalizing resolved with
  | nil =>
    cases h
    exact hr
  | cons parent rest ih =>
    simp only [overlayParents] at h
    split at h
    · cases h
    · rename_i merged hmerged
      refine ih ?_ (fun p hmem => hp p (List.mem_cons_of_mem _ hmem)) h
      intro r hr'
      cases hr'
      cases resolved with
      | none =>
        cases hmerged
        exact nodup_appendUnique (hp parent (List.mem_cons_self ..)) _
      | some first =>
        simp only [overlayParent] at hmerged
        split at hmerged
        · cases hmerged
        · cases hmerged
          exact nodup_appendUnique (hr first rfl) _

/-- No id is listed twice, and the definition's own is listed. -/
theorem inherits_ids {σ : Type} (loader : DefinitionLoader σ) (format : DefinitionFormat) :
    Inherits loader format fun d r => r.ids.Nodup ∧ d.identity.xmlId ∈ r.ids := by
  intro stack definition parents resolved _ hparents h
  simp only [overlayAll] at h
  split at h
  · cases h
  · rename_i merged hmerged
    have hp : ∀ parent ∈ parents, parent.ids.Nodup := by
      intro parent hmem
      obtain ⟨id, -, d, -, hnodup, -⟩ := exists_of_mem_forall₂ hparents hmem
      exact hnodup
    have hnodup : (merged.getD {}).ids.Nodup := by
      cases merged with
      | none => exact List.nodup_nil
      | some r => exact overlayParents_ids (by simp) hp hmerged r rfl
    simp only [overlayChild] at h
    split at h
    · cases h
    · rename_i result hresult
      cases h
      refine ⟨nodup_appendUnique hnodup _, mem_appendUnique.2 (.inr ?_)⟩
      rw [overlayDefinition_xmlId hresult]
      exact List.mem_singleton_self _

/-- **Every definition that is resolved is well formed**, and lists the root once. -/
theorem resolveDefinition_wellFormed {σ : Type} (loader : DefinitionLoader σ)
    (root : UnresolvedDefinition) (loaderState : σ) (r : RomDefinition)
    (h : (resolveDefinition loader root loaderState).1 = .ok r) :
    r.WellFormed ∧ r.resolvedDefinitionIds.count root.identity.xmlId = 1 := by
  obtain ⟨resolved, hres, hfinish⟩ := resolveRoot_eq_ok h
  obtain ⟨hwell, hids⟩ := finishRoot_wellFormed hfinish
  have hout := resolve_root_outcome (inherits_ids loader root.format) loaderState
    (kMaxInheritanceDepth + 1)
  obtain ⟨-, ⟨hnodup, hmem⟩, -⟩ := hout.consistent resolved hres
  rw [hids]
  exact ⟨hwell, List.count_eq_one_of_mem hnodup hmem⟩

/-- A base with one selectable map. -/
def switchBase : UnresolvedDefinition where
  source := "base.xml"
  identity := { xmlId := "BASE" }
  maps := [{ name := "Launch control", scalingName := "switch" }]
  scalings :=
    [{ name := "switch"
       storageType := some .bloblist
       selections := [("on", "01"), ("off", "00")] }]

/-- A definition that inherits the map of its base. -/
def switchRoot : UnresolvedDefinition where
  source := "root.xml"
  identity := { xmlId := "A2WC522N" }
  parents := ["BASE"]
  maps := [{ name := "Launch control", xSize := some 1 }]

/-- The loader that knows the base. -/
def switchLoader : DefinitionLoader Unit := fun _ id loaderState =>
  (if id = "BASE" then .ok switchBase else invalidConfig "unknown definition", loaderState)

theorem resolveDefinition_switchRoot :
    ∃ r, (resolveDefinition switchLoader switchRoot ()).1 = .ok r ∧
      r.WellFormed ∧ r.resolvedDefinitionIds.count "A2WC522N" = 1 := by
  have hok : (resolveDefinition switchLoader switchRoot ()).1.isOk = true := by decide +kernel
  cases h : (resolveDefinition switchLoader switchRoot ()).1 with
  | error e =>
    rw [h] at hok
    cases hok
  | ok r => exact ⟨r, rfl, resolveDefinition_wellFormed switchLoader switchRoot () r h⟩

end FastEcu.Definition
