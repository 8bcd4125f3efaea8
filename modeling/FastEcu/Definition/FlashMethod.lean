import FastEcu.Data.DependencyOrder
import FastEcu.Definition.Catalog
import FastEcu.Definition.Termination

/-!
# The flash method of an entry and of its definition

`EffectiveFlashMethod` (`src/backend/definition/definition_service.cpp`) follows the parent links of
the index; `Load` reads the definitions and lays them over each other.  Both come to the plain
recursion over the parents in which the last parent that has a method gives it.

* `DefinitionFiles.Indexed` : the index has been parsed from the files as they stand.
* `DefinitionCatalog.KeepsLimit` : the chains of parent links from an entry keep the limit.
* `inheritedFlashMethod` : the plain recursion.
* `effectiveFlashMethodIn_eq` : the walk over the index computes it.
* `inherits_flashMethod` : so does the overlay of the parents under the child.
* `effectiveFlashMethod_eq_load` : the two agree.
-/

namespace FastEcu.Definition

open Memory Data Relation
open XmlNode hiding text
open Calibration (Error ErrorKind invalidConfig)

/-! ### The index -/

namespace DefinitionCatalog

variable {catalog : DefinitionCatalog}

theorem find_eq_some {format : DefinitionFormat} {id : String} {entry : DefinitionIndexEntry}
    (h : catalog.find format id = some entry) :
    entry ∈ catalog.entries ∧ entry.format = format ∧ entry.definitionId = id := by
  have hkey : entry.key = (format, id) := by simpa using List.find?_some h
  exact ⟨List.mem_of_find?_eq_some h, congrArg Prod.fst hkey, congrArg Prod.snd hkey⟩

/-- An entry is found by its own format and id. -/
theorem find_of_mem {entry : DefinitionIndexEntry} (h : entry ∈ catalog.entries) :
    catalog.find entry.format entry.definitionId = some entry := by
  cases hfind : catalog.find entry.format entry.definitionId with
  | none =>
    refine absurd ?_ (List.find?_eq_none.1 hfind entry h)
    exact decide_eq_true rfl
  | some other =>
    obtain ⟨hmem, hformat, hid⟩ := find_eq_some hfind
    have hkey : other.key = entry.key := Prod.ext hformat hid
    exact congrArg some (List.inj_on_of_nodup_map catalog.nodup hmem h hkey)

/-- The second entry is the one that a parent link of the first finds. -/
def ParentEntry (catalog : DefinitionCatalog) (entry parent : DefinitionIndexEntry) : Prop :=
  ∃ id ∈ entry.parents, catalog.find entry.format id = some parent

/-- Every chain of parent links from the entry keeps the limit. -/
def KeepsLimit (catalog : DefinitionCatalog) (entry : DefinitionIndexEntry) : Prop :=
  ∀ entries, List.IsChain catalog.ParentEntry (entry :: entries) →
    (entry :: entries).length ≤ kMaxInheritanceDepth

theorem ParentEntry.spec {entry parent : DefinitionIndexEntry} (h : catalog.ParentEntry entry parent) :
    parent ∈ catalog.entries ∧ parent.format = entry.format := by
  obtain ⟨id, -, hfind⟩ := h
  obtain ⟨hmem, hformat, -⟩ := find_eq_some hfind
  exact ⟨hmem, hformat⟩

/-- Parent links stay in the catalog and in the format. -/
theorem reaches_spec {entry ancestor : DefinitionIndexEntry} (hentry : entry ∈ catalog.entries)
    (h : ReflTransGen catalog.ParentEntry entry ancestor) :
    ancestor ∈ catalog.entries ∧ ancestor.format = entry.format := by
  induction h with
  | refl => exact ⟨hentry, rfl⟩
  | tail _ hparent ih =>
    obtain ⟨hmem, hformat⟩ := hparent.spec
    exact ⟨hmem, hformat.trans ih.2⟩

end DefinitionCatalog

/-! ### The plain recursion -/

/-- The flash method of the entry, or else of its last parent that has one; `fuel` bounds the
recursion. -/
def inheritedFlashMethod (catalog : DefinitionCatalog) : ℕ → DefinitionIndexEntry → String
  | 0, _ => ""
  | fuel + 1, entry =>
    overlayString
      (entry.parents.foldl (fun (inherited parentId : String) =>
        match catalog.find entry.format parentId with
        | none => inherited
        | some parent => overlayString inherited (inheritedFlashMethod catalog fuel parent)) "")
      entry.flashMethod

/-- **The walk over the index is the plain recursion**: where the chains of parent links end in time,
neither its guard against cycles nor its limit is ever met. -/
theorem effectiveFlashMethodIn_eq {catalog : DefinitionCatalog} {entry : DefinitionIndexEntry}
    (hentry : entry ∈ catalog.entries) {n fuel : ℕ} {chain : List String} (hfuel : n ≤ fuel)
    (hends : EndsWithin catalog.ParentEntry n entry)
    (hlimit : chain.length + n ≤ kMaxInheritanceDepth)
    (hfresh : ∀ ancestor, ReflTransGen catalog.ParentEntry entry ancestor →
      ancestor.definitionId ∉ chain) :
    effectiveFlashMethodIn catalog fuel entry chain = inheritedFlashMethod catalog n entry := by
  induction n generalizing entry fuel chain with
  | zero => exact hends.elim
  | succ n ih =>
    obtain ⟨fuel, rfl⟩ : ∃ m, fuel = m + 1 := ⟨fuel - 1, by omega⟩
    simp only [effectiveFlashMethodIn, inheritedFlashMethod]
    by_cases hown : entry.flashMethod = ""
    · have hguard : ¬ (kMaxInheritanceDepth ≤ chain.length ∨ entry.definitionId ∈ chain) := by
        have := hfresh entry .refl
        rw [not_or]
        exact ⟨by omega, this⟩
      rw [if_neg (not_not.2 hown), if_neg hguard, hown, overlayString, if_neg (not_not.2 rfl)]
      refine List.foldl_ext _ _ _ ?_
      intro inherited parentId hmem
      cases hfind : catalog.find entry.format parentId with
      | none => rfl
      | some parent =>
        have hparent : catalog.ParentEntry entry parent := ⟨parentId, hmem, hfind⟩
        have hmethod : effectiveFlashMethodIn catalog fuel parent (chain ++ [entry.definitionId]) =
            inheritedFlashMethod catalog n parent := by
          refine ih hparent.spec.1 (Nat.le_of_succ_le_succ hfuel) (hends parent hparent) ?_ ?_
          · rw [List.length_append, List.length_singleton]
            omega
          · intro ancestor hreach hchain
            have hreach' := ReflTransGen.head hparent hreach
            rcases List.mem_append.1 hchain with hchain | hself
            · exact hfresh ancestor hreach' hchain
            · -- an ancestor with the entry's own id is the entry, which closes a cycle
              obtain ⟨hmem', hformat⟩ := DefinitionCatalog.reaches_spec hentry hreach'
              have hsame : ancestor = entry :=
                List.inj_on_of_nodup_map catalog.nodup hmem' hentry
                  (Prod.ext hformat (List.mem_singleton.1 hself))
              subst hsame
              exact hends.not_cycle (TransGen.head' hparent hreach)
        simp only [hmethod, overlayString]
    · rw [if_pos hown, overlayString, if_pos hown]

/-! ### The overlay of the definitions -/

/-- The last of the parents that has a method gives it. -/
theorem overlayParents_flashMethod {stack : List String} {parents : List Resolved}
    {resolved r : Option Resolved} (h : overlayParents stack parents resolved = .ok r) :
    (r.getD {}).definition.metadata.flashMethod =
      parents.foldl (fun inherited parent =>
          overlayString inherited parent.definition.metadata.flashMethod)
        (resolved.getD {}).definition.metadata.flashMethod := by
  induction parents generalizing resolved with
  | nil =>
    cases h
    rfl
  | cons parent rest ih =>
    simp only [overlayParents] at h
    split at h
    · cases h
    · rename_i next hnext
      rw [ih h, List.foldl_cons]
      congr 1
      cases resolved with
      | none =>
        cases hnext
        -- the first parent is laid over the empty definition
        change parent.definition.metadata.flashMethod = overlayString "" _
        rw [overlayString]
        split
        · rfl
        · rename_i hempty
          exact not_not.1 hempty
      | some resolved =>
        simp only [overlayParent] at hnext
        split at hnext
        · cases hnext
        · rename_i definition hoverlay
          cases hnext
          exact overlayDefinition_flashMethod hoverlay

theorem overlayAll_flashMethod {stack : List String} {parents : List Resolved}
    {definition : UnresolvedDefinition} {r : Resolved}
    (h : overlayAll stack parents definition = .ok r) :
    r.definition.metadata.flashMethod =
      overlayString (parents.foldl (fun inherited parent =>
          overlayString inherited parent.definition.metadata.flashMethod) "")
        definition.metadata.flashMethod := by
  simp only [overlayAll] at h
  split at h
  · cases h
  · rename_i merged hmerged
    simp only [overlayChild] at h
    split at h
    · cases h
    · rename_i child hchild
      cases h
      rw [overlayDefinition_flashMethod hchild, overlayParents_flashMethod hmerged]
      rfl

/-! ### The index and the definitions -/

/-- What the resolver makes of the resolved root has its metadata. -/
theorem finishRoot_metadata {root : UnresolvedDefinition} {resolved : Resolved} {r : RomDefinition}
    (h : finishRoot root resolved = .ok r) : r.metadata = resolved.definition.metadata := by
  simp only [finishRoot, materialize] at h
  cases hscalings : resolveScalings resolved.definition.scalings with
  | error e =>
    simp only [hscalings] at h
    cases h
  | ok scalings =>
    simp only [hscalings, validateAndResolveMaps] at h
    split at h
    · cases h
    · rename_i result hresult
      cases h
      split at hresult
      · cases hresult
      · cases hresult
        rfl

theorem parseRomHeader_xmlId {rom : XmlNode} {source : String} {identity : RomIdentity}
    (h : parseRomHeader rom source = .ok identity) :
    definitionIdForRom rom source = .ok identity.xmlId := by
  obtain ⟨definitionId, hid, h⟩ := bind_eq_ok.1 h
  obtain ⟨address, -, hidentity⟩ := bind_eq_ok.1 h
  cases hidentity
  exact hid

/-- What the index keeps of a definition. -/
structure DefinitionIndexEntry.Describes (entry : DefinitionIndexEntry)
    (definition : UnresolvedDefinition) : Prop where
  format : entry.format = definition.format
  definitionId : entry.definitionId = definition.identity.xmlId
  parents : entry.parents = definition.parents
  flashMethod : entry.flashMethod = definition.metadata.flashMethod

/-- The loop over the parents by their ids, and the overlay of the parents themselves. -/
theorem foldl_flashMethod {catalog : DefinitionCatalog} {format : DefinitionFormat} {n : ℕ}
    {ids : List String} {parents : List Resolved}
    (h : List.Forall₂ (fun id parent => ∃ entry, catalog.find format id = some entry ∧
      parent.definition.metadata.flashMethod = inheritedFlashMethod catalog n entry) ids parents)
    (inherited : String) :
    parents.foldl (fun inherited parent =>
        overlayString inherited parent.definition.metadata.flashMethod) inherited =
      ids.foldl (fun inherited parentId =>
        match catalog.find format parentId with
        | none => inherited
        | some parent => overlayString inherited (inheritedFlashMethod catalog n parent))
        inherited := by
  induction h generalizing inherited with
  | nil => rfl
  | cons hid _ ih =>
    obtain ⟨entry, hfind, hmethod⟩ := hid
    rw [List.foldl_cons, List.foldl_cons, ih, hfind, hmethod]

/-- The resolved definition has the flash method that the plain recursion over the index gives. -/
def FlashMethodOf (catalog : DefinitionCatalog) (format : DefinitionFormat)
    (definition : UnresolvedDefinition) (resolved : Resolved) : Prop :=
  ∀ entry ∈ catalog.entries, entry.format = format → entry.Describes definition →
    ∀ n, EndsWithin catalog.ParentEntry n entry →
      resolved.definition.metadata.flashMethod = inheritedFlashMethod catalog n entry

namespace RomRaider

variable {source definitionId : String} {rom : XmlNode}

theorem indexEntry_eq_ok {entry : DefinitionIndexEntry} (h : indexEntry source rom = .ok entry) :
    definitionIdForRom rom source = .ok entry.definitionId ∧ entry.format = .romRaider ∧
      entry.source = source ∧ entry.parents = parentReferences rom ∧
      entry.flashMethod = headerChildText (child (some rom) "romid") "flashmethod" := by
  obtain ⟨identity, hidentity, hentry⟩ := bind_eq_ok.1 h
  have hid := parseRomHeader_xmlId hidentity
  cases hentry
  refine ⟨hid, rfl, rfl, ?_, ?_⟩
  all_goals dsimp only

theorem parseRom_eq_ok {definition : UnresolvedDefinition}
    (h : parseRom source definitionId rom = .ok definition) :
    definitionIdForRom rom source = .ok definition.identity.xmlId ∧
      definition.format = .romRaider ∧ definition.parents = parentReferences rom ∧
      definition.metadata = parseMetadata (child (some rom) "romid") := by
  obtain ⟨identity, hidentity, h⟩ := bind_eq_ok.1 h
  have hid := parseRomHeader_xmlId hidentity
  obtain ⟨tables, -, hdefinition⟩ := bind_eq_ok.1 h
  cases hdefinition
  refine ⟨hid, rfl, ?_, ?_⟩
  all_goals dsimp only

/-- The ROM that is selected is the only one of its id. -/
theorem selectRom_unique {roms : List XmlNode} {selected : Option XmlNode}
    (h : selectRom source definitionId roms selected = .ok (some rom)) :
    (∀ other, selected = some other → other = rom) ∧
      ∀ other ∈ roms, definitionIdForRom other source = .ok definitionId → other = rom := by
  induction roms generalizing selected with
  | nil =>
    cases h
    simp
  | cons first roms ih =>
    obtain ⟨candidateId, hcandidate, h⟩ := bind_eq_ok.1 h
    split at h
    · rename_i hid
      split at h
      · cases h
      · rename_i hnone
        obtain ⟨hfirst, hrest⟩ := ih h
        refine ⟨fun other hother => absurd (by simp [hother]) hnone, ?_⟩
        intro other hmem hother
        rcases List.mem_cons.1 hmem with rfl | hmem
        · exact hfirst _ rfl
        · exact hrest other hmem hother
    · rename_i hid
      obtain ⟨hselected, hrest⟩ := ih h
      refine ⟨hselected, ?_⟩
      intro other hmem hother
      rcases List.mem_cons.1 hmem with rfl | hmem
      · rw [hcandidate] at hother
        cases hother
        exact absurd rfl hid
      · exact hrest other hmem hother

end RomRaider

namespace DefinitionFiles

variable {files : DefinitionFiles} {catalog : DefinitionCatalog}

/-- Every entry of the catalog is one that its file has. -/
def Indexed (files : DefinitionFiles) (catalog : DefinitionCatalog) : Prop :=
  ∀ entry ∈ catalog.entries, ∃ contents parsed, files.read entry.source = .ok contents ∧
    files.parseIndex entry.format contents entry.source = .ok parsed ∧ entry ∈ parsed

/-- The entries of the files are read from them, in the format that was asked for. -/
theorem mem_indexEntries {format : DefinitionFormat} {skip : Bool} {handles : List String}
    {entries : List DefinitionIndexEntry}
    (h : files.indexEntries format skip handles = .ok entries) {entry : DefinitionIndexEntry}
    (hentry : entry ∈ entries) :
    ∃ handle contents parsed, files.read handle = .ok contents ∧
      files.parseIndex format contents handle = .ok parsed ∧ entry ∈ parsed := by
  induction handles generalizing entries with
  | nil =>
    cases h
    cases hentry
  | cons handle handles ih =>
    simp only [indexEntries] at h
    split at h
    · split at h
      · exact ih h hentry
      · cases h
    · rename_i parsed hparsed
      obtain ⟨contents, hread, hparsed⟩ := bind_eq_ok.1 hparsed
      split at h
      · cases h
      · rename_i rest hrest
        cases h
        rcases List.mem_append.1 hentry with hentry | hentry
        · exact ⟨handle, contents, parsed, hread, hparsed, hentry⟩
        · exact ih hrest hentry

theorem mem_addEntries {entries : List DefinitionIndexEntry} {catalog catalog' : DefinitionCatalog}
    (h : addEntries catalog entries = .ok catalog') {entry : DefinitionIndexEntry}
    (hentry : entry ∈ catalog'.entries) : entry ∈ catalog.entries ∨ entry ∈ entries := by
  induction entries generalizing catalog with
  | nil =>
    cases h
    exact .inl hentry
  | cons first entries ih =>
    simp only [addEntries] at h
    split at h
    · cases h
    · split at h
      · rcases ih h with hmem | hmem
        · rcases List.mem_append.1 hmem with hmem | hmem
          · exact .inl hmem
          · exact .inr (List.mem_singleton.1 hmem ▸ List.mem_cons_self ..)
        · exact .inr (List.mem_cons_of_mem _ hmem)
      · split at h
        · exact (ih h).imp_right (List.mem_cons_of_mem _)
        · cases h

/-- An entry of a parsed index has the format and the source that were asked for. -/
theorem parseIndex_spec {format : DefinitionFormat} {contents : Bytes} {source : String}
    {parsed : List DefinitionIndexEntry} (h : files.parseIndex format contents source = .ok parsed)
    {entry : DefinitionIndexEntry} (hentry : entry ∈ parsed) :
    entry.format = format ∧ entry.source = source := by
  cases format with
  | romRaider =>
    obtain ⟨root, -, h⟩ := bind_eq_ok.1 h
    obtain ⟨rom, -, hread⟩ := mem_of_mapM h hentry
    obtain ⟨-, hformat, hsource, -⟩ := RomRaider.indexEntry_eq_ok hread
    exact ⟨hformat, hsource⟩
  | ecuFlash =>
    obtain ⟨rom, -, h⟩ := bind_eq_ok.1 h
    obtain ⟨identity, -, hparsed⟩ := bind_eq_ok.1 h
    cases hparsed
    cases List.mem_singleton.1 hentry
    exact ⟨rfl, rfl⟩

/-- The catalogs that the service builds are indexed. -/
theorem indexed_buildCatalog {format : DefinitionFormat} {handles : List String} {skip : Bool}
    (h : files.buildCatalog format handles skip = .ok catalog) : files.Indexed catalog := by
  intro entry hentry
  simp only [buildCatalog] at h
  split at h
  · cases h
  · rename_i entries hentries
    have hmem := (mem_addEntries h hentry).resolve_left (by simp)
    obtain ⟨handle, contents, parsed, hread, hparsed, hparsed'⟩ := mem_indexEntries hentries hmem
    obtain ⟨rfl, rfl⟩ := parseIndex_spec hparsed hparsed'
    exact ⟨contents, parsed, hread, hparsed, hparsed'⟩

theorem describes_romRaider {contents : Bytes} {source : String} {parsed : List DefinitionIndexEntry}
    (hindex : parseRomraiderIndex files.xml contents source = .ok parsed)
    {entry : DefinitionIndexEntry} (hentry : entry ∈ parsed) {definition : UnresolvedDefinition}
    (h : parseRomraiderDefinition files.xml contents source entry.definitionId = .ok definition) :
    entry.Describes definition := by
  obtain ⟨root, hroot, hindex⟩ := bind_eq_ok.1 hindex
  obtain ⟨rom, hrom, hread⟩ := mem_of_mapM hindex hentry
  obtain ⟨hid, hformat, -, hparents, hmethod⟩ := RomRaider.indexEntry_eq_ok hread
  simp only [parseRomraiderDefinition] at h
  split at h
  · cases h
  · obtain ⟨root', hroot', h⟩ := bind_eq_ok.1 h
    rw [hroot] at hroot'
    cases hroot'
    obtain ⟨selected, hselect, h⟩ := bind_eq_ok.1 h
    cases selected with
    | none => cases h
    | some selected =>
      -- the entry's ROM has the id, so it is the one that is selected
      cases (RomRaider.selectRom_unique hselect).2 rom hrom hid
      obtain ⟨hid', hformat', hparents', hmetadata⟩ := RomRaider.parseRom_eq_ok h
      rw [hid] at hid'
      exact
        { format := hformat.trans hformat'.symm
          definitionId := Except.ok.inj hid'
          parents := hparents.trans hparents'.symm
          flashMethod := by rw [hmethod, hmetadata]; rfl }

theorem describes_ecuFlash {contents : Bytes} {source : String} {parsed : List DefinitionIndexEntry}
    (hindex : parseEcuflashIndex files.xml contents source = .ok parsed)
    {entry : DefinitionIndexEntry} (hentry : entry ∈ parsed) {definition : UnresolvedDefinition}
    (h : parseEcuflashDefinition files.fineIncrementFrom files.xml contents source =
      .ok definition) : entry.Describes definition := by
  obtain ⟨rom, hrom, hindex⟩ := bind_eq_ok.1 hindex
  obtain ⟨identity, hidentity, hparsed⟩ := bind_eq_ok.1 hindex
  cases hparsed
  cases List.mem_singleton.1 hentry
  obtain ⟨rom', hrom', h⟩ := bind_eq_ok.1 h
  rw [hrom] at hrom'
  cases hrom'
  obtain ⟨identity', hidentity', h⟩ := bind_eq_ok.1 h
  rw [hidentity] at hidentity'
  cases hidentity'
  obtain ⟨scalings, -, h⟩ := bind_eq_ok.1 h
  obtain ⟨tables, -, hdefinition⟩ := bind_eq_ok.1 h
  cases hdefinition
  exact ⟨rfl, rfl, rfl, rfl⟩

/-- **What is loaded for an id is described by the entry of the id.** -/
theorem Indexed.describes (hindex : files.Indexed catalog) {format : DefinitionFormat} {id : String}
    {repositoryError : Option Error} {definition : UnresolvedDefinition}
    (h : (files.loader catalog format id repositoryError).1 = .ok definition) :
    ∃ entry, catalog.find format id = some entry ∧ entry.Describes definition := by
  simp only [loader] at h
  split at h
  · cases h
  · rename_i entry hfind
    refine ⟨entry, hfind, ?_⟩
    obtain ⟨hmem, rfl, rfl⟩ := DefinitionCatalog.find_eq_some hfind
    obtain ⟨contents, parsed, hread, hparsed, hentry⟩ := hindex entry hmem
    rw [hread] at h
    simp only [parseIndex] at hparsed
    simp only [parseEntry] at h
    split at h
    · rename_i hformat
      rw [hformat] at hparsed
      exact describes_romRaider hparsed hentry h
    · rename_i hformat
      rw [hformat] at hparsed
      split at h
      · cases h
      · rename_i definition' hdefinition
        split at h
        · cases h
        · cases h
          exact describes_ecuFlash hparsed hentry hdefinition

/-- **The overlay of the parents under the child is the plain recursion.** -/
theorem inherits_flashMethod (hindex : files.Indexed catalog) (format : DefinitionFormat) :
    Inherits (files.loader catalog) format (FlashMethodOf catalog format) := by
  intro stack definition parents resolved _ hparents hoverlay entry hentry hformat hdescribes n hends
  cases n with
  | zero => exact hends.elim
  | succ n =>
    rw [overlayAll_flashMethod hoverlay, inheritedFlashMethod, hdescribes.flashMethod]
    congr 1
    rw [hformat, hdescribes.parents]
    refine foldl_flashMethod ?_ ""
    rw [List.forall₂_iff_get] at hparents ⊢
    refine ⟨hparents.1, ?_⟩
    intro i h h'
    obtain ⟨d, ⟨⟨state, hload⟩, -, -⟩, hd⟩ := hparents.2 i h h'
    obtain ⟨parent, hfind, hparent⟩ := hindex.describes hload
    obtain ⟨hmem, hformat', -⟩ := DefinitionCatalog.find_eq_some hfind
    refine ⟨parent, hfind, hd parent hmem hformat' hparent n (hends parent ⟨_, ?_, hformat ▸ hfind⟩)⟩
    rw [hdescribes.parents]
    exact List.get_mem ..

/-- **The walk over the index and the resolver choose the same flash method**, for every entry that
is loaded and whose chains of parents keep the limit. -/
theorem effectiveFlashMethod_eq_load (hindex : files.Indexed catalog) {entry : DefinitionIndexEntry}
    (hentry : entry ∈ catalog.entries) {definition : RomDefinition}
    (hload : files.loadDefinition catalog entry.format entry.definitionId = .ok definition)
    (hlimit : catalog.KeepsLimit entry) :
    effectiveFlashMethod catalog entry [] = definition.metadata.flashMethod := by
  have hends : EndsWithin catalog.ParentEntry kMaxInheritanceDepth entry :=
    endsWithin_of_isChain hlimit
  have hwalk : effectiveFlashMethod catalog entry [] =
      inheritedFlashMethod catalog kMaxInheritanceDepth entry := by
    refine effectiveFlashMethodIn_eq hentry (Nat.le_succ _) hends (Nat.zero_add _).le ?_
    simp
  simp only [loadDefinition] at hload
  split at hload
  · cases hload
  · rename_i root repositoryError hroot
    obtain ⟨found, hfind, hdescribes⟩ := hindex.describes (by rw [hroot])
    rw [DefinitionCatalog.find_of_mem hentry] at hfind
    cases hfind
    split at hload
    · rename_i result state hresolve
      cases hload
      have hok : (resolveDefinition (files.loader catalog) root repositoryError).1 =
          .ok definition := by rw [hresolve]
      obtain ⟨resolved, hres, hfinish⟩ := resolveRoot_eq_ok hok
      have hout := resolve_root_outcome (inherits_flashMethod hindex root.format) repositoryError
        (kMaxInheritanceDepth + 1)
      obtain ⟨-, hmethod, -⟩ := hout.consistent resolved hres
      rw [hwalk, finishRoot_metadata hfinish]
      exact (hmethod entry hentry hdescribes.format hdescribes _ hends).symm
    · cases hload

end DefinitionFiles

/-! ### A child and its parents -/

/-- A document of one ROM. -/
def romDocument (id method : String) (parents : List String) : List XmlNode :=
  [.element "rom" []
    (.element "romid" []
        [.element "xmlid" [] [.text id], .element "flashmethod" [] [.text method]] ::
      parents.map fun parent => .element "include" [] [.text parent])]

/-- The entry of the index for it. -/
def romEntry (source id method : String) (parents : List String) : DefinitionIndexEntry where
  format := .ecuFlash
  definitionId := id
  internalId := ""
  internalIdAddress := none
  internalIdEncoding := .asciiOrHex
  ecuId := ""
  flashMethod := method
  source := source
  parents := parents

/-- A child without a method; the last of its parents has none either. -/
def includingFiles : DefinitionFiles where
  read handle :=
    if handle = "child" then .ok [0]
    else if handle = "sti" then .ok [1]
    else .ok [2]
  xml contents :=
    if contents = [0] then .ok (romDocument "CHILD" "" ["STI", "WRX"])
    else if contents = [1] then .ok (romDocument "STI" "sti05" [])
    else .ok (romDocument "WRX" "" [])
  fineIncrementFrom coarse := coarse

/-- Their catalog. -/
def includingCatalog : DefinitionCatalog where
  entries := [romEntry "child" "CHILD" "" ["STI", "WRX"], romEntry "sti" "STI" "sti05" [],
    romEntry "wrx" "WRX" "" []]
  nodup := by decide +kernel

/-- Both come to the method of the first parent, the last that has one. -/
theorem effectiveFlashMethod_eq_load_child :
    effectiveFlashMethod includingCatalog (romEntry "child" "CHILD" "" ["STI", "WRX"]) [] = "sti05" ∧
      (includingFiles.loadDefinition includingCatalog .ecuFlash "CHILD").toOption.map
        (·.metadata.flashMethod) = some "sti05" := by
  have hindex : includingFiles.Indexed includingCatalog := by
    intro entry hentry
    rcases List.mem_cons.1 hentry with rfl | hentry
    · exact ⟨[0], [romEntry "child" "CHILD" "" ["STI", "WRX"]], rfl, by decide +kernel,
        List.mem_singleton_self _⟩
    rcases List.mem_cons.1 hentry with rfl | hentry
    · exact ⟨[1], [romEntry "sti" "STI" "sti05" []], rfl, by decide +kernel,
        List.mem_singleton_self _⟩
    · cases List.mem_singleton.1 hentry
      exact ⟨[2], [romEntry "wrx" "WRX" "" []], rfl, by decide +kernel, List.mem_singleton_self _⟩
  have hlimit : includingCatalog.KeepsLimit (romEntry "child" "CHILD" "" ["STI", "WRX"]) := by
    intro entries hchain
    cases entries with
    | nil => decide
    | cons parent rest =>
      obtain ⟨hparent, hrest⟩ := List.isChain_cons_cons.1 hchain
      -- the parents have no parents
      have hnone : parent.parents = [] := by
        obtain ⟨id, hid, hfind⟩ := hparent
        rcases List.mem_cons.1 hid with rfl | hid
        · cases hfind
          rfl
        · cases List.mem_singleton.1 hid
          cases hfind
          rfl
      cases rest with
      | nil => exact (by decide : 2 ≤ kMaxInheritanceDepth)
      | cons next rest =>
        obtain ⟨id, hid, -⟩ := (List.isChain_cons_cons.1 hrest).1
        rw [hnone] at hid
        cases hid
  have hmethod : effectiveFlashMethod includingCatalog
      (romEntry "child" "CHILD" "" ["STI", "WRX"]) [] = "sti05" := by decide +kernel
  refine ⟨hmethod, ?_⟩
  have hok : (includingFiles.loadDefinition includingCatalog .ecuFlash "CHILD").isOk = true := by
    decide +kernel
  cases hload : includingFiles.loadDefinition includingCatalog .ecuFlash "CHILD" with
  | error e =>
    rw [hload] at hok
    cases hok
  | ok definition =>
    have hsame := DefinitionFiles.effectiveFlashMethod_eq_load hindex (List.mem_cons_self ..) hload hlimit
    rw [hmethod] at hsame
    exact congrArg some hsame.symm

end FastEcu.Definition
