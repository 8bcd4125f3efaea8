import FastEcu.Definition.WriterSpec

/-!
# Importing a definition with an unedited header

The header of a definition is read with `ReadDefinitionHeader`, turned into an input with
`BuildDefinitionHeaderInput` (`src/backend/definition/definition_header_fields.cpp`) and written back with
`RewriteEcuflashXml`.  The draft has neither the file size nor the notes of the identity, so they are written
empty.

* `headerOf`, `headerTexts` : the header that a definition has, and its texts.
* `Accepted.build_ok` : what the draft of an accepted source comes to.
* `ImportKeeps` : the definition is the same after the import.
* `import_steps` : what the steps of an import do.
* `import_keeps_iff` : the definition is kept exactly when there is nothing to lose.
-/

namespace FastEcu.Definition

open Memory Data
open XmlNode hiding text
open Calibration (Error)
open Logging (asciiBytes)

/-! ### The texts of a header -/

section Texts

theorem representable_append (a b : String) : hasUnrepresentableCharacter (a ++ b) =
    (hasUnrepresentableCharacter a || hasUnrepresentableCharacter b) := by
  rw [hasUnrepresentableCharacter, String.toList_append, List.any_append]
  rfl

/-- A trimmed text is a part of the text. -/
theorem trimHeaderText_isInfix (text : String) : (trimHeaderText text).toList <:+: text.toList := by
  have hfront := (@stripSpaces_spec kWhitespace text.toList kWhitespace_ne_nil _ le_rfl).1
  unfold trimHeaderText
  generalize stripSpaces kWhitespace text.toList.length text.toList = front at hfront
  have hback := (@stripSpaces_spec (kWhitespace.map List.reverse) front.reverse reverse_kWhitespace_ne_nil
    front.length (by rw [List.length_reverse])).1
  dsimp only
  generalize stripSpaces (kWhitespace.map List.reverse) front.length front.reverse = back at hback
  have hpre : back.reverse <+: front := by
    rw [← List.reverse_reverse front]
    exact List.reverse_prefix.2 hback
  rw [String.toList_ofList]
  exact hpre.isInfix.trans hfront.isInfix

theorem representable_trim {text : String} (h : ¬ hasUnrepresentableCharacter text) :
    ¬ hasUnrepresentableCharacter (trimHeaderText text) := by
  intro hbad
  obtain ⟨c, hc, hcbad⟩ := List.any_eq_true.1 hbad
  exact h (List.any_eq_true.2 ⟨c, (trimHeaderText_isInfix text).subset hc, hcbad⟩)

/-- The text of an element is made of the texts in it. -/
theorem representable_readElementText {node : Option XmlNode}
    (h : ∀ element, node = some element → ∀ value ∈ texts element, ¬ hasUnrepresentableCharacter value) :
    ¬ hasUnrepresentableCharacter (readElementText node) := by
  have hparts : ∀ part ∈ (node.elim [] children).map textPart, ¬ hasUnrepresentableCharacter part := by
    intro part hpart
    obtain ⟨child, hchild, rfl⟩ := List.mem_map.1 hpart
    cases node with
    | none => cases hchild
    | some element =>
      cases element with
      | element name attributes children =>
        have htexts : ∀ value ∈ texts child, ¬ hasUnrepresentableCharacter value := fun value hvalue =>
          h _ rfl value (mem_textsAll.2 ⟨child, hchild, hvalue⟩)
        cases child with
        | text value => exact htexts value (List.mem_singleton_self _)
        | cdata value => exact htexts value (List.mem_singleton_self _)
        | _ => exact (by decide : ¬ hasUnrepresentableCharacter "")
      | _ => cases hchild
  have hfold : ∀ (parts : List String) (text : String), ¬ hasUnrepresentableCharacter text →
      (∀ part ∈ parts, ¬ hasUnrepresentableCharacter part) →
      ¬ hasUnrepresentableCharacter (parts.foldl (· ++ ·) text) := by
    intro parts
    induction parts with
    | nil => exact fun _ htext _ => htext
    | cons part parts ih =>
      intro text htext hall
      refine ih (text ++ part) ?_ fun part' hpart' => hall part' (List.mem_cons_of_mem _ hpart')
      rw [representable_append, Bool.or_eq_true, not_or]
      exact ⟨htext, hall part (List.mem_cons_self ..)⟩
  rw [readElementText_eq]
  exact hfold _ "" (by decide) hparts

/-- A child has only texts of its parent. -/
theorem texts_child {node element : XmlNode} {name : String} (h : child (some node) name = some element) :
    ∀ value ∈ texts element, value ∈ texts node := by
  rw [child_some] at h
  have hmem := (mem_named.1 (List.mem_of_head? h)).1
  intro value hvalue
  cases node with
  | element name' attributes children => exact mem_textsAll.2 ⟨element, hmem, hvalue⟩
  | _ => cases hmem

/-- A field has no such character when its element has none. -/
theorem representable_headerChildText {node : Option XmlNode} {name : String}
    (h : ∀ element, child node name = some element →
      ∀ value ∈ texts element, ¬ hasUnrepresentableCharacter value) :
    ¬ hasUnrepresentableCharacter (headerChildText node name) := by
  have htext := representable_readElementText h
  unfold headerChildText
  dsimp only
  split_ifs
  · exact htext
  · exact representable_trim htext

/-- What is read from a field is trimmed, except for notes. -/
theorem trim_headerChildText (node : Option XmlNode) {name : String} (h : name ≠ "notes") :
    trimHeaderText (headerChildText node name) = headerChildText node name := by
  unfold headerChildText
  dsimp only
  rw [if_neg h, trimHeaderText_trimHeaderText]

end Texts

/-! ### What an accepted source has -/

/-- The texts of a header: those in the `romid`, in the includes and in the notes of a `rom`. -/
def headerTexts (rom : XmlNode) : List String :=
  ["romid", "include", "notes"].flatMap fun name => (childrenNamed (some rom) name).flatMap texts

/-- The header that a definition has; the notes of the `rom` are no part of it. -/
def headerOf (definition : UnresolvedDefinition) : DefinitionHeaderInput where
  xmlId := definition.identity.xmlId
  internalId := definition.identity.internalId
  ecuId := definition.identity.ecuId
  internalIdAddress := definition.identity.internalIdAddress
  metadata := definition.metadata
  includeId := definition.parents.headD ""

/-- What the parser has read from the `rom` of a definition. -/
structure Accepted (fineIncrementFrom : String → String) (rom : XmlNode) (source : String)
    (definition : UnresolvedDefinition) : Prop where
  identity : parseRomHeader rom source = .ok definition.identity
  metadata : definition.metadata = parseMetadata (child (some rom) "romid")
  parents : definition.parents = EcuFlash.parentReferences rom
  body : parseBody fineIncrementFrom source definition.identity.xmlId rom =
    .ok (definition.maps, definition.scalings)

section Accepted

variable {xml : DefinitionXml} {fineIncrementFrom : String → String} {source : Bytes} {name : String}
  {before after children : List XmlNode} {attributes : List (String × String)} {rom : XmlNode}
  {definition : UnresolvedDefinition}

/-- An accepted source has one root, and its definition is that of this `rom`. -/
theorem HasRom.accepted (hsource : HasRom xml source before children after attributes)
    (h : parseEcuflashDefinition fineIncrementFrom xml.parse source name = .ok definition) :
    after.filter isElement = [] ∧
      Accepted fineIncrementFrom (shownRom attributes children) name definition := by
  by_cases hsingle : after.filter isElement = []
  swap
  · have hlength : 1 < ((withoutMarkup (before ++ .element "rom" attributes children :: after)).filter
        isElement).length := by
      rw [elements_withoutMarkup, List.length_map, hsource.elements, List.length_cons]
      exact Nat.succ_lt_succ (List.length_pos_iff.2 hsingle)
    obtain ⟨e, he⟩ := parseRoot_of_length hsource.reads.2 hlength name
    rw [parseEcuflashDefinition, he] at h
    cases h
  refine ⟨hsingle, ?_⟩
  have hroot := parseRoot_of_elements hsource.reads.2 (hsource.shown_root hsingle) (named_element _ _ _) name
  cases hheader : parseRomHeader (shownRom attributes children) name with
  | error e =>
    rw [parseEcuflashDefinition, hroot, ok_bind, hheader] at h
    cases h
  | ok identity =>
    rw [parseEcuflashDefinition_eq hroot hheader, bind_eq_ok] at h
    obtain ⟨body, hbody, hdefinition⟩ := h
    cases hdefinition
    exact ⟨hheader, rfl, rfl, hbody⟩

theorem validateFields_source {parent : Option XmlNode} {names : List String} {source : String}
    (h : validateFields parent names source = .ok ()) (source' : String) :
    validateFields parent names source' = .ok () := by
  unfold validateFields at h ⊢
  split at h
  · cases h
  · rfl

/-- The address of a trimmed text is that of the text, whoever asks. -/
theorem parseHeaderAddress_agree (text s i s' i' : String) :
    Agree (parseHeaderAddress (trimHeaderText text) s i) (parseHeaderAddress text s' i') := by
  unfold parseHeaderAddress
  rw [trimHeaderText_trimHeaderText]
  refine .ite (.refl _) ?_
  dsimp only
  split
  · exact agree_invalid ..
  · exact (definitionAddressFrom_agree ..).bind fun address => .refl _

/-- What the identity of a `rom` was read from. -/
structure IdentityRead (rom romId : XmlNode) (identity : RomIdentity) : Prop where
  single : childrenNamed (some rom) "romid" = [romId]
  valid : ∀ source, validateHeaderStructure rom source = .ok ()
  xmlId : identity.xmlId = headerChildText (some romId) "xmlid"
  xmlId_ne : identity.xmlId ≠ ""
  internalId : identity.internalId = headerChildText (some romId) "internalidstring"
  ecuId : identity.ecuId = headerChildText (some romId) "ecuid"
  address : ∀ source definitionId, parseHeaderAddress (headerChildText (some romId) "internalidaddress")
    source definitionId = .ok identity.internalIdAddress

theorem validateHeaderStructure_source {source : String} (h : validateHeaderStructure rom source = .ok ())
    (source' : String) : validateHeaderStructure rom source' = .ok () := by
  rw [validateHeaderStructure, bind_eq_ok] at h ⊢
  obtain ⟨_, hidentity, hrom⟩ := h
  exact ⟨(), validateFields_source hidentity source', validateFields_source hrom source'⟩

theorem identityElement_eq_ok {source : String} {romId : XmlNode}
    (h : identityElement rom source = .ok romId) :
    childrenNamed (some rom) "romid" = [romId] ∧ validateHeaderStructure rom source = .ok () := by
  rw [identityElement, bind_eq_ok] at h
  obtain ⟨_, hvalid, hromId⟩ := h
  split at hromId
  · cases hromId
  · rename_i node hnode
    split at hromId
    · cases hromId
    · cases hromId
      exact ⟨hnode, hvalid⟩
  · cases hromId

theorem requiredChildText_eq_ok {parent : XmlNode} {parentName childName source value : String}
    (h : requiredChildText parent parentName childName source = .ok value) :
    value = headerChildText (some parent) childName ∧ value ≠ "" := by
  unfold requiredChildText at h
  dsimp only at h
  split_ifs at h with hempty
  · cases h
  · cases h
    exact ⟨rfl, hempty⟩

/-- **An identity that was read stands in the one `romid`.** -/
theorem identityRead_of_parseRomHeader {source : String} {identity : RomIdentity}
    (h : parseRomHeader rom source = .ok identity) : ∃ romId, IdentityRead rom romId identity := by
  rw [parseRomHeader, bind_eq_ok] at h
  obtain ⟨definitionId, hid, h⟩ := h
  dsimp only at h
  rw [bind_eq_ok] at h
  obtain ⟨address, haddress, h⟩ := h
  cases h
  rw [definitionIdForRom, bind_eq_ok] at hid
  obtain ⟨romId, hromId, hid⟩ := hid
  obtain ⟨hnamed, hvalid⟩ := identityElement_eq_ok hromId
  obtain ⟨hxmlId, hne⟩ := requiredChildText_eq_ok hid
  have hchild := child_of_childrenNamed hnamed
  rw [hchild] at haddress
  have hagree : ∀ source' id', parseHeaderAddress (headerChildText (some romId) "internalidaddress") source'
      id' = .ok address := fun source' id' =>
    (parseHeaderAddress_agree (readElementText (child (some romId) "internalidaddress")) source' id' source
      definitionId).symm.ok haddress
  refine ⟨romId, hnamed, validateHeaderStructure_source hvalid, hxmlId, hne, ?_, ?_, hagree⟩
  · rw [hchild]
  · rw [hchild]

/-- The one `romid` that the parser finds is the only node of this name, if no instruction has it too. -/
theorem romid_isElement {romId : XmlNode} (h : childrenNamed (some (shownRom attributes children)) "romid" = [romId])
    (hone : (named "romid" children).length ≤ 1) : ∀ node ∈ named "romid" children, node.isElement := by
  intro node hnode
  have hsingle : named "romid" children = [node] := by
    obtain ⟨only, honly⟩ := List.length_eq_one_iff.1 (Nat.le_antisymm hone (List.length_pos_of_mem hnode))
    rw [honly] at hnode ⊢
    rw [List.mem_singleton.1 hnode]
  rw [childrenNamed_some] at h
  have hnamed : named "romid" (withoutMarkup children) = [romId] := h
  rw [withoutMarkup_named, hsingle] at hnamed
  rw [isElement_iff_of_named (mem_named.1 hnode).2]
  by_contra hmarkup
  have hnil : [node].filter (fun other => !other.isMarkup) = [] := List.filter_cons_of_neg hmarkup
  rw [hnil] at hnamed
  cases hnamed

/-! ### The draft of an accepted source -/

/-- The input that the draft of a definition comes to: it has neither a file size nor notes. -/
def importedInput (definition : UnresolvedDefinition) (notes : String) : DefinitionHeaderInput :=
  { headerOf definition with
    metadata := { definition.metadata with fileSize := "", notes := "" }
    notes := notes }

/-- With one include at most, the parent is its text. -/
theorem parentReferences_eq (h : (childrenNamed (some rom) "include").length ≤ 1) :
    EcuFlash.parentReferences rom =
      if headerChildText (some rom) "include" = "" then [] else [headerChildText (some rom) "include"] := by
  rw [childrenNamed_some] at h
  have hfield : headerChildText (some rom) "include" =
      trimHeaderText (readElementText (named "include" rom.children).head?) := by
    rw [headerChildText, child_some]
    exact if_neg (by decide)
  rw [hfield, EcuFlash.parentReferences, childrenNamed_some]
  cases hnamed : named "include" rom.children with
  | nil => decide
  | cons element rest =>
    rw [hnamed, List.length_cons] at h
    obtain rfl : rest = [] := List.eq_nil_of_length_eq_zero (by omega)
    rw [List.head?_cons, List.map_singleton]
    by_cases hempty : trimHeaderText (readElementText (some element)) = ""
    · rw [List.filter_cons_of_neg (by simpa using hempty), List.filter_nil, if_pos hempty]
    · rw [List.filter_cons_of_pos (by simpa using hempty), List.filter_nil, if_neg hempty]

theorem headD_parentReferences (h : (childrenNamed (some rom) "include").length ≤ 1) :
    (EcuFlash.parentReferences rom).headD "" = headerChildText (some rom) "include" := by
  rw [parentReferences_eq h]
  split_ifs with hempty
  · exact hempty.symm
  · rfl

/-- **The input of a draft is the header of the definition**, without the file size and the notes. -/
theorem Accepted.build_ok {romId : XmlNode} (h : Accepted fineIncrementFrom rom name definition)
    (hread : IdentityRead rom romId definition.identity)
    (hinclude : (childrenNamed (some rom) "include").length ≤ 1) :
    buildDefinitionHeaderInput (draftOf rom) =
      .ok (importedInput definition (headerChildText (some rom) "notes")) := by
  have hchild := child_of_childrenNamed hread.single
  have hnormal {field : String} (hfield : field ≠ "notes") (node : Option XmlNode) :=
    @trim_headerChildText node field hfield
  rw [buildDefinitionHeaderInput, draftOf, hchild]
  dsimp only
  rw [hread.address, ok_bind, importedInput, headerOf, hread.xmlId, hread.internalId, hread.ecuId, h.metadata,
    h.parents, headD_parentReferences hinclude, hchild]
  simp only [normalizeHeaderInput, normalizeMetadata, draftMetadata, parseMetadata, trimHeaderText_empty]
  rw [hnormal (by decide), hnormal (by decide), hnormal (by decide), hnormal (by decide), hnormal (by decide),
    hnormal (by decide), hnormal (by decide), hnormal (by decide), hnormal (by decide), hnormal (by decide),
    hnormal (by decide), hnormal (by decide), hnormal (by decide)]
  rfl

theorem buildDefinitionHeaderInput_normal {draft : DefinitionHeaderDraft} {input : DefinitionHeaderInput}
    (h : buildDefinitionHeaderInput draft = .ok input) : normalizeHeaderInput input = input := by
  rw [buildDefinitionHeaderInput, bind_eq_ok] at h
  obtain ⟨address, -, h⟩ := h
  cases h
  exact normalizeHeaderInput_normalizeHeaderInput _

/-- What is imported can be written, when the texts of the header can. -/
theorem Accepted.writable {romId : XmlNode} (h : Accepted fineIncrementFrom rom name definition)
    (hread : IdentityRead rom romId definition.identity)
    (hinclude : (childrenNamed (some rom) "include").length ≤ 1)
    (hplain : ∀ text ∈ headerTexts rom, ¬ hasUnrepresentableCharacter text)
    (hinternal : definition.identity.internalId ≠ "") (hecu : definition.identity.ecuId ≠ "") :
    Writable (importedInput definition (headerChildText (some rom) "notes")) := by
  have helement : ∀ field ∈ ["romid", "include", "notes"], ∀ element ∈ childrenNamed (some rom) field,
      ∀ value ∈ texts element, ¬ hasUnrepresentableCharacter value :=
    fun field hfield element helement value hvalue => hplain value
      (List.mem_flatMap.2 ⟨field, hfield, List.mem_flatMap.2 ⟨element, helement, hvalue⟩⟩)
  have hidentity (field : String) : ¬ hasUnrepresentableCharacter (headerChildText (some romId) field) :=
    representable_headerChildText fun element hchild value hvalue =>
      helement "romid" (List.mem_cons_self ..) romId (hread.single ▸ List.mem_singleton_self romId) value
        (texts_child hchild value hvalue)
  have hrom {field : String} (hfield : field ∈ ["romid", "include", "notes"]) :
      ¬ hasUnrepresentableCharacter (headerChildText (some rom) field) :=
    representable_headerChildText fun element hchild =>
      helement field hfield element (List.mem_of_head? (by rwa [child_some] at hchild))
  have hparent := headD_parentReferences hinclude
  rw [← h.parents] at hparent
  refine ⟨?_, hread.xmlId_ne, hinternal, hecu⟩
  simp only [representedTexts, kEditableMetadataFields, importedInput, headerOf, h.metadata, parseMetadata,
    child_of_childrenNamed hread.single, hread.xmlId, hread.internalId, hread.ecuId, hparent, List.map_cons,
    List.map_nil, List.cons_append, List.nil_append, List.forall_mem_cons]
  exact ⟨hidentity _, hidentity _, hidentity _, hrom (by decide), hrom (by decide), by decide, by decide,
    hidentity _, hidentity _, hidentity _, hidentity _, hidentity _, hidentity _, hidentity _, hidentity _,
    hidentity _, List.forall_mem_nil _⟩

end Accepted

/-! ### The import -/

/-- Importing the source with its own header keeps the definition: the header is read, comes to an input, is
written back, and what is written is parsed to the same identity, metadata, parents, maps and scalings. -/
def ImportKeeps (xml : DefinitionXml) (fineIncrementFrom : String → String) (source : Bytes)
    (definition : UnresolvedDefinition) : Prop :=
  ∃ draft input bytes, readDefinitionHeader xml.parse source = .ok draft ∧
    buildDefinitionHeaderInput draft = .ok input ∧
    rewriteEcuflashXml xml fineIncrementFrom source input = .ok bytes ∧
    ∀ name, ∃ definition', parseEcuflashDefinition fineIncrementFrom xml.parse bytes name = .ok definition' ∧
      definition'.identity = definition.identity ∧ definition'.metadata = definition.metadata ∧
      definition'.parents = definition.parents ∧ definition'.maps = definition.maps ∧
      definition'.scalings = definition.scalings

/-- The definition of an input has the header that a definition has. -/
theorem headerOf_definitionOfInput (input : DefinitionHeaderInput) (name : String)
    (body : List UnresolvedCalibrationMap × List UnresolvedScaling) :
    headerOf (definitionOfInput input name body) = { input with notes := "" } := by
  rw [headerOf, definitionOfInput]
  by_cases hempty : input.includeId = ""
  · simp only [hempty, if_true, List.headD_nil]
  · simp only [hempty, if_false, List.headD_cons]

/-- Two definitions with one parent at most have the same header exactly when they agree on what it says. -/
theorem headerOf_eq_iff {a b : UnresolvedDefinition} {i j : String}
    (ha : a.parents = if i = "" then [] else [i]) (hb : b.parents = if j = "" then [] else [j]) :
    headerOf a = headerOf b ↔
      a.identity = b.identity ∧ a.metadata = b.metadata ∧ a.parents = b.parents := by
  have hhead (k : String) : (if k = "" then [] else [k]).headD "" = k := by
    split_ifs with hempty
    · exact hempty.symm
    · rfl
  constructor
  · intro h
    simp only [headerOf, ha, hb, hhead, DefinitionHeaderInput.mk.injEq] at h
    obtain ⟨hxmlId, hinternalId, hecuId, haddress, hmetadata, hparent, -⟩ := h
    refine ⟨?_, hmetadata, by rw [ha, hb, hparent]⟩
    exact RomIdentity.mk.injEq .. ▸ ⟨hxmlId, hinternalId, hecuId, haddress⟩
  · rintro ⟨hidentity, hmetadata, hparents⟩
    rw [headerOf, headerOf, hidentity, hmetadata, hparents]

/-- What is shown of an imported input is the header of the definition exactly when the fields that a draft does
not have are empty and nothing that the header has is hidden. -/
theorem shownInput_imported_iff (definition : UnresolvedDefinition) (notes : String)
    (hiddenIdentity hiddenRom : String → Bool) :
    { shownInput (importedInput definition notes) hiddenIdentity hiddenRom with notes := "" } =
        headerOf definition ↔
      definition.metadata.fileSize = "" ∧ definition.metadata.notes = "" ∧
        shownInput (headerOf definition) hiddenIdentity hiddenRom = headerOf definition := by
  have hempty (c : Bool) : (if c then "" else "") = "" := ite_self _
  have hsame (hsize : definition.metadata.fileSize = "") (hnotes : definition.metadata.notes = "") :
      { shownInput (importedInput definition notes) hiddenIdentity hiddenRom with notes := "" } =
        shownInput (headerOf definition) hiddenIdentity hiddenRom := by
    simp only [shownInput, importedInput, headerOf, hempty, hsize, hnotes]
  constructor
  · intro h
    have hsize := congrArg (·.metadata.fileSize) h
    have hnotes := congrArg (·.metadata.notes) h
    simp only [shownInput, importedInput, headerOf, hempty] at hsize hnotes
    exact ⟨hsize.symm, hnotes.symm, (hsame hsize.symm hnotes.symm).symm.trans h⟩
  · rintro ⟨hsize, hnotes, h⟩
    exact (hsame hsize hnotes).trans h

section Import

variable {xml : DefinitionXml} {fineIncrementFrom : String → String} {source : Bytes} {name : String}
  {before after children : List XmlNode} {attributes : List (String × String)}
  {definition : UnresolvedDefinition}

/-- What the steps of an import do: the header is read as the header of the definition without its file size and
notes, and what is written from it is read as the part of it that nothing hides, with the body of the source. -/
structure ImportSteps (xml : DefinitionXml) (fineIncrementFrom : String → String) (source : Bytes)
    (attributes : List (String × String)) (children after : List XmlNode) (definition : UnresolvedDefinition)
    (draft : DefinitionHeaderDraft) (notes : String) : Prop where
  draft_ok : readDefinitionHeader xml.parse source = .ok draft
  build_ok : buildDefinitionHeaderInput draft = .ok (importedInput definition notes)
  writable : Writable (importedInput definition notes)
  rewrite_iff : (∃ bytes, rewriteEcuflashXml xml fineIncrementFrom source (importedInput definition notes) =
    .ok bytes) ↔ Rewritable fineIncrementFrom (importedInput definition notes) attributes children after
  parse_ok : ∀ bytes, rewriteEcuflashXml xml fineIncrementFrom source (importedInput definition notes) =
    .ok bytes → ∀ s, parseEcuflashDefinition fineIncrementFrom xml.parse bytes s =
      .ok (definitionOfInput (shownInput (importedInput definition notes) (hidden (romIdChildren children))
        (hidden children)) s (definition.maps, definition.scalings))

/-- **The steps of an import.** -/
theorem import_steps (hsource : HasRom xml source before children after attributes)
    (hparse : parseEcuflashDefinition fineIncrementFrom xml.parse source name = .ok definition)
    (hinternal : definition.identity.internalId ≠ "") (hecu : definition.identity.ecuId ≠ "")
    (hinclude : (childrenNamed (some (shownRom attributes children)) "include").length ≤ 1)
    (hplain : ∀ text ∈ headerTexts (shownRom attributes children), ¬ hasUnrepresentableCharacter text)
    (hwritten : ∀ draft input, readDefinitionHeader xml.parse source = .ok draft →
      buildDefinitionHeaderInput draft = .ok input →
      Survives xml (rewriteDocument (normalizeHeaderInput input)
        (withoutBlank (before ++ .element "rom" attributes children :: after)))) :
    ∃ draft notes, ImportSteps xml fineIncrementFrom source attributes children after definition draft notes := by
  obtain ⟨hsingle, haccepted⟩ := hsource.accepted hparse
  obtain ⟨romId, hread⟩ := identityRead_of_parseRomHeader haccepted.identity
  have hroot := hsource.shown_root hsingle
  have hdraft := readDefinitionHeader_of_root hsource.reads.2 hroot (hread.valid "authoring header")
  have hbuild := haccepted.build_ok hread hinclude
  have hwritable := haccepted.writable hread hinclude hplain hinternal hecu
  have hnormal := buildDefinitionHeaderInput_normal hbuild
  generalize headerChildText (some (shownRom attributes children)) "notes" = notes at hbuild hwritable hnormal
  obtain ⟨hiff, hspec⟩ := @HasRom.rewrite_spec xml fineIncrementFrom (importedInput definition notes) source before
    after children attributes hsource fun _ _ => hwritten _ _ hdraft hbuild
  rw [hnormal] at hiff hspec
  refine ⟨_, notes, hdraft, hbuild, hwritable, hiff, fun bytes hbytes s => ?_⟩
  obtain ⟨⟨rom, body, hrom, hbody, hshown⟩, -⟩ := hspec bytes hbytes
  -- the body that was read again is that of the definition
  have hrom' := parseRoot_of_elements hsource.reads.2 hroot (named_element _ _ _) ""
  rw [hrom, Except.ok.injEq] at hrom'
  rw [hrom'] at hbody
  have hsame := haccepted.body
  rw [hbody, Except.ok.injEq] at hsame
  rw [← hsame]
  exact hshown.definition s

/-- A definition that is kept is the one that is read from what was written. -/
theorem ImportSteps.read_back {draft : DefinitionHeaderDraft} {notes : String}
    (h : ImportSteps xml fineIncrementFrom source attributes children after definition draft notes)
    (hkeeps : ImportKeeps xml fineIncrementFrom source definition) :
    (∃ bytes, rewriteEcuflashXml xml fineIncrementFrom source (importedInput definition notes) = .ok bytes) ∧
    ∃ definition', definition' = definitionOfInput (shownInput (importedInput definition notes)
        (hidden (romIdChildren children)) (hidden children)) "" (definition.maps, definition.scalings) ∧
      definition'.identity = definition.identity ∧ definition'.metadata = definition.metadata ∧
      definition'.parents = definition.parents := by
  obtain ⟨draft', input, bytes, hdraft, hbuild, hbytes, hsame⟩ := hkeeps
  rw [h.draft_ok, Except.ok.injEq] at hdraft
  rw [← hdraft, h.build_ok, Except.ok.injEq] at hbuild
  rw [← hbuild] at hbytes
  obtain ⟨definition', hdefinition, hidentity, hmetadata, hparents, -, -⟩ := hsame ""
  rw [h.parse_ok bytes hbytes "", Except.ok.injEq] at hdefinition
  exact ⟨⟨bytes, hbytes⟩, definition', hdefinition.symm, hidentity, hmetadata, hparents⟩

/-- **An import with the header as it was keeps the definition exactly when there is nothing to lose**: the file
size and the notes of the identity are empty, and no instruction stands in the place of the `romid` or of a
field that has a text. -/
theorem import_keeps_iff (hsource : HasRom xml source before children after attributes)
    (hparse : parseEcuflashDefinition fineIncrementFrom xml.parse source name = .ok definition)
    (hinternal : definition.identity.internalId ≠ "") (hecu : definition.identity.ecuId ≠ "")
    (hinclude : (childrenNamed (some (shownRom attributes children)) "include").length ≤ 1)
    (hplain : ∀ text ∈ headerTexts (shownRom attributes children), ¬ hasUnrepresentableCharacter text)
    (hwritten : ∀ draft input, readDefinitionHeader xml.parse source = .ok draft →
      buildDefinitionHeaderInput draft = .ok input →
      Survives xml (rewriteDocument (normalizeHeaderInput input)
        (withoutBlank (before ++ .element "rom" attributes children :: after)))) :
    ImportKeeps xml fineIncrementFrom source definition ↔
      definition.metadata.fileSize = "" ∧ definition.metadata.notes = "" ∧
        (named "romid" children).length ≤ 1 ∧ ¬ Hides (headerOf definition) children := by
  obtain ⟨draft, notes, hsteps⟩ := import_steps hsource hparse hinternal hecu hinclude hplain hwritten
  obtain ⟨hsingle, haccepted⟩ := hsource.accepted hparse
  obtain ⟨romId, hread⟩ := identityRead_of_parseRomHeader haccepted.identity
  have hheader (s : String) := @headerOf_eq_iff
    (definitionOfInput (shownInput (importedInput definition notes) (hidden (romIdChildren children))
      (hidden children)) s (definition.maps, definition.scalings)) definition _ _ rfl
    (haccepted.parents.trans (parentReferences_eq hinclude))
  simp only [headerOf_definitionOfInput, shownInput_imported_iff] at hheader
  rw [← shownInput_eq_iff_not_hides]
  constructor
  · intro hkeeps
    obtain ⟨hbytes, definition', rfl, hsame⟩ := hsteps.read_back hkeeps
    obtain ⟨hsize, hnotes, hshown⟩ := (hheader "").2 hsame
    exact ⟨hsize, hnotes, (hsteps.rewrite_iff.1 hbytes).one, hshown⟩
  · rintro ⟨hsize, hnotes, hone, hshown⟩
    have hxmlId : hidden (romIdChildren children) "xmlid" = false := by
      rw [Bool.eq_false_iff]
      intro hhidden
      refine hread.xmlId_ne ?_
      have hid := congrArg (·.xmlId) hshown
      simp only [shownInput, hhidden, if_true] at hid
      exact hid.symm
    obtain ⟨bytes, hbytes⟩ := hsteps.rewrite_iff.2
      { writable := hsteps.writable
        single := hsingle
        one := hone
        element := romid_isElement hread.single hone
        xmlId := hxmlId
        body := ⟨_, (parseBody_agree name definition.identity.xmlId "" "" rfl rfl).ok haccepted.body⟩ }
    refine ⟨draft, _, bytes, hsteps.draft_ok, hsteps.build_ok, hbytes, fun s =>
      ⟨_, hsteps.parse_ok bytes hbytes s, ?_⟩⟩
    obtain ⟨hidentity, hmetadata, hparents⟩ := (hheader s).1 ⟨hsize, hnotes, hshown⟩
    exact ⟨hidentity, hmetadata, hparents, rfl, rfl⟩

end Import

/-! ### Two imports -/

/-- A definition with a make, and with nothing that a draft does not have. -/
def plainText : Bytes :=
  asciiBytes "<!--stock--><rom><romid><xmlid>A</xmlid><internalidstring>B</internalidstring>" ++
    asciiBytes "<ecuid>C</ecuid><make>Subaru</make></romid></rom>"

def plainKids : List XmlNode :=
  [.element "xmlid" [] [.text "A"], .element "internalidstring" [] [.text "B"],
    .element "ecuid" [] [.text "C"], .element "make" [] [.text "Subaru"]]

/-- The definition of these texts. -/
def makeDefinition (fileSize : String) : UnresolvedDefinition where
  format := .ecuFlash
  source := "stock"
  identity := { xmlId := "A", internalId := "B", ecuId := "C" }
  metadata := { make := "Subaru", fileSize := fileSize }
  parents := []
  maps := []
  scalings := []

section Sample

variable {source written : Bytes} {kids : List XmlNode}

theorem plainTexts_of_all {nodes : List XmlNode}
    (h : (textsAll nodes).all (!hasUnrepresentableCharacter ·) = true) : PlainTexts nodes := by
  intro value hvalue
  simpa using List.all_eq_true.1 h value hvalue

/-- What is written from a text whose draft is the input with the make is loaded again. -/
theorem commentedXml_import (hne : written ≠ source) (hlast : written.getLast? = some 0x0A)
    (himport : (readDefinitionHeader (commentedXml source written (commentedSource kids)).parse source >>=
      buildDefinitionHeaderInput) = .ok makeInput) :
    ∀ draft input,
      readDefinitionHeader (commentedXml source written (commentedSource kids)).parse source = .ok draft →
      buildDefinitionHeaderInput draft = .ok input →
      Survives (commentedXml source written (commentedSource kids))
        (rewriteDocument (normalizeHeaderInput input) (withoutBlank (commentedSource kids))) := by
  intro draft input hdraft hbuild
  rw [hdraft, ok_bind, hbuild, Except.ok.injEq] at himport
  rw [himport, makeInput_normal]
  exact commentedXml_survives hne hlast

theorem commentedXml_parse (source written : Bytes) (kids : List XmlNode) :
    (commentedXml source written (commentedSource kids)).parse source =
      .ok (withoutMarkup (commentedSource kids)) := by
  simp only [commentedXml, if_true]

end Sample

theorem import_keeps_iff_plain :
    ImportKeeps (commentedXml plainText stockWritten (commentedSource plainKids)) id plainText
      (makeDefinition "") := by
  have hparse : parseEcuflashDefinition id (commentedXml plainText stockWritten (commentedSource plainKids)).parse
      plainText "stock" = .ok (makeDefinition "") := by
    rw [parseEcuflashDefinition, commentedXml_parse]
    decide +kernel
  have himport : (readDefinitionHeader (commentedXml plainText stockWritten (commentedSource plainKids)).parse
      plainText >>= buildDefinitionHeaderInput) = .ok makeInput := by
    rw [readDefinitionHeader, commentedXml_parse]
    decide +kernel
  have hhides : ¬ Hides (headerOf (makeDefinition "")) [.element "romid" [] plainKids] := by
    rintro (⟨field, -, hhidden, -⟩ | ⟨field, -, hhidden, -⟩)
    · rw [show romIdChildren [.element "romid" [] plainKids] = plainKids from rfl,
        hidden_of_elements (by decide)] at hhidden
      cases hhidden
    · rw [hidden_of_elements (by decide)] at hhidden
      cases hhidden
  have hplain : ∀ text ∈ headerTexts (shownRom [] [.element "romid" [] plainKids]),
      ¬ hasUnrepresentableCharacter text := by
    have hall : (headerTexts (shownRom [] [.element "romid" [] plainKids])).all
        (!hasUnrepresentableCharacter ·) = true := by decide +kernel
    intro text htext
    simpa using List.all_eq_true.1 hall text htext
  exact (@import_keeps_iff _ id plainText "stock" [.comment "stock"] [] [.element "romid" [] plainKids] [] _
    (commentedXml_isSource (plainTexts_of_all (by decide +kernel))).hasRom hparse (by decide) (by decide)
    (by decide) hplain (commentedXml_import (by decide +kernel) (definitionText_getLast? ..) himport)).2
    ⟨rfl, rfl, le_rfl, hhides⟩

/-- The same definition with a file size. -/
def sizedText : Bytes :=
  asciiBytes "<!--stock--><rom><romid><xmlid>A</xmlid><internalidstring>B</internalidstring>" ++
    (asciiBytes "<ecuid>C</ecuid><make>Subaru</make><filesize>512kb</filesize></romid></rom>")

def sizedKids : List XmlNode := plainKids ++ [.element "filesize" [] [.text "512kb"]]

/-- What is written from it: the file size is empty. -/
def sizedWritten : Bytes :=
  asciiBytes "<?xml version=\"1.0\" encoding=\"UTF-8\"?>\n<!--stock-->\n<rom>\n  <romid>\n" ++
    (asciiBytes "    <xmlid>A</xmlid>\n    <internalidstring>B</internalidstring>\n" ++
    (asciiBytes "    <ecuid>C</ecuid>\n    <make>Subaru</make>\n    <filesize></filesize>\n" ++
    (asciiBytes "    <market></market>\n    <model></model>\n    <submodel></submodel>\n" ++
    (asciiBytes "    <transmission></transmission>\n    <year></year>\n    <flashmethod></flashmethod>\n" ++
    (asciiBytes "    <memmodel></memmodel>\n    <checksummodule></checksummodule>\n    <notes></notes>\n" ++
    (asciiBytes "  </romid>\n  <include></include>\n  <notes></notes>\n</rom>" ++ [0x0A]))))))

/-- The file size is lost. -/
theorem import_loses_fileSize :
    HasRom (commentedXml sizedText sizedWritten (commentedSource sizedKids)) sizedText [.comment "stock"]
      [.element "romid" [] sizedKids] [] [] ∧
    parseEcuflashDefinition id (commentedXml sizedText sizedWritten (commentedSource sizedKids)).parse sizedText
      "stock" = .ok (makeDefinition "512kb") ∧
    (childrenNamed (some (shownRom [] [.element "romid" [] sizedKids])) "include").length ≤ 1 ∧
    (∀ text ∈ headerTexts (shownRom [] [.element "romid" [] sizedKids]), ¬ hasUnrepresentableCharacter text) ∧
    (∀ draft input,
      readDefinitionHeader (commentedXml sizedText sizedWritten (commentedSource sizedKids)).parse sizedText =
        .ok draft → buildDefinitionHeaderInput draft = .ok input →
      Survives (commentedXml sizedText sizedWritten (commentedSource sizedKids))
        (rewriteDocument (normalizeHeaderInput input) (withoutBlank (commentedSource sizedKids)))) ∧
    ¬ ImportKeeps (commentedXml sizedText sizedWritten (commentedSource sizedKids)) id sizedText
      (makeDefinition "512kb") := by
  have hsource := @commentedXml_isSource sizedText sizedWritten sizedKids (plainTexts_of_all (by decide +kernel))
  have hparse : parseEcuflashDefinition id (commentedXml sizedText sizedWritten (commentedSource sizedKids)).parse
      sizedText "stock" = .ok (makeDefinition "512kb") := by
    rw [parseEcuflashDefinition, commentedXml_parse]
    decide +kernel
  have himport : (readDefinitionHeader (commentedXml sizedText sizedWritten (commentedSource sizedKids)).parse
      sizedText >>= buildDefinitionHeaderInput) = .ok makeInput := by
    rw [readDefinitionHeader, commentedXml_parse]
    decide +kernel
  have hplain : ∀ text ∈ headerTexts (shownRom [] [.element "romid" [] sizedKids]),
      ¬ hasUnrepresentableCharacter text := by
    have hall : (headerTexts (shownRom [] [.element "romid" [] sizedKids])).all
        (!hasUnrepresentableCharacter ·) = true := by decide +kernel
    intro text htext
    simpa using List.all_eq_true.1 hall text htext
  have hwritten := @commentedXml_import sizedText sizedWritten sizedKids (by decide +kernel) (by simp [sizedWritten])
    himport
  refine ⟨hsource.hasRom, hparse, by decide, hplain, hwritten, ?_⟩
  intro hkeeps
  obtain ⟨draft, notes, hsteps⟩ := @import_steps _ id sizedText "stock" [.comment "stock"] []
    [.element "romid" [] sizedKids] [] _ hsource.hasRom hparse (by decide) (by decide) (by decide) hplain hwritten
  obtain ⟨-, definition', rfl, -, hmetadata, -⟩ := hsteps.read_back hkeeps
  -- the draft has no file size
  have hsize : (if hidden (romIdChildren [.element "romid" [] sizedKids]) "filesize" then "" else "") = "512kb" :=
    congrArg (·.fileSize) hmetadata
  rw [ite_self] at hsize
  exact absurd hsize (by decide)

end FastEcu.Definition
