import FastEcu.Definition.WriterRoundTrip

/-!
# What is read from a written definition

A document that was written, saved and loaded has a `rom` whose header is the part of the input that no
instruction hides, whose scalings and maps are those of the source, and which has everything else that the
source had.

* `root_loaded`, `header_loaded` : the document that is loaded.
* `ReadsAs`, `readsAs_shown` : what is read from it.
* `Hides`, `shownInput_eq_iff_not_hides` : an instruction stands in the place of a field that has a text.
* `Keeps`, `keeps_rewriteDocument` : what a rewritten document keeps of its source.
-/

namespace FastEcu.Definition

open Memory Data
open XmlNode hiding text
open Calibration (Error)

/-! ### The document that is loaded -/

section Document

variable {input : DefinitionHeaderInput} {before after children full loaded : List XmlNode}
  {attributes : List (String × String)}

theorem named_map {f : XmlNode → XmlNode} (hf : ∀ node, (f node).name? = node.name?) (name : String)
    (nodes : List XmlNode) : named name (nodes.map f) = (named name nodes).map f := by
  have hcomp : (fun node : XmlNode => decide (node.Named name)) ∘ f =
      fun node => decide (node.Named name) := by
    funext node
    refine decide_eq_decide.2 ?_
    rw [Named, hf node]
    rfl
  rw [named, List.filter_map, hcomp]
  rfl

theorem elements_withoutMarkup (nodes : List XmlNode) :
    (withoutMarkup nodes).filter isElement = (nodes.filter isElement).map plain := by
  rw [withoutMarkup, filter_keepAll _ (keep_isElement _), keepAll_of_forall]
  intro node hnode
  have helement := (List.mem_filter.1 hnode).2
  cases node <;> first | rfl | cases helement

theorem elements_rewriteDocument (hbefore : ∀ node ∈ before, ¬ node.isElement) :
    (rewriteDocument input (before ++ .element "rom" attributes children :: after)).filter isElement =
      .element "rom" attributes (writeHeader input children) :: after.filter isElement := by
  have hnone : (before.filter (!isDeclaration ·)).filter isElement = [] :=
    List.filter_eq_nil_iff.2 fun node hnode => hbefore node (List.mem_filter.1 hnode).1
  have hafter : (after.filter (!isDeclaration ·)).filter isElement = after.filter isElement := by
    rw [List.filter_filter]
    refine List.filter_congr fun node _ => ?_
    cases node <;> rfl
  rw [rewriteDocument_split hbefore, List.filter_cons_of_neg Bool.false_ne_true, List.filter_append, hnone,
    List.nil_append, List.filter_cons_of_pos rfl, hafter]

/-- There is a `romid` among what is written. -/
theorem writeHeader_mixed (hone : (named "romid" children).length ≤ 1) :
    ∃ node ∈ writeHeader input children, ¬ node.isText := by
  have hlength := @length_romid_writeHeader input children hone
  obtain ⟨node, hnode⟩ := List.length_eq_one_iff.1 hlength
  obtain ⟨hmem, hname⟩ := mem_named.1 (hnode ▸ List.mem_singleton_self node)
  exact ⟨node, hmem, not_isText_of_named hname⟩

/-- **The root of a document that was written and loaded.** -/
theorem root_loaded (hbefore : ∀ node ∈ before, ¬ node.isElement)
    (hone : (named "romid" children).length ≤ 1) (hafter : after.filter isElement = [])
    (h : settleAll full = settleAll
      (rewriteDocument input (before ++ .element "rom" attributes children :: after))) :
    ∃ loaded, (withoutMarkup full).filter isElement = [shownRom attributes loaded] ∧
      settleAll loaded = settleAll (writeHeader input children) := by
  have helements := elements_settleAll full
  rw [h, elements_settleAll, elements_rewriteDocument hbefore, hafter, List.map_singleton] at helements
  obtain ⟨node, hnode, hsettle⟩ := List.map_eq_singleton_iff.1 helements.symm
  have helement : node.isElement := by
    rw [← settle_isElement, hsettle]
    rfl
  cases node with
  | element name' attributes' loaded =>
    obtain ⟨rfl, rfl, hloaded⟩ := settleAll_of_settle (writeHeader_mixed hone) hsettle
    refine ⟨loaded, ?_, hloaded⟩
    rw [elements_withoutMarkup, hnode]
    rfl
  | _ => cases helement

/-- A document with more elements beside the root still has them. -/
theorem roots_loaded (hbefore : ∀ node ∈ before, ¬ node.isElement) (hafter : after.filter isElement ≠ [])
    (h : settleAll full = settleAll
      (rewriteDocument input (before ++ .element "rom" attributes children :: after))) :
    1 < ((withoutMarkup full).filter isElement).length := by
  have helements := congrArg List.length (elements_settleAll full)
  rw [h, elements_settleAll, elements_rewriteDocument hbefore] at helements
  have hpos : 0 < (after.filter isElement).length := List.length_pos_iff.2 hafter
  rw [elements_withoutMarkup, List.length_map]
  simp only [List.length_map, List.length_cons] at helements
  omega

theorem parseRoot_of_elements {xml : Except String (List XmlNode)} {nodes : List XmlNode}
    (hxml : xml = .ok nodes) {root : XmlNode} (h : nodes.filter isElement = [root]) (hname : root.Named "rom")
    (source : String) : parseRoot xml source "rom" = .ok root := by
  subst hxml
  simp only [parseRoot, h, if_pos hname]

theorem parseRoot_of_length {xml : Except String (List XmlNode)} {nodes : List XmlNode}
    (hxml : xml = .ok nodes) (h : 1 < (nodes.filter isElement).length) (source : String) :
    ∃ e, parseRoot xml source "rom" = .error e := by
  subst hxml
  simp only [parseRoot]
  split
  · rename_i root hroot
    rw [hroot] at h
    exact absurd h (Nat.lt_irrefl 1)
  · exact ⟨_, rfl⟩

end Document

/-! ### The header that is loaded -/

section Header

variable {input : DefinitionHeaderInput} {children kids loaded : List XmlNode}
  {attributes romIdAttributes : List (String × String)}

/-- The children of the `romid`, if there is one. -/
def romIdChildren (children : List XmlNode) : List XmlNode :=
  (firstNamed children "romid").elim [] XmlNode.children

/-- The `romid` that is written into is an element, or a new one. -/
theorem named_withRomId (hone : (named "romid" children).length ≤ 1)
    (helement : ∀ node ∈ named "romid" children, node.isElement) :
    ∃ romIdAttributes, named "romid" (withRomId children) =
      [.element "romid" romIdAttributes (romIdChildren children)] := by
  unfold withRomId romIdChildren
  rw [firstNamed_eq_head?]
  cases hnamed : named "romid" children with
  | nil =>
    refine ⟨[], ?_⟩
    rw [List.head?_nil, if_neg (by decide), named_cons_of_named (named_element _ _ _), hnamed]
    rfl
  | cons node rest =>
    rw [hnamed, List.length_cons] at hone
    obtain rfl : rest = [] := List.eq_nil_of_length_eq_zero (by omega)
    have hmem : node ∈ named "romid" children := hnamed ▸ List.mem_singleton_self node
    obtain ⟨romIdAttributes, kids, rfl⟩ :=
      eq_element_of_isElement (helement node hmem) (mem_named.1 hmem).2
    exact ⟨romIdAttributes, by rw [List.head?_cons, if_pos Option.isSome_some, hnamed]; rfl⟩

theorem romid_writeHeader (hone : (named "romid" children).length ≤ 1) :
    named "romid" (writeHeader input children) =
      (named "romid" (withRomId children)).map (writeRomId input) := by
  rw [writeHeader_eq hone, named_writeFields_of_not_mem (romid_not_mem_romFields input),
    named_map (writeRomId_name? input)]

/-- An identity that is written has more than texts. -/
theorem writeFields_mixed (kids : List XmlNode) :
    ∃ node ∈ writeFields (identityFields input) kids, ¬ node.isText := by
  have hfield : ("xmlid", some input.xmlId) ∈ identityFields input := List.mem_cons_self ..
  have hnamed := named_writeFields (nodup_identityFields input) hfield kids
  have hlength := length_fieldNodes ("xmlid", some input.xmlId) (named "xmlid" kids)
  rw [← hnamed] at hlength
  obtain ⟨node, hnode⟩ := List.length_eq_one_iff.1 hlength
  obtain ⟨hmem, hname⟩ := mem_named.1 (hnode ▸ List.mem_singleton_self node)
  exact ⟨node, hmem, not_isText_of_named hname⟩

/-- **The header of a document that was written and loaded.** -/
theorem header_loaded (hone : (named "romid" children).length ≤ 1)
    (helement : ∀ node ∈ named "romid" children, node.isElement)
    (h : settleAll loaded = settleAll (writeHeader input children)) :
    ∃ loadedKids romIdAttributes,
      Loaded input children (romIdChildren children) loaded loadedKids romIdAttributes := by
  obtain ⟨romIdAttributes, hnamed⟩ := named_withRomId hone helement
  have hwritten := @romid_writeHeader input children hone
  have hromid : writeRomId input (.element "romid" romIdAttributes (romIdChildren children)) =
      .element "romid" romIdAttributes (writeFields (identityFields input) (romIdChildren children)) :=
    if_pos (named_element _ _ _)
  rw [hnamed, List.map_singleton, hromid] at hwritten
  obtain ⟨loadedKids, hkids, hsettle⟩ := named_withoutMarkup_of_element h hwritten
  obtain ⟨-, -, hsettled⟩ := settleAll_of_settle (writeFields_mixed _) hsettle
  exact ⟨loadedKids, romIdAttributes, by rw [h, writeHeader_eq hone], hkids, hsettled⟩

/-- A header without a `romid` is not read. -/
theorem parseRomHeader_missing {rom : XmlNode} (h : named "romid" rom.children = []) (source : String) :
    ∃ e, parseRomHeader rom source = .error e := by
  have hidentity : ∃ e, identityElement rom source = .error e := by
    rw [identityElement]
    cases hvalid : validateHeaderStructure rom source with
    | error e => exact ⟨e, rfl⟩
    | ok _ =>
      rw [ok_bind, childrenNamed_some, h]
      exact ⟨_, rfl⟩
  obtain ⟨e, he⟩ := hidentity
  rw [parseRomHeader, definitionIdForRom, he]
  exact ⟨e, rfl⟩

/-- An instruction in the place of the `romid` leaves none. -/
theorem romid_missing (hone : (named "romid" children).length ≤ 1) {node : XmlNode}
    (hnode : node ∈ named "romid" children) (helement : ¬ node.isElement)
    (h : settleAll loaded = settleAll (writeHeader input children)) :
    named "romid" (withoutMarkup loaded) = [] := by
  have hsingle : named "romid" children = [node] := by
    cases hnamed : named "romid" children with
    | nil =>
      rw [hnamed] at hnode
      cases hnode
    | cons first rest =>
      rw [hnamed, List.length_cons] at hone
      obtain rfl : rest = [] := List.eq_nil_of_length_eq_zero (by omega)
      rw [hnamed, List.mem_singleton] at hnode
      rw [hnode]
  have hwith : withRomId children = children := by
    rw [withRomId, firstNamed_eq_head?, hsingle]
    exact if_pos rfl
  have hwritten := @romid_writeHeader input children hone
  have hsame : writeRomId input node = node := by
    unfold writeRomId
    split_ifs
    · exact mapChildren_of_not_isElement helement _
    · rfl
  rw [hwith, hsingle, List.map_singleton, hsame] at hwritten
  exact named_withoutMarkup_of_markup h hwritten helement

end Header

/-! ### What is read -/

/-- The definition that an input says, with some maps and scalings. -/
def definitionOfInput (input : DefinitionHeaderInput) (source : String)
    (body : List UnresolvedCalibrationMap × List UnresolvedScaling) : UnresolvedDefinition where
  format := .ecuFlash
  source := source
  identity :=
    { xmlId := input.xmlId
      internalId := input.internalId
      ecuId := input.ecuId
      internalIdAddress := input.internalIdAddress }
  metadata := input.metadata
  parents := if input.includeId = "" then [] else [input.includeId]
  maps := body.1
  scalings := body.2

/-- The parser reads the input, the maps and the scalings from the bytes; the notes of the `rom`, which are no
part of a definition, are those of its draft. -/
structure ReadsAs (xml : DefinitionXml) (fineIncrementFrom : String → String) (bytes : Bytes)
    (input : DefinitionHeaderInput) (body : List UnresolvedCalibrationMap × List UnresolvedScaling) : Prop where
  definition : ∀ source, parseEcuflashDefinition fineIncrementFrom xml.parse bytes source =
    .ok (definitionOfInput input source body)
  notes : ∃ draft, readDefinitionHeader xml.parse bytes = .ok draft ∧ draft.notes = input.notes

section Reading

variable {xml : DefinitionXml} {fineIncrementFrom : String → String} {input : DefinitionHeaderInput}
  {children kids loaded loadedKids : List XmlNode} {attributes romIdAttributes : List (String × String)}
  {body : List UnresolvedCalibrationMap × List UnresolvedScaling}

/-- The two parts of a definition. -/
theorem parseEcuflashDefinition_eq {bytes : Bytes} {rom : XmlNode} {source : String} {identity : RomIdentity}
    (hroot : parseRoot (xml.parse bytes) source "rom" = .ok rom)
    (hheader : parseRomHeader rom source = .ok identity) :
    parseEcuflashDefinition fineIncrementFrom xml.parse bytes source =
      parseBody fineIncrementFrom source identity.xmlId rom >>= fun body =>
        .ok { format := .ecuFlash, source, identity, metadata := parseMetadata (child (some rom) "romid"),
              parents := EcuFlash.parentReferences rom, maps := body.1, scalings := body.2 } := by
  rw [parseEcuflashDefinition, hroot, ok_bind, hheader, ok_bind, parseBody]
  cases EcuFlash.parseScalings fineIncrementFrom source identity.xmlId (childrenNamed (some rom) "scaling") []
    with
  | error e => rfl
  | ok scalings => rfl

/-- The nodes that the header does not name are loaded as they were. -/
theorem named_loaded (hone : (named "romid" children).length ≤ 1)
    (h : settleAll loaded = settleAll (writeHeader input (withoutBlank children))) {name : String}
    (hromid : name ≠ "romid") (hname : name ∉ (romFields input).map Prod.fst) :
    (named name (withoutMarkup loaded)).map trimmed = (named name (withoutMarkup children)).map trimmed := by
  have hviews : ∀ nodes : List XmlNode, (named name (withoutMarkup nodes)).map trimmed =
      (((named name nodes).map trimmed).filter (!·.isMarkup)).map plain := by
    intro nodes
    rw [withoutMarkup_named, List.map_map, List.filter_map, List.map_map]
    have hmarkup : (fun node : XmlNode => !node.isMarkup) ∘ trimmed = fun node => !node.isMarkup := by
      funext node
      exact congrArg (!·) (keep_isMarkup _ node)
    rw [hmarkup]
    exact List.map_congr_left fun node _ => trimmed_plain node
  have hone' : (named "romid" (withoutBlank children)).length ≤ 1 := by
    rw [withoutBlank_named, List.length_map]
    exact hone
  have hsettle := congrArg (List.map trimmed) (map_settle_named h name)
  rw [List.map_map, List.map_map] at hsettle
  have hcomp : (trimmed ∘ settle : XmlNode → XmlNode) = trimmed := funext trimmed_settle
  rw [hcomp, writeHeader_eq hone', named_writeFields_of_not_mem hname, named_map_writeRomId name hromid,
    withoutBlank_named, List.map_map] at hsettle
  have htwice : (trimmed ∘ trimmed : XmlNode → XmlNode) = trimmed := funext trimmed_trimmed
  rw [htwice] at hsettle
  rw [hviews, hviews, hsettle]

/-- The maps and scalings of a rewritten document are those of its source. -/
theorem parseBody_loaded (hone : (named "romid" children).length ≤ 1)
    (h : settleAll loaded = settleAll (writeHeader input (withoutBlank children))) (s i s' i' : String) :
    Agree (parseBody fineIncrementFrom s i (shownRom attributes loaded))
      (parseBody fineIncrementFrom s' i' (shownRom attributes children)) := by
  refine parseBody_agree s i s' i' ?_ ?_
  · exact named_loaded hone h (by decide) (by show _ ∉ ["include", "notes"]; decide)
  · exact named_loaded hone h (by decide) (by show _ ∉ ["include", "notes"]; decide)

/-- The draft of a document is that of its `rom`. -/
theorem readDefinitionHeader_of_root {bytes : Bytes} {nodes : List XmlNode} (hparse : xml.parse bytes = .ok nodes)
    (hroot : nodes.filter isElement = [shownRom attributes loaded])
    (hvalid : validateHeaderStructure (shownRom attributes loaded) "authoring header" = .ok ()) :
    readDefinitionHeader xml.parse bytes = .ok (draftOf (shownRom attributes loaded)) := by
  have hdocument : parseDocumentRoot (xml.parse bytes) "authoring header" =
      .ok (shownRom attributes loaded) := by
    rw [hparse, parseDocumentRoot]
    simp only [hroot]
  have hrom : headerRom (shownRom attributes loaded) = some (shownRom attributes loaded) :=
    if_pos (named_element _ _ _)
  rw [readDefinitionHeader, hdocument, ok_bind]
  simp only [hrom, hvalid, ok_bind]
  rfl

/-- **A header that was written is read as the part of the input that nothing hides.** -/
theorem readsAs_shown {bytes : Bytes} {nodes : List XmlNode} (hparse : xml.parse bytes = .ok nodes)
    (hroot : nodes.filter isElement = [shownRom attributes loaded])
    (h : Loaded input children kids loaded loadedKids romIdAttributes)
    (hnormal : normalizeHeaderInput input = input) (hxmlId : input.xmlId ≠ "")
    (hshown : hidden kids "xmlid" = false)
    (hbody : ∀ s i, parseBody fineIncrementFrom s i (shownRom attributes loaded) = .ok body) :
    ReadsAs xml fineIncrementFrom bytes (shownInput input (hidden kids) (hidden children)) body where
  definition := by
    intro source
    have hheader := @Loaded.parseRomHeader_written input children kids loaded loadedKids attributes
      romIdAttributes h hnormal hshown hxmlId source
    rw [parseEcuflashDefinition_eq (parseRoot_of_elements hparse hroot (named_element _ _ _) source) hheader,
      hbody, ok_bind, h.child_romid, parseMetadata_written hnormal h.kids (hidden children),
      h.parentReferences_written hnormal]
    rfl
  notes := by
    refine ⟨draftOf (shownRom attributes loaded), ?_, h.notes_written⟩
    exact readDefinitionHeader_of_root hparse hroot (@Loaded.validateHeaderStructure_ok input children kids
      loaded loadedKids attributes romIdAttributes h "authoring header")

end Reading


/-! ### What is hidden -/

/-- An instruction stands in the place of a field that has a text. -/
def Hides (input : DefinitionHeaderInput) (children : List XmlNode) : Prop :=
  (∃ field ∈ identityFields input, hidden (romIdChildren children) field.1 ∧ field.2.getD "" ≠ "") ∨
    ∃ field ∈ romFields input, hidden children field.1 ∧ field.2.getD "" ≠ ""

theorem ite_empty_eq_iff (c : Bool) (value : String) :
    (if c then "" else value) = value ↔ (c = true → value = "") := by
  cases c with
  | false => simp
  | true => simp [eq_comm]

theorem hexText_ne_empty (n : ℕ) : hexText n ≠ "" := by
  intro h
  have := congrArg String.toList h
  rw [hexText, String.toList_ofList] at this
  cases this

/-- What is read is the input when only empty fields are hidden. -/
theorem shownInput_eq_iff {input : DefinitionHeaderInput} {hiddenIdentity hiddenRom : String → Bool} :
    shownInput input hiddenIdentity hiddenRom = input ↔
      (∀ field ∈ identityFields input, hiddenIdentity field.1 → field.2.getD "" = "") ∧
        ∀ field ∈ romFields input, hiddenRom field.1 → field.2.getD "" = "" := by
  have haddress : (if hiddenIdentity "internalidaddress" then none else input.internalIdAddress) =
      input.internalIdAddress ↔ (hiddenIdentity "internalidaddress" →
        ((input.internalIdAddress.map fun address => hexText address.value).getD "" = "")) := by
    cases hiddenIdentity "internalidaddress" with
    | false => simp
    | true =>
      cases input.internalIdAddress with
      | none => simp
      | some address => simp [hexText_ne_empty]
  obtain ⟨xmlId, internalId, ecuId, address, ⟨make, market, model, submodel, transmission, year, flashMethod,
    memoryModel, checksumModule, fileSize, identityNotes⟩, includeId, notes⟩ := input
  simp only [shownInput, DefinitionHeaderInput.mk.injEq, RomMetadata.mk.injEq, ite_empty_eq_iff,
    identityFields, romFields, kEditableMetadataFields, List.map_cons, List.map_nil, List.cons_append,
    List.nil_append, List.forall_mem_cons, Option.getD_some] at haddress ⊢
  rw [haddress]
  constructor
  · rintro ⟨hxml, hinternal, hecu, haddress, ⟨hmake, hmarket, hmodel, hsubmodel, htransmission, hyear, hflash,
      hmemory, hchecksum, hsize, hidentity⟩, hinclude, hnotes⟩
    exact ⟨⟨hxml, haddress, hinternal, hecu, hmake, hmarket, hmodel, hsubmodel, htransmission, hyear, hflash,
      hmemory, hchecksum, hsize, hidentity, List.forall_mem_nil _⟩, hinclude, hnotes, List.forall_mem_nil _⟩
  · rintro ⟨⟨hxml, haddress, hinternal, hecu, hmake, hmarket, hmodel, hsubmodel, htransmission, hyear, hflash,
      hmemory, hchecksum, hsize, hidentity, -⟩, hinclude, hnotes, -⟩
    exact ⟨hxml, hinternal, hecu, haddress, ⟨hmake, hmarket, hmodel, hsubmodel, htransmission, hyear, hflash,
      hmemory, hchecksum, hsize, hidentity⟩, hinclude, hnotes⟩

theorem hidden_withoutBlank (nodes : List XmlNode) (name : String) :
    hidden (withoutBlank nodes) name = hidden nodes name := by
  rw [hidden, hidden, withoutBlank_named, List.head?_map, Option.map_map]
  congr 2
  funext node
  exact congrArg (!·) (keep_isElement _ node)

theorem romIdChildren_withoutBlank (children : List XmlNode) :
    romIdChildren (withoutBlank children) = withoutBlank (romIdChildren children) := by
  unfold romIdChildren
  rw [firstNamed_eq_head?, firstNamed_eq_head?, withoutBlank_named, List.head?_map]
  cases (named "romid" children).head? with
  | none => rfl
  | some node => exact keep_children _ node

/-- White space hides nothing. -/
theorem shownInput_withoutBlank (input : DefinitionHeaderInput) (children : List XmlNode) :
    shownInput input (hidden (romIdChildren (withoutBlank children))) (hidden (withoutBlank children)) =
      shownInput input (hidden (romIdChildren children)) (hidden children) := by
  have hrom : hidden (withoutBlank children) = hidden children := funext (hidden_withoutBlank children)
  have hidentity : hidden (romIdChildren (withoutBlank children)) = hidden (romIdChildren children) := by
    rw [romIdChildren_withoutBlank]
    exact funext (hidden_withoutBlank _)
  rw [hrom, hidentity]

theorem shownInput_eq_iff_not_hides {input : DefinitionHeaderInput} {children : List XmlNode} :
    shownInput input (hidden (romIdChildren children)) (hidden children) = input ↔ ¬ Hides input children := by
  rw [shownInput_eq_iff, Hides, not_or]
  simp only [not_exists, not_and, not_not]

/-- Elements hide nothing. -/
theorem hidden_of_elements {nodes : List XmlNode} (h : nodes.all isElement) (name : String) :
    hidden nodes name = false := by
  rw [hidden]
  cases hnamed : named name nodes with
  | nil => rfl
  | cons node rest =>
    have hmem : node ∈ nodes := (mem_named.1 (hnamed ▸ List.mem_cons_self ..)).1
    exact congrArg (!·) (List.all_eq_true.1 h node hmem)

/-! ### What is kept -/

/-- The nodes that have none of the names. -/
def others (names : List String) (nodes : List XmlNode) : List XmlNode :=
  nodes.filter fun node => ∀ name ∈ names, ¬ node.Named name

/-- The document has the same nodes apart from the declarations and the header: those outside the `rom`, those
in it and those in its `romid`, in their order, and the attributes of the two. -/
def Keeps (document document' : List XmlNode) : Prop :=
  ∃ before attributes children children' after,
    document = before ++ .element "rom" attributes children :: after ∧
    document' = .declaration [("version", "1.0"), ("encoding", "UTF-8")] ::
      (before.filter (!isDeclaration ·) ++ .element "rom" attributes children' ::
        after.filter (!isDeclaration ·)) ∧
    others ["romid", "include", "notes"] children' = others ["romid", "include", "notes"] children ∧
    ∀ romIdAttributes kids, .element "romid" romIdAttributes kids ∈ children →
      ∃ kids', named "romid" children' = [.element "romid" romIdAttributes kids'] ∧
        others kSingletonChildren kids' = others kSingletonChildren kids

section Kept

variable {input : DefinitionHeaderInput} {before after children : List XmlNode}
  {attributes : List (String × String)}

/-- Nodes without white space that are written and loaded again. -/
theorem others_map_trimmed {names : List String} {nodes nodes' : List XmlNode} (h : Trimmed nodes)
    (hsame : others names nodes' = others names nodes) :
    others names (nodes'.map trimmed) = others names nodes := by
  have hcomp : (fun node : XmlNode => decide (∀ name ∈ names, ¬ node.Named name)) ∘ trimmed =
      fun node => decide (∀ name ∈ names, ¬ node.Named name) := by
    funext node
    refine decide_eq_decide.2 ?_
    simp only [keep_named]
  rw [others, List.filter_map, hcomp]
  show (others names nodes').map trimmed = _
  rw [hsame]
  exact (List.map_congr_left fun node hnode => h.trimmed_eq (List.mem_filter.1 hnode).1).trans (List.map_id _)

theorem others_writeFields {fields : List (String × Option String)} {names : List String}
    (h : ∀ field ∈ fields, field.1 ∈ names) (nodes : List XmlNode) :
    others names (writeFields fields nodes) = others names nodes := by
  refine filter_writeFields (fun field hfield node hnode hall => ?_) nodes
  have hnone : ∀ name ∈ names, ¬ node.Named name := of_decide_eq_true hall
  exact hnone field.1 (h field hfield) hnode

/-- **What is not written stays.** -/
theorem keeps_rewriteDocument (hbefore : ∀ node ∈ before, ¬ node.isElement)
    (h : Trimmed (before ++ .element "rom" attributes children :: after))
    (hone : (named "romid" children).length ≤ 1) :
    Keeps (before ++ .element "rom" attributes children :: after)
      (withoutBlank (rewriteDocument input (before ++ .element "rom" attributes children :: after))) := by
  have hroot := h.append_right.trimmed_eq (List.mem_cons_self ..)
  have hchildren : Trimmed children := by
    injection hroot
  refine ⟨before, attributes, children, _, after, rfl, withoutBlank_rewriteDocument hbefore h, ?_, ?_⟩
  · rw [withoutBlank_writeHeader hchildren hone]
    refine others_map_trimmed hchildren ?_
    rw [writeHeader_eq hone, others_writeFields (by simp [romFields])]
    refine filter_map_writeRomId fun node hnode hall => ?_
    have hnone : ∀ name ∈ ["romid", "include", "notes"], ¬ node.Named name := of_decide_eq_true hall
    exact hnone "romid" (List.mem_cons_self ..) hnode
  · intro romIdAttributes kids hmem
    have hnamed : named "romid" children = [.element "romid" romIdAttributes kids] := by
      have hmem' : .element "romid" romIdAttributes kids ∈ named "romid" children :=
        mem_named.2 ⟨hmem, named_element _ _ _⟩
      obtain ⟨node, hnode⟩ := List.length_eq_one_iff.1
        (Nat.le_antisymm hone (List.length_pos_of_mem hmem'))
      rw [hnode, List.mem_singleton] at hmem'
      rw [hnode, ← hmem']
    have hwith : withRomId children = children := by
      rw [withRomId, firstNamed_eq_head?, hnamed]
      exact if_pos rfl
    have hkids : Trimmed kids := by
      have hromid := hchildren.trimmed_eq hmem
      injection hromid
    refine ⟨withoutBlank (writeFields (identityFields input) kids), ?_, ?_⟩
    · rw [withoutBlank_named, romid_writeHeader hone, hwith, hnamed, List.map_singleton, writeRomId,
        if_pos (named_element _ _ _)]
      rfl
    · rw [withoutBlank_writeFields hkids]
      refine others_map_trimmed hkids (others_writeFields (fun field hfield => ?_) kids)
      rw [kSingletonChildren_eq input]
      exact List.mem_map_of_mem hfield

end Kept

end FastEcu.Definition
