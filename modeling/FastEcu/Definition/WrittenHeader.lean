import FastEcu.Definition.HeaderText
import FastEcu.Definition.TableReading

/-!
# What is read from a written header

A header that was written, saved and loaded has the fields that were written, except those whose place an
instruction of the same name has taken: the writer finds it first and cannot give it a text.

* `hidden` : an instruction stands in the place of a field.
* `FieldShown` : what the parser sees of a field.
* `shownInput` : what it reads of an input.
* `parseRomHeader_written`, `parseMetadata_written`, `parentReferences_written` : it does.
-/

namespace FastEcu.Definition

open Memory Data
open XmlNode hiding text
open Calibration (Error)

/-- The first node of the name is no element. -/
def hidden (nodes : List XmlNode) (name : String) : Bool :=
  ((named name nodes).head?.map fun node => !node.isElement).getD false

/-- What the parser sees of a field among some nodes: one element at most, which has no element in it and has
the text. -/
structure FieldShown (nodes : List XmlNode) (name value : String) : Prop where
  single : (named name nodes).length ≤ 1
  flat : ∀ node ∈ named name nodes, ¬ node.children.any isElement
  text : readElementText (named name nodes).head? = value

/-! ### Texts -/

/-- What a node adds to the text of its element. -/
def textPart : XmlNode → String
  | .text value | .cdata value => value
  | _ => ""

theorem readElementText_eq (element : Option XmlNode) :
    readElementText element = ((element.elim [] children).map textPart).foldl (· ++ ·) "" := by
  unfold readElementText
  rw [List.foldl_map]
  congr 1
  funext text node
  cases node <;> first | rfl | exact String.append_empty.symm

theorem foldl_append_filter (parts : List String) (text : String) :
    (parts.filter (· ≠ "")).foldl (· ++ ·) text = parts.foldl (· ++ ·) text := by
  induction parts generalizing text with
  | nil => rfl
  | cons part parts ih =>
    by_cases h : part = ""
    · rw [List.filter_cons_of_neg (by simpa using h), List.foldl_cons, h, String.append_empty, ih]
    · rw [List.filter_cons_of_pos (by simpa using h), List.foldl_cons, List.foldl_cons, ih]

/-- An element that holds texts has the text that they have. -/
theorem readElementText_texts {name : String} {attributes : List (String × String)} {children : List XmlNode}
    (hall : children.all isText) {value : String}
    (h : children.filter (!·.isEmptyText) = [XmlNode.text value].filter (!·.isEmptyText)) :
    readElementText (some (.element name attributes children)) = value := by
  have hpart : ∀ node : XmlNode, node.isText → (!node.isEmptyText) = decide (textPart node ≠ "") := by
    intro node hnode
    cases node with
    | text value => exact (decide_not ..).symm
    | _ => cases hnode
  have hfilter : ∀ nodes : List XmlNode, nodes.all isText →
      (nodes.map textPart).filter (· ≠ "") = (nodes.filter (!·.isEmptyText)).map textPart := by
    intro nodes hnodes
    rw [List.filter_map]
    congr 1
    refine List.filter_congr fun node hnode => ?_
    exact (hpart node (List.all_eq_true.1 hnodes node hnode)).symm
  rw [readElementText_eq, ← foldl_append_filter]
  show ((children.map textPart).filter _).foldl _ _ = value
  rw [hfilter children hall, h, ← hfilter [XmlNode.text value] rfl, foldl_append_filter]
  exact String.empty_append

/-! ### One field -/

section Field

variable {nodes loaded : List XmlNode} {name value : String}

/-- The nodes of a name in a document that was saved are those that are loaded. -/
theorem map_settle_named (h : settleAll loaded = settleAll nodes) (name : String) :
    (named name loaded).map settle = (named name nodes).map settle := by
  rw [← named_settleAll, h, named_settleAll]

theorem fieldShown_nil (h : named name nodes = []) : FieldShown nodes name "" where
  single := by simp [h]
  flat := by simp [h]
  text := by
    rw [h]
    rfl

theorem named_withoutMarkup_of_nil (h : settleAll loaded = settleAll nodes) (hnil : named name nodes = []) :
    named name (withoutMarkup loaded) = [] := by
  have hmap := map_settle_named h name
  rw [hnil, List.map_nil, List.map_eq_nil_iff] at hmap
  rw [withoutMarkup_named, hmap]
  rfl

theorem named_withoutMarkup_of_markup {node : XmlNode} (h : settleAll loaded = settleAll nodes)
    (hnode : named name nodes = [node]) (hmarkup : ¬ node.isElement) :
    named name (withoutMarkup loaded) = [] := by
  have hmap := map_settle_named h name
  rw [hnode, List.map_singleton, settle_of_not_isElement hmarkup, List.map_eq_singleton_iff] at hmap
  obtain ⟨node', hnode', hsettle⟩ := hmap
  have hname : node'.Named name := (mem_named.1 (hnode' ▸ List.mem_singleton_self node')).2
  have helement : node'.isElement = false := by
    rw [← settle_isElement, hsettle]
    exact Bool.eq_false_iff.2 hmarkup
  have hfilter : (!node'.isMarkup) = false := by rw [← isElement_iff_of_named hname, helement]
  rw [withoutMarkup_named, hnode', List.filter_cons_of_neg (by rw [hfilter]; decide)]
  rfl

/-- An element that is saved is loaded, with children that are the same but for indentation. -/
theorem named_withoutMarkup_of_element {name' : String} {attributes : List (String × String)}
    {children : List XmlNode} (h : settleAll loaded = settleAll nodes)
    (hnode : named name nodes = [.element name' attributes children]) :
    ∃ children', named name (withoutMarkup loaded) =
        [.element name' attributes (withoutMarkup children')] ∧
      settle (.element name' attributes children') = settle (.element name' attributes children) := by
  have hmap := map_settle_named h name
  rw [hnode, List.map_singleton, List.map_eq_singleton_iff] at hmap
  obtain ⟨node', hnode', hsettle⟩ := hmap
  have helement : node'.isElement := by
    rw [← settle_isElement, hsettle]
    rfl
  cases node' with
  | element name'' attributes' children' =>
    have hsame := hsettle
    rw [settle, settle] at hsame
    injection hsame with hname hattributes
    subst hname hattributes
    refine ⟨children', ?_, hsettle⟩
    rw [withoutMarkup_named, hnode']
    rfl
  | _ => cases helement

theorem fieldShown_text {attributes : List (String × String)} (h : settleAll loaded = settleAll nodes)
    (hnode : named name nodes = [.element name attributes [.text value]]) :
    FieldShown (withoutMarkup loaded) name value := by
  obtain ⟨children, hnamed, hsettle⟩ := named_withoutMarkup_of_element h hnode
  rw [settle, settle, if_pos (show ([XmlNode.text value]).all isText from rfl)] at hsettle
  injection hsettle with _ _ hchildren
  have hall : children.all isText := by
    by_contra hall
    rw [if_neg hall, settleAll_eq] at hchildren
    obtain ⟨node, hnode, htext⟩ : ∃ node ∈ children, ¬ node.isText := by
      simpa using hall
    have hmem : settle node ∈ (children.filter (!·.isBlank)).map settle :=
      List.mem_map_of_mem (List.mem_filter.2 ⟨hnode, by simpa using not_isBlank_of_not_isText htext⟩)
    rw [hchildren] at hmem
    have heq := List.mem_singleton.1 (List.mem_of_mem_filter hmem)
    rw [← settle_isText, heq] at htext
    exact htext rfl
  rw [if_pos hall] at hchildren
  have hmarkup : ∀ node ∈ children, (!node.isMarkup) = true := by
    intro node hnode
    have htext := List.all_eq_true.1 hall node hnode
    cases node <;> first | rfl | cases htext
  have hplain : withoutMarkup children = children := by
    rw [withoutMarkup, keepAll_of_forall _ hmarkup]
    refine (List.map_congr_left fun node hnode => ?_).trans (List.map_id children)
    refine keep_of_not_isElement _ ?_
    have htext := List.all_eq_true.1 hall node hnode
    cases node <;> first | exact Bool.false_ne_true | cases htext
  rw [hplain] at hnamed
  refine ⟨by rw [hnamed]; rfl, fun node hnode hany => ?_, ?_⟩
  · rw [hnamed, List.mem_singleton] at hnode
    subst hnode
    obtain ⟨child, hchild, helement⟩ := List.any_eq_true.1 hany
    have htext := List.all_eq_true.1 hall child hchild
    cases child with
    | text _ => cases helement
    | _ => cases htext
  · rw [hnamed]
    exact readElementText_texts hall hchildren

/-- The nodes of a field that is not hidden are one element with the text. -/
theorem fieldNodes_of_not_hidden (h : hidden nodes name = false) (value : String) :
    ∃ attributes, fieldNodes (name, some value) (named name nodes) =
      [.element name attributes [.text value]] := by
  cases hnamed : named name nodes with
  | nil => exact ⟨[], rfl⟩
  | cons node rest =>
    have hname : node.Named name := (mem_named.1 (hnamed ▸ List.mem_cons_self ..)).2
    have helement : node.isElement := by
      rw [hidden, hnamed] at h
      simpa using h
    obtain ⟨attributes, children, rfl⟩ := eq_element_of_isElement helement hname
    exact ⟨attributes, rfl⟩

theorem fieldNodes_of_hidden (h : hidden nodes name) (value : String) :
    ∃ node, fieldNodes (name, some value) (named name nodes) = [node] ∧ ¬ node.isElement := by
  cases hnamed : named name nodes with
  | nil =>
    rw [hidden, hnamed] at h
    cases h
  | cons node rest =>
    have helement : ¬ node.isElement := by
      rw [hidden, hnamed] at h
      simpa using h
    refine ⟨node, ?_, helement⟩
    show [withText value node] = [node]
    rw [withText, mapChildren_of_not_isElement helement]

/-- **The parser sees what was written into a field that is not hidden, and nothing of the others.** -/
theorem fieldShown_writeFields {fields : List (String × Option String)} {field : String × Option String}
    (hnodup : (fields.map Prod.fst).Nodup) (hfield : field ∈ fields)
    (h : settleAll loaded = settleAll (writeFields fields nodes)) :
    FieldShown (withoutMarkup loaded) field.1
      (if hidden nodes field.1 then "" else field.2.getD "") := by
  have hnamed := named_writeFields hnodup hfield nodes
  obtain ⟨name, _ | value⟩ := field
  · have hempty : (if hidden nodes name then "" else (none : Option String).getD "") = "" := ite_self _
    rw [hempty]
    exact fieldShown_nil (named_withoutMarkup_of_nil h hnamed)
  · by_cases hhidden : hidden nodes name
    · obtain ⟨node, hnodes, helement⟩ := fieldNodes_of_hidden hhidden value
      rw [if_pos hhidden]
      exact fieldShown_nil (named_withoutMarkup_of_markup h (hnamed.trans hnodes) helement)
    · obtain ⟨attributes, hnodes⟩ := fieldNodes_of_not_hidden (Bool.eq_false_iff.2 hhidden) value
      rw [if_neg hhidden]
      exact fieldShown_text h (hnamed.trans hnodes)

/-- A trimmed text of a field is read as it is. -/
theorem headerChildText_shown {parent : String} {attributes : List (String × String)}
    (h : FieldShown nodes name value) (htrim : name ≠ "notes" → trimHeaderText value = value) :
    headerChildText (some (.element parent attributes nodes)) name = value := by
  unfold headerChildText
  rw [child_some]
  show (if name = "notes" then readElementText (named name nodes).head?
    else trimHeaderText (readElementText (named name nodes).head?)) = value
  rw [h.text]
  by_cases hnotes : name = "notes"
  · rw [if_pos hnotes]
  · rw [if_neg hnotes, htrim hnotes]

end Field

/-! ### The header -/

/-- What is read of an input, where instructions of these names hide fields of the `romid` and of the `rom`. -/
def shownInput (input : DefinitionHeaderInput) (hiddenIdentity hiddenRom : String → Bool) :
    DefinitionHeaderInput :=
  let identity (name value : String) := if hiddenIdentity name then "" else value
  let rom (name value : String) := if hiddenRom name then "" else value
  { xmlId := identity "xmlid" input.xmlId
    internalId := identity "internalidstring" input.internalId
    ecuId := identity "ecuid" input.ecuId
    internalIdAddress := if hiddenIdentity "internalidaddress" then none else input.internalIdAddress
    metadata :=
      { make := identity "make" input.metadata.make
        market := identity "market" input.metadata.market
        model := identity "model" input.metadata.model
        submodel := identity "submodel" input.metadata.submodel
        transmission := identity "transmission" input.metadata.transmission
        year := identity "year" input.metadata.year
        flashMethod := identity "flashmethod" input.metadata.flashMethod
        memoryModel := identity "memmodel" input.metadata.memoryModel
        checksumModule := identity "checksummodule" input.metadata.checksumModule
        fileSize := identity "filesize" input.metadata.fileSize
        notes := identity "notes" input.metadata.notes }
    includeId := rom "include" input.includeId
    notes := rom "notes" input.notes }

section Written

-- the children of the `rom` and of the `romid` before they are written, and as they are loaded afterwards
variable {input : DefinitionHeaderInput} {children kids loaded loadedKids : List XmlNode}
  {attributes romIdAttributes : List (String × String)}

/-- The `romid` as the parser sees it. -/
abbrev shownRomId (romIdAttributes : List (String × String)) (loadedKids : List XmlNode) : XmlNode :=
  .element "romid" romIdAttributes (withoutMarkup loadedKids)

/-- The `rom` as the parser sees it. -/
abbrev shownRom (attributes : List (String × String)) (loaded : List XmlNode) : XmlNode :=
  .element "rom" attributes (withoutMarkup loaded)

theorem ite_trimmed {value : String} (h : trimHeaderText value = value) (c : Bool) :
    trimHeaderText (if c then "" else value) = if c then "" else value := by
  split_ifs
  · exact trimHeaderText_empty
  · exact h

theorem kSingletonChildren_eq (input : DefinitionHeaderInput) :
    kSingletonChildren = (identityFields input).map Prod.fst := rfl

theorem identity_text (hkids : settleAll loadedKids = settleAll (writeFields (identityFields input) kids))
    {name value : String} (hfield : (name, some value) ∈ identityFields input)
    (htrim : name ≠ "notes" → trimHeaderText value = value) :
    headerChildText (some (shownRomId romIdAttributes loadedKids)) name =
      if hidden kids name then "" else value := by
  have hshown := fieldShown_writeFields (nodup_identityFields input) hfield hkids
  exact headerChildText_shown hshown fun hnotes => ite_trimmed (htrim hnotes) _

/-- **The metadata are read as they were written.** -/
theorem parseMetadata_written (hnormal : normalizeHeaderInput input = input)
    (hkids : settleAll loadedKids = settleAll (writeFields (identityFields input) kids))
    (hiddenRom : String → Bool) :
    parseMetadata (some (shownRomId romIdAttributes loadedKids)) =
      (shownInput input (hidden kids) hiddenRom).metadata := by
  have hmetadata : normalizeMetadata input.metadata = input.metadata :=
    (congrArg DefinitionHeaderInput.metadata hnormal :)
  -- the fields by their places in the table
  have hfield : ∀ (i : ℕ) (name value : String),
      (kEditableMetadataFields.map (fun field => (field.1, some (field.2 input.metadata))) ++
        [("filesize", some input.metadata.fileSize), ("notes", some input.metadata.notes)])[i]? =
          some (name, some value) →
      (name ≠ "notes" → trimHeaderText value = value) →
      headerChildText (some (shownRomId romIdAttributes loadedKids)) name =
        if hidden kids name then "" else value := by
    intro i name value hplace htrim
    refine identity_text hkids ?_ htrim
    rw [identityFields, List.append_assoc]
    exact List.mem_append_right _ (List.mem_of_getElem? hplace)
  unfold parseMetadata shownInput
  simp only [RomMetadata.mk.injEq]
  exact ⟨hfield 0 "make" input.metadata.make rfl fun _ => (congrArg RomMetadata.make hmetadata :),
    hfield 1 "market" input.metadata.market rfl fun _ => (congrArg RomMetadata.market hmetadata :),
    hfield 2 "model" input.metadata.model rfl fun _ => (congrArg RomMetadata.model hmetadata :),
    hfield 3 "submodel" input.metadata.submodel rfl fun _ => (congrArg RomMetadata.submodel hmetadata :),
    hfield 4 "transmission" input.metadata.transmission rfl fun _ =>
      (congrArg RomMetadata.transmission hmetadata :),
    hfield 5 "year" input.metadata.year rfl fun _ => (congrArg RomMetadata.year hmetadata :),
    hfield 6 "flashmethod" input.metadata.flashMethod rfl fun _ =>
      (congrArg RomMetadata.flashMethod hmetadata :),
    hfield 7 "memmodel" input.metadata.memoryModel rfl fun _ =>
      (congrArg RomMetadata.memoryModel hmetadata :),
    hfield 8 "checksummodule" input.metadata.checksumModule rfl fun _ =>
      (congrArg RomMetadata.checksumModule hmetadata :),
    hfield 9 "filesize" input.metadata.fileSize rfl fun _ => (congrArg RomMetadata.fileSize hmetadata :),
    hfield 10 "notes" input.metadata.notes rfl fun h => absurd rfl h⟩

theorem ok_bind {α β : Type} (a : α) (f : α → Except Error β) : (Except.ok a >>= f) = f a := rfl

theorem validateFields_ok {parent : Option XmlNode} {names : List String}
    (h : ∀ name ∈ names, ∀ node ∈ childrenNamed parent name, ¬ node.children.any isElement)
    (source : String) : validateFields parent names source = .ok () := by
  have hnone : names.find? (fun name =>
      (childrenNamed parent name).any fun element => element.children.any (·.isElement)) = none := by
    refine List.find?_eq_none.2 fun name hname hany => ?_
    obtain ⟨node, hnode, hnested⟩ := List.any_eq_true.1 hany
    exact h name hname node hnode hnested
  rw [validateFields, hnone]

/-- The nodes beside the `romid` are not touched by the identity. -/
theorem filter_map_writeRomId {p : XmlNode → Bool} (hp : ∀ node : XmlNode, node.Named "romid" → ¬ p node) :
    ((withRomId children).map (writeRomId input)).filter p = children.filter p := by
  have hmap : ∀ nodes : List XmlNode, (nodes.map (writeRomId input)).filter p = nodes.filter p := by
    intro nodes
    induction nodes with
    | nil => rfl
    | cons node nodes ih =>
      rw [List.map_cons]
      by_cases hnode : node.Named "romid"
      · have hnode' : (writeRomId input node).Named "romid" := (writeRomId_name? input node).trans hnode
        rw [List.filter_cons_of_neg (hp _ hnode'), List.filter_cons_of_neg (hp _ hnode), ih]
      · rw [writeRomId, if_neg hnode, List.filter_cons, List.filter_cons, ih]
  rw [hmap, withRomId]
  split_ifs
  · rfl
  · exact List.filter_cons_of_neg (hp _ (named_element _ _ _))

theorem named_map_writeRomId (name : String) (hname : name ≠ "romid") :
    named name ((withRomId children).map (writeRomId input)) = named name children :=
  filter_map_writeRomId fun _ hnode hnamed =>
    not_named_of_ne (Ne.symm hname) hnode (of_decide_eq_true hnamed)

/-- The children of a `rom` that was written, as they are loaded. -/
structure Loaded (input : DefinitionHeaderInput) (children kids loaded loadedKids : List XmlNode)
    (romIdAttributes : List (String × String)) : Prop where
  rom : settleAll loaded = settleAll
    (writeFields (romFields input) ((withRomId children).map (writeRomId input)))
  romId : named "romid" (withoutMarkup loaded) = [shownRomId romIdAttributes loadedKids]
  kids : settleAll loadedKids = settleAll (writeFields (identityFields input) kids)

namespace Loaded

variable (h : Loaded input children kids loaded loadedKids romIdAttributes)

include h

theorem child_romid : child (some (shownRom attributes loaded)) "romid" =
    some (shownRomId romIdAttributes loadedKids) := by
  rw [child_some]
  show (named "romid" (withoutMarkup loaded)).head? = _
  rw [h.romId]
  rfl

omit h in
theorem hidden_map (name : String) (hname : name ≠ "romid") :
    hidden ((withRomId children).map (writeRomId input)) name = hidden children name := by
  rw [hidden, hidden, named_map_writeRomId name hname]

theorem rom_shown {name value : String} (hfield : (name, some value) ∈ romFields input)
    (hname : name ≠ "romid") :
    FieldShown (withoutMarkup loaded) name (if hidden children name then "" else value) := by
  have hshown := fieldShown_writeFields (nodup_romFields input) hfield h.rom
  rw [hidden_map name hname] at hshown
  exact hshown

theorem validateHeaderStructure_ok (source : String) :
    validateHeaderStructure (shownRom attributes loaded) source = .ok () := by
  have hidentity : validateFields (child (some (shownRom attributes loaded)) "romid") kSingletonChildren
      source = .ok () := by
    rw [h.child_romid]
    refine validateFields_ok (fun name hname => ?_) source
    rw [kSingletonChildren_eq input] at hname
    obtain ⟨field, hfield, rfl⟩ := List.mem_map.1 hname
    exact (fieldShown_writeFields (nodup_identityFields input) hfield h.kids).flat
  have hrom : validateFields (some (shownRom attributes loaded)) ["include", "notes"] source = .ok () := by
    refine validateFields_ok (fun name hname => ?_) source
    have hfield : ∃ value, (name, some value) ∈ romFields input := by
      rcases List.mem_cons.1 hname with rfl | hname
      · exact ⟨_, List.mem_cons_self ..⟩
      · obtain rfl := List.mem_singleton.1 hname
        exact ⟨_, List.mem_cons_of_mem _ (List.mem_cons_self ..)⟩
    obtain ⟨value, hfield⟩ := hfield
    have hname : name ≠ "romid" := by
      rintro rfl
      exact romid_not_mem_romFields input (List.mem_map_of_mem hfield)
    exact (h.rom_shown hfield hname).flat
  rw [validateHeaderStructure, hidentity]
  exact hrom

theorem identityElement_ok (source : String) :
    identityElement (shownRom attributes loaded) source = .ok (shownRomId romIdAttributes loadedKids) := by
  have hsingle : kSingletonChildren.find? (fun name =>
      1 < (childrenNamed (some (shownRomId romIdAttributes loadedKids)) name).length) = none := by
    refine List.find?_eq_none.2 fun name hname => ?_
    rw [kSingletonChildren_eq input] at hname
    obtain ⟨field, hfield, rfl⟩ := List.mem_map.1 hname
    have hle := (fieldShown_writeFields (nodup_identityFields input) hfield h.kids).single
    rw [decide_eq_true_eq, not_lt]
    exact hle
  have hromid : childrenNamed (some (shownRom attributes loaded)) "romid" =
      [shownRomId romIdAttributes loadedKids] := h.romId
  unfold identityElement
  simp only [h.validateHeaderStructure_ok, hromid, hsingle, bind, Except.bind]

theorem address_ok (source definitionId : String) :
    parseHeaderAddress (readElementText
        (child (some (shownRomId romIdAttributes loadedKids)) "internalidaddress")) source definitionId =
      .ok (if hidden kids "internalidaddress" then none else input.internalIdAddress) := by
  have hfield : ("internalidaddress", input.internalIdAddress.map fun address => hexText address.value) ∈
      identityFields input := by simp [identityFields]
  have hshown := fieldShown_writeFields (nodup_identityFields input) hfield h.kids
  have htext := hshown.text
  have hchild : child (some (shownRomId romIdAttributes loadedKids)) "internalidaddress" =
      (named "internalidaddress" (withoutMarkup loadedKids)).head? := child_some _ _
  have hblank : parseHeaderAddress "" source definitionId = .ok none := by
    rw [parseHeaderAddress, trimHeaderText_empty, if_pos rfl]
  rw [hchild, htext]
  by_cases hhidden : hidden kids "internalidaddress"
  · rw [if_pos hhidden, if_pos hhidden]
    exact hblank
  · rw [if_neg hhidden, if_neg hhidden]
    cases input.internalIdAddress with
    | none => exact hblank
    | some address => exact parseHeaderAddress_hexText address source definitionId

theorem definitionIdForRom_eq (source : String) : definitionIdForRom (shownRom attributes loaded) source =
    requiredChildText (shownRomId romIdAttributes loadedKids) "romid" "xmlid" source := by
  rw [definitionIdForRom, h.identityElement_ok, ok_bind]

/-- **The identity is read as it was written**, if its id is there. -/
theorem parseRomHeader_written (hnormal : normalizeHeaderInput input = input)
    (hshown : hidden kids "xmlid" = false) (hxmlId : input.xmlId ≠ "") (source : String) :
    parseRomHeader (shownRom attributes loaded) source = .ok {
      xmlId := (shownInput input (hidden kids) (hidden children)).xmlId
      internalId := (shownInput input (hidden kids) (hidden children)).internalId
      ecuId := (shownInput input (hidden kids) (hidden children)).ecuId
      internalIdAddress := (shownInput input (hidden kids) (hidden children)).internalIdAddress } := by
  have hxml := @identity_text input kids loadedKids romIdAttributes h.kids "xmlid" input.xmlId
    (by simp [identityFields]) fun _ => (congrArg DefinitionHeaderInput.xmlId hnormal :)
  have hinternal := @identity_text input kids loadedKids romIdAttributes h.kids "internalidstring"
    input.internalId (by simp [identityFields]) fun _ => (congrArg DefinitionHeaderInput.internalId hnormal :)
  have hecu := @identity_text input kids loadedKids romIdAttributes h.kids "ecuid" input.ecuId
    (by simp [identityFields]) fun _ => (congrArg DefinitionHeaderInput.ecuId hnormal :)
  rw [hshown, if_neg Bool.false_ne_true] at hxml
  rw [parseRomHeader, h.definitionIdForRom_eq, h.child_romid, requiredChildText, hxml]
  dsimp only
  rw [if_neg hxmlId, ok_bind, h.address_ok, ok_bind, hinternal, hecu]
  simp only [shownInput, hshown, if_neg Bool.false_ne_true]
  rfl

/-- A header whose id is hidden is not read. -/
theorem parseRomHeader_hidden (hnormal : normalizeHeaderInput input = input) (hhidden : hidden kids "xmlid")
    (source : String) : ∃ e, parseRomHeader (shownRom attributes loaded) source = .error e := by
  have hxml := @identity_text input kids loadedKids romIdAttributes h.kids "xmlid" input.xmlId
    (by simp [identityFields]) fun _ => (congrArg DefinitionHeaderInput.xmlId hnormal :)
  rw [if_pos hhidden] at hxml
  rw [parseRomHeader, h.definitionIdForRom_eq, requiredChildText, hxml]
  exact ⟨_, rfl⟩

/-- **The parent is read as it was written.** -/
theorem parentReferences_written (hnormal : normalizeHeaderInput input = input) :
    EcuFlash.parentReferences (shownRom attributes loaded) =
      if (shownInput input (hidden kids) (hidden children)).includeId = "" then []
      else [(shownInput input (hidden kids) (hidden children)).includeId] := by
  have hshown := h.rom_shown (List.mem_cons_self ..) (by decide : "include" ≠ "romid")
  have hvalue : (shownInput input (hidden kids) (hidden children)).includeId =
      if hidden children "include" then "" else input.includeId := rfl
  have htrim := ite_trimmed (congrArg DefinitionHeaderInput.includeId hnormal :) (hidden children "include")
  rw [hvalue]
  generalize (if hidden children "include" then "" else input.includeId) = value at hshown htrim
  have hnamed : childrenNamed (some (shownRom attributes loaded)) "include" =
      named "include" (withoutMarkup loaded) := rfl
  have htext := hshown.text
  have hsingle := hshown.single
  rw [EcuFlash.parentReferences, hnamed]
  generalize named "include" (withoutMarkup loaded) = nodes at htext hsingle
  match nodes, hsingle with
  | [], _ =>
    obtain rfl : "" = value := htext
    rfl
  | [node], _ =>
    replace htext : readElementText (some node) = value := htext
    rw [List.map_singleton, htext]
    show [trimHeaderText value].filter _ = _
    rw [htrim]
    by_cases hempty : value = ""
    · rw [if_pos hempty, List.filter_cons_of_neg (by simpa using hempty)]
      rfl
    · rw [if_neg hempty, List.filter_cons_of_pos (by simpa using hempty)]
      rfl

theorem notes_written : headerChildText (some (shownRom attributes loaded)) "notes" =
    (shownInput input (hidden kids) (hidden children)).notes := by
  have hshown := h.rom_shown (List.mem_cons_of_mem _ (List.mem_cons_self ..)) (by decide : "notes" ≠ "romid")
  exact headerChildText_shown hshown fun hnotes => absurd rfl hnotes

end Loaded

end Written

end FastEcu.Definition
