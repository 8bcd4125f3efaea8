import FastEcu.Definition.WrittenHeader

/-!
# What is written, and what pugixml makes of it

Of pugixml it is assumed that the flags of a loader only decide which nodes are kept, and that a document whose
texts have neither a NUL nor a carriage return is loaded as it was saved, but for the white space of the
indentation.

* `Reads`, `Survives` : what is assumed of pugixml.
* `Writable` : the inputs that `ValidateInput` accepts.
* `plain_rewriteDocument` : a document that is written from such an input has no other characters.
* `createEcuflashXml_eq_ok_iff`, `rewriteEcuflashXml_eq_ok_iff` : what the two operations return.
-/

namespace FastEcu.Definition

open Memory Data
open XmlNode hiding text
open Calibration (Error invalidConfig)

/-! ### pugixml -/

mutual

/-- The texts in a node: of texts, sections, comments, instructions and document types. -/
def texts : XmlNode → List String
  | .element _ _ children => textsAll children
  | .instruction _ value => [value]
  | .declaration _ => []
  | .text value => [value]
  | .cdata value => [value]
  | .comment value => [value]
  | .doctype value => [value]

/-- The texts in some nodes. -/
def textsAll : List XmlNode → List String
  | [] => []
  | node :: nodes => texts node ++ textsAll nodes

end

/-- No text has a NUL or a carriage return. -/
def PlainTexts (nodes : List XmlNode) : Prop := ∀ value ∈ textsAll nodes, ¬ hasUnrepresentableCharacter value

/-- The two loaders keep their part of one document: the writer drops white space, and the parsers drop
comments, instructions, declarations and document types. -/
def Reads (xml : DefinitionXml) (bytes : Bytes) (full : List XmlNode) : Prop :=
  xml.load bytes = .ok (withoutBlank full) ∧ xml.parse bytes = .ok (withoutMarkup full)

/-- A document that is saved is loaded again, but for indentation. -/
def Survives (xml : DefinitionXml) (document : List XmlNode) : Prop :=
  ∃ full, Reads xml (savedBytes xml document) full ∧ settleAll full = settleAll document

section Plain

theorem mem_textsAll {nodes : List XmlNode} {value : String} :
    value ∈ textsAll nodes ↔ ∃ node ∈ nodes, value ∈ texts node := by
  induction nodes with
  | nil => simp [textsAll]
  | cons node nodes ih => simp [textsAll, ih]

mutual

theorem texts_keep (p : XmlNode → Bool) (value : String) :
    ∀ node, value ∈ texts (keep p node) → value ∈ texts node
  | .element _ _ children, h => textsAll_keepAll p value children h
  | .instruction _ _, h => h
  | .declaration _, h => h
  | .text _, h => h
  | .cdata _, h => h
  | .comment _, h => h
  | .doctype _, h => h

theorem textsAll_keepAll (p : XmlNode → Bool) (value : String) :
    ∀ nodes, value ∈ textsAll (keepAll p nodes) → value ∈ textsAll nodes
  | [], h => h
  | node :: nodes, h => by
    rw [keepAll] at h
    rw [textsAll, List.mem_append]
    by_cases hp : p node
    · rw [if_pos hp, textsAll, List.mem_append] at h
      rcases h with h | h
      · exact .inl (texts_keep p value node h)
      · exact .inr (textsAll_keepAll p value nodes h)
    · rw [if_neg hp] at h
      exact .inr (textsAll_keepAll p value nodes h)

end

theorem texts_withText {value text : String} {node : XmlNode} (h : text ∈ texts (withText value node)) :
    text ∈ texts node ∨ text = value := by
  cases node with
  | element name attributes children => exact .inr (by simpa [withText, mapChildren, texts, textsAll] using h)
  | _ => exact .inl h

/-- A field adds its own text only. -/
theorem textsAll_setField {field : String × Option String} {nodes : List XmlNode} {text : String}
    (h : text ∈ textsAll (setField field nodes)) : text ∈ textsAll nodes ∨ field.2 = some text := by
  obtain ⟨name, _ | value⟩ := field
  · obtain ⟨node, hnode, htext⟩ := mem_textsAll.1 h
    exact .inl (mem_textsAll.2 ⟨node, (List.mem_filter.1 hnode).1, htext⟩)
  · replace h : text ∈ textsAll (setUniqueText name value nodes) := h
    induction nodes with
    | nil => exact .inr (by simpa [setUniqueText, textsAll, texts, eq_comm] using h)
    | cons node nodes ih =>
      rw [setUniqueText] at h
      rw [textsAll, List.mem_append]
      by_cases hname : node.Named name
      · rw [if_pos hname, textsAll, List.mem_append] at h
        rcases h with h | h
        · rcases texts_withText h with h | rfl
          · exact .inl (.inl h)
          · exact .inr rfl
        · obtain ⟨other, hother, htext⟩ := mem_textsAll.1 h
          exact .inl (.inr (mem_textsAll.2 ⟨other, (List.mem_filter.1 hother).1, htext⟩))
      · rw [if_neg hname, textsAll, List.mem_append] at h
        rcases h with h | h
        · exact .inl (.inl h)
        · exact (ih h).imp_left .inr

theorem textsAll_writeFields {fields : List (String × Option String)} {nodes : List XmlNode} {text : String}
    (h : text ∈ textsAll (writeFields fields nodes)) :
    text ∈ textsAll nodes ∨ ∃ field ∈ fields, field.2 = some text := by
  induction fields generalizing nodes with
  | nil => exact .inl h
  | cons field fields ih =>
    rcases ih h with h | ⟨field', hfield', htext⟩
    · rcases textsAll_setField h with h | h
      · exact .inl h
      · exact .inr ⟨field, List.mem_cons_self .., h⟩
    · exact .inr ⟨field', List.mem_cons_of_mem _ hfield', htext⟩

theorem toDigits_representable (n : ℕ) : ∀ c ∈ Nat.toDigits 16 n, ¬ (c == '\x00' || c == '\r') := by
  have hdigit : ∀ d < 16, ¬ (d.digitChar == '\x00' || d.digitChar == '\r') := by decide
  induction n using Nat.strong_induction_on with
  | _ n ih =>
    intro c hc
    by_cases hlt : n < 16
    · rw [Nat.toDigits_of_lt_base hlt, List.mem_singleton] at hc
      rw [hc]
      exact hdigit n hlt
    · rw [not_lt] at hlt
      rw [Nat.toDigits_of_base_le (by decide) hlt, List.mem_append, List.mem_singleton] at hc
      rcases hc with hc | rfl
      · exact ih (n / 16) (Nat.div_lt_self (by omega) (by decide)) c hc
      · exact hdigit _ (Nat.mod_lt n (by decide))

theorem hexText_representable (n : ℕ) : ¬ hasUnrepresentableCharacter (hexText n) := by
  intro h
  obtain ⟨c, hc, hbad⟩ := List.any_eq_true.1 h
  rw [hexText, String.toList_ofList, List.mem_cons, List.mem_cons] at hc
  rcases hc with rfl | rfl | hc
  · exact absurd hbad (by decide)
  · exact absurd hbad (by decide)
  · exact toDigits_representable n c hc hbad

/-- An input that can be written. -/
structure Writable (input : DefinitionHeaderInput) : Prop where
  representable : ∀ field ∈ representedTexts input, ¬ hasUnrepresentableCharacter field.2
  xmlId : input.xmlId ≠ ""
  internalId : input.internalId ≠ ""
  ecuId : input.ecuId ≠ ""

theorem validateInput_of_writable {input : DefinitionHeaderInput} (h : Writable input) :
    validateInput input = .ok () := by
  have hnone := List.find?_eq_none.2 h.representable
  rw [validateInput, validateRepresentableText, hnone]
  show (if _ then _ else _) = _
  rw [if_neg h.xmlId, if_neg h.internalId, if_neg h.ecuId]

theorem validateInput_of_not_writable {input : DefinitionHeaderInput} (h : ¬ Writable input) :
    ∃ e, validateInput input = .error e := by
  rw [validateInput, validateRepresentableText]
  cases hfind : (representedTexts input).find? fun field => hasUnrepresentableCharacter field.2 with
  | some field => exact ⟨_, rfl⟩
  | none =>
    show ∃ e, (if input.xmlId = "" then _ else _) = Except.error e
    by_cases hxml : input.xmlId = ""
    · exact ⟨_, if_pos hxml⟩
    by_cases hinternal : input.internalId = ""
    · exact ⟨_, (if_neg hxml).trans (if_pos hinternal)⟩
    by_cases hecu : input.ecuId = ""
    · exact ⟨_, (if_neg hxml).trans ((if_neg hinternal).trans (if_pos hecu))⟩
    · exact absurd ⟨List.find?_eq_none.1 hfind, hxml, hinternal, hecu⟩ h

theorem Writable.identityFields_plain {input : DefinitionHeaderInput} (h : Writable input)
    {field : String × Option String} (hfield : field ∈ identityFields input) {text : String}
    (htext : field.2 = some text) : ¬ hasUnrepresentableCharacter text := by
  have hrepresented : (∃ name, (name, text) ∈ representedTexts input) ∨
      ∃ n, text = hexText n := by
    simp only [identityFields, List.mem_append, List.mem_cons, List.not_mem_nil, or_false,
      List.mem_map] at hfield
    rcases hfield with ((rfl | rfl | rfl | rfl) | ⟨editable, heditable, rfl⟩) | rfl | rfl
    · cases htext
      exact .inl ⟨"XML ID", by simp [representedTexts]⟩
    · obtain ⟨address, -, rfl⟩ := Option.map_eq_some_iff.1 htext
      exact .inr ⟨_, rfl⟩
    · cases htext
      exact .inl ⟨"internal ID", by simp [representedTexts]⟩
    · cases htext
      exact .inl ⟨"ECU ID", by simp [representedTexts]⟩
    · cases htext
      exact .inl ⟨editable.1, List.mem_append_right _ (List.mem_map_of_mem heditable)⟩
    · cases htext
      exact .inl ⟨"file size", by simp [representedTexts]⟩
    · cases htext
      exact .inl ⟨"identity notes", by simp [representedTexts]⟩
  rcases hrepresented with ⟨name, hmem⟩ | ⟨n, rfl⟩
  · exact h.representable _ hmem
  · exact hexText_representable n

theorem Writable.romFields_plain {input : DefinitionHeaderInput} (h : Writable input)
    {field : String × Option String} (hfield : field ∈ romFields input) {text : String}
    (htext : field.2 = some text) : ¬ hasUnrepresentableCharacter text := by
  simp only [romFields, List.mem_cons, List.not_mem_nil, or_false] at hfield
  rcases hfield with rfl | rfl
  · cases htext
    exact h.representable ("include", input.includeId) (by simp [representedTexts])
  · cases htext
    exact h.representable ("notes", input.notes) (by simp [representedTexts])

/-- The texts of a `rom` that is written are those of the input and those that it had. -/
theorem plain_writeHeader {input : DefinitionHeaderInput} (h : Writable input) {children : List XmlNode}
    (hone : (named "romid" children).length ≤ 1) (hplain : PlainTexts children) :
    PlainTexts (writeHeader input children) := by
  intro text htext
  rw [writeHeader_eq hone] at htext
  rcases textsAll_writeFields htext with htext | ⟨field, hfield, htext⟩
  · obtain ⟨node, hnode, htext⟩ := mem_textsAll.1 htext
    obtain ⟨other, hother, rfl⟩ := List.mem_map.1 hnode
    have holder : text ∈ textsAll (withRomId children) → ¬ hasUnrepresentableCharacter text := by
      intro hmem
      unfold withRomId at hmem
      split_ifs at hmem
      · exact hplain text hmem
      · exact hplain text hmem
    rw [writeRomId] at htext
    split_ifs at htext with hname
    · cases other with
      | element name attributes kids =>
        rcases textsAll_writeFields htext with htext | ⟨field, hfield, htext⟩
        · exact holder (mem_textsAll.2 ⟨_, hother, htext⟩)
        · exact h.identityFields_plain hfield htext
      | _ => exact holder (mem_textsAll.2 ⟨_, hother, htext⟩)
    · exact holder (mem_textsAll.2 ⟨_, hother, htext⟩)
  · exact h.romFields_plain hfield htext

theorem plainTexts_iff {nodes : List XmlNode} :
    PlainTexts nodes ↔ ∀ node ∈ nodes, ∀ value ∈ texts node, ¬ hasUnrepresentableCharacter value := by
  constructor
  · exact fun h node hnode value hvalue => h value (mem_textsAll.2 ⟨node, hnode, hvalue⟩)
  · intro h value hvalue
    obtain ⟨node, hnode, hvalue⟩ := mem_textsAll.1 hvalue
    exact h node hnode value hvalue

/-- A document that is written has the texts of the source and of the input. -/
theorem plain_rewriteDocument {input : DefinitionHeaderInput} (h : Writable input)
    {before after children : List XmlNode} {name : String} {attributes : List (String × String)}
    (hbefore : ∀ node ∈ before, ¬ node.isElement) (hone : (named "romid" children).length ≤ 1)
    (hplain : PlainTexts (before ++ .element name attributes children :: after)) :
    PlainTexts (rewriteDocument input (before ++ .element name attributes children :: after)) := by
  rw [plainTexts_iff] at hplain
  rw [rewriteDocument_split hbefore, plainTexts_iff]
  intro node hnode
  rcases List.mem_cons.1 hnode with rfl | hnode
  · simp [texts]
  rcases List.mem_append.1 hnode with hnode | hnode
  · exact hplain node (List.mem_append_left _ (List.mem_filter.1 hnode).1)
  rcases List.mem_cons.1 hnode with rfl | hnode
  · have hroot := hplain _ (List.mem_append_right _ (List.mem_cons_self ..))
    exact plain_writeHeader h hone hroot
  · exact hplain node (List.mem_append_right _ (List.mem_cons_of_mem _ (List.mem_filter.1 hnode).1))

end Plain

/-! ### The operations -/

section Operations

variable {xml : DefinitionXml} {fineIncrementFrom : String → String} {input : DefinitionHeaderInput}
  {source : Bytes} {before after children : List XmlNode} {attributes : List (String × String)}

theorem updateHeader_of_writable (h : Writable (normalizeHeaderInput input)) (children : List XmlNode) :
    updateHeader input children = .ok (writeHeader (normalizeHeaderInput input) children) := by
  rw [updateHeader, validateInput_of_writable h]
  rfl

theorem updateHeader_of_not_writable (h : ¬ Writable (normalizeHeaderInput input)) (children : List XmlNode) :
    ∃ e, updateHeader input children = .error e := by
  obtain ⟨e, he⟩ := validateInput_of_not_writable h
  rw [updateHeader, he]
  exact ⟨e, rfl⟩

/-- The bytes of a document that is written. -/
def writtenBytes (xml : DefinitionXml) (input : DefinitionHeaderInput) (document : List XmlNode) : Bytes :=
  savedBytes xml (rewriteDocument (normalizeHeaderInput input) document)

/-- The document of which `CreateEcuflashXml` writes the header. -/
def emptyDocument : List XmlNode := [.element "rom" [] []]

/-- What is serialized is returned when it can be parsed. -/
theorem serializeAndValidate_eq_ok_iff {document : List XmlNode} {bytes : Bytes} :
    serializeAndValidate xml fineIncrementFrom document = .ok bytes ↔
      bytes = savedBytes xml (normalizeDeclaration document) ∧
        ∃ definition, parseEcuflashDefinition fineIncrementFrom xml.parse bytes "generated definition" =
          .ok definition := by
  rw [serializeAndValidate]
  cases hparse : parseEcuflashDefinition fineIncrementFrom xml.parse
      (savedBytes xml (normalizeDeclaration document)) "generated definition" with
  | error e =>
    constructor
    · intro h
      cases h
    · rintro ⟨rfl, definition, hdefinition⟩
      rw [hparse] at hdefinition
      cases hdefinition
  | ok definition =>
    constructor
    · intro h
      cases h
      exact ⟨rfl, definition, hparse⟩
    · rintro ⟨rfl, -⟩
      rfl

theorem createEcuflashXml_eq_ok_iff (h : Writable (normalizeHeaderInput input)) {bytes : Bytes} :
    createEcuflashXml xml fineIncrementFrom input = .ok bytes ↔
      bytes = writtenBytes xml input emptyDocument ∧
        ∃ definition, parseEcuflashDefinition fineIncrementFrom xml.parse bytes "generated definition" =
          .ok definition := by
  rw [createEcuflashXml, updateHeader_of_writable h, ok_bind]
  exact serializeAndValidate_eq_ok_iff

theorem createEcuflashXml_of_not_writable (h : ¬ Writable (normalizeHeaderInput input)) :
    ∃ e, createEcuflashXml xml fineIncrementFrom input = .error e := by
  obtain ⟨e, he⟩ := updateHeader_of_not_writable h []
  rw [createEcuflashXml, he]
  exact ⟨e, rfl⟩

section Rewrite

variable (hload : xml.load source = .ok (before ++ .element "rom" attributes children :: after))
  (hbefore : ∀ node ∈ before, ¬ node.isElement)

include hload hbefore

/-- What is left of `RewriteEcuflashXml` when the document has a `rom`. -/
theorem rewriteEcuflashXml_eq : rewriteEcuflashXml xml fineIncrementFrom source input =
    if 1 < (named "romid" children).length then
      invalidConfig "EcuFlash source element <rom>: duplicate top-level <romid> elements"
    else
      updateHeader input children >>= fun children' =>
        serializeAndValidate xml fineIncrementFrom
          (before ++ .element "rom" attributes children' :: after) := by
  have hfind : (before ++ XmlNode.element "rom" attributes children :: after).find? isElement =
      some (.element "rom" attributes children) := find?_of_split hbefore rfl
  simp only [rewriteEcuflashXml, hload, hfind]
  rw [if_neg (not_not.2 (named_element _ _ _))]
  congr 2
  funext children'
  rw [updateFirst_of_split hbefore rfl]
  rfl

theorem rewriteEcuflashXml_eq_ok_iff (hone : (named "romid" children).length ≤ 1)
    (h : Writable (normalizeHeaderInput input)) {bytes : Bytes} :
    rewriteEcuflashXml xml fineIncrementFrom source input = .ok bytes ↔
      bytes = writtenBytes xml input (before ++ .element "rom" attributes children :: after) ∧
        ∃ definition, parseEcuflashDefinition fineIncrementFrom xml.parse bytes "generated definition" =
          .ok definition := by
  rw [rewriteEcuflashXml_eq hload hbefore, if_neg (Nat.not_lt.2 hone), updateHeader_of_writable h, ok_bind,
    serializeAndValidate_eq_ok_iff, writtenBytes, rewriteDocument, updateFirst_of_split hbefore rfl]
  rfl

theorem rewriteEcuflashXml_of_not_writable (h : ¬ Writable (normalizeHeaderInput input)) :
    ∃ e, rewriteEcuflashXml xml fineIncrementFrom source input = .error e := by
  obtain ⟨e, he⟩ := updateHeader_of_not_writable h children
  rw [rewriteEcuflashXml_eq hload hbefore, he]
  split_ifs
  · exact ⟨_, rfl⟩
  · exact ⟨e, rfl⟩

end Rewrite

end Operations

end FastEcu.Definition
