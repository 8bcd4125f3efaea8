import FastEcu.Definition.WriterReadBack
import FastEcu.Logging.LoggerConf

/-!
# What the writer of definitions guarantees

A definition that was written is read as the normalized input, with the scalings and maps of the source, and
writing it again changes nothing, exactly when no instruction of the source hides a field that has a text.

* `Faithful`, `IsSource`, `HasRom` : what is assumed of pugixml for a document and for a source.
* `Rewritable` : the source can be rewritten.
* `CreateMeets`, `RewriteMeets` : what the two operations should do.
* `HasRom.rewrite_spec` : what `RewriteEcuflashXml` does.
* `writer_meets_iff` : the two do what they should exactly when nothing is hidden.
-/

namespace FastEcu.Definition

open Memory Data
open XmlNode hiding text
open Calibration (Error)
open Logging (asciiBytes)

/-! ### The two operations -/

/-- What is assumed of pugixml for a document: it survives when its texts have neither a NUL nor a carriage
return. -/
def Faithful (xml : DefinitionXml) (document : List XmlNode) : Prop := PlainTexts document → Survives xml document

/-- A source with a `rom`, of which the two loaders keep their parts. -/
structure IsSource (xml : DefinitionXml) (source : Bytes) (before children after : List XmlNode)
    (attributes : List (String × String)) : Prop where
  reads : Reads xml source (before ++ .element "rom" attributes children :: after)
  plain : PlainTexts (before ++ .element "rom" attributes children :: after)
  before : ∀ node ∈ before, ¬ node.isElement

/-- A source of which the two loaders keep their parts, whatever its texts are. -/
structure HasRom (xml : DefinitionXml) (source : Bytes) (before children after : List XmlNode)
    (attributes : List (String × String)) : Prop where
  reads : Reads xml source (before ++ .element "rom" attributes children :: after)
  before : ∀ node ∈ before, ¬ node.isElement

theorem IsSource.hasRom {xml : DefinitionXml} {source : Bytes} {before children after : List XmlNode}
    {attributes : List (String × String)} (h : IsSource xml source before children after attributes) :
    HasRom xml source before children after attributes := ⟨h.reads, h.before⟩

/-- The source can be rewritten with the input: the input can be written, no other element stands beside the
`rom`, it has one `romid` at most, no instruction stands in the place of that or of its id, and the scalings
and maps can be read. -/
structure Rewritable (fineIncrementFrom : String → String) (input : DefinitionHeaderInput)
    (attributes : List (String × String)) (children after : List XmlNode) : Prop where
  writable : Writable input
  single : after.filter isElement = []
  one : (named "romid" children).length ≤ 1
  element : ∀ node ∈ named "romid" children, node.isElement
  xmlId : hidden (romIdChildren children) "xmlid" = false
  body : ∃ body, parseBody fineIncrementFrom "" "" (shownRom attributes children) = .ok body

/-- `CreateEcuflashXml` fails, as it does when the input cannot be written, or what it returns is read as the
normalized input and is written again as it is. -/
def CreateMeets (xml : DefinitionXml) (fineIncrementFrom : String → String) (input : DefinitionHeaderInput) :
    Prop :=
  (¬ Writable (normalizeHeaderInput input) →
    ∃ e, createEcuflashXml xml fineIncrementFrom input = .error e) ∧
  ∀ bytes, createEcuflashXml xml fineIncrementFrom input = .ok bytes →
    ReadsAs xml fineIncrementFrom bytes (normalizeHeaderInput input) ([], []) ∧
    rewriteEcuflashXml xml fineIncrementFrom bytes input = .ok bytes

/-- `RewriteEcuflashXml` fails, as it does when the input cannot be written, or what it returns is read as the
normalized input with the scalings and maps of the source, keeps the rest of the source, and is written again as
it is. -/
def RewriteMeets (xml : DefinitionXml) (fineIncrementFrom : String → String) (source : Bytes)
    (input : DefinitionHeaderInput) : Prop :=
  (¬ Writable (normalizeHeaderInput input) →
    ∃ e, rewriteEcuflashXml xml fineIncrementFrom source input = .error e) ∧
  ∀ bytes, rewriteEcuflashXml xml fineIncrementFrom source input = .ok bytes →
    (∃ rom body, (∀ s, parseRoot (xml.parse source) s "rom" = .ok rom) ∧
      (∀ s i, parseBody fineIncrementFrom s i rom = .ok body) ∧
      ReadsAs xml fineIncrementFrom bytes (normalizeHeaderInput input) body) ∧
    (∃ document document', xml.load source = .ok document ∧ xml.load bytes = .ok document' ∧
      Keeps document document') ∧
    rewriteEcuflashXml xml fineIncrementFrom bytes input = .ok bytes

section Written

variable {xml : DefinitionXml} {fineIncrementFrom : String → String} {input : DefinitionHeaderInput}
  {before after children : List XmlNode} {attributes : List (String × String)}
  {body : List UnresolvedCalibrationMap × List UnresolvedScaling}

/-- The document that the writer has of a source. -/
theorem withoutBlank_source (before after children : List XmlNode) (attributes : List (String × String)) :
    withoutBlank (before ++ .element "rom" attributes children :: after) =
      withoutBlank before ++ .element "rom" attributes (withoutBlank children) :: withoutBlank after := by
  rw [withoutBlank_append, @withoutBlank_cons (.element _ _ _) Bool.false_ne_true]
  rfl

theorem withoutBlank_not_isElement (hbefore : ∀ node ∈ before, ¬ node.isElement) :
    ∀ node ∈ withoutBlank before, ¬ node.isElement := by
  intro node hnode
  rw [withoutBlank, keepAll_eq] at hnode
  obtain ⟨other, hother, rfl⟩ := List.mem_map.1 hnode
  rw [keep_isElement]
  exact hbefore other (List.mem_filter.1 hother).1

theorem length_romid_withoutBlank (hone : (named "romid" children).length ≤ 1) :
    (named "romid" (withoutBlank children)).length ≤ 1 := by
  rw [withoutBlank_named, List.length_map]
  exact hone

theorem elements_withoutBlank (nodes : List XmlNode) :
    (withoutBlank nodes).filter isElement = (nodes.filter isElement).map trimmed := by
  rw [withoutBlank, filter_keepAll _ (keep_isElement _), keepAll_of_forall]
  intro node hnode
  have helement := (List.mem_filter.1 hnode).2
  cases node <;> first | rfl | cases helement

variable (hbefore : ∀ node ∈ before, ¬ node.isElement) (hone : (named "romid" children).length ≤ 1)
  {bytes : Bytes} {full : List XmlNode} (hreads : Reads xml bytes full)
  (hsettle : settleAll full = settleAll (rewriteDocument input
    (withoutBlank (before ++ .element "rom" attributes children :: after))))

include hbefore hone hreads hsettle

/-- **What was written is read as the part of the input that nothing hides.** -/
theorem readsAs_written (hnormal : normalizeHeaderInput input = input)
    (h : Rewritable fineIncrementFrom input attributes children after)
    (hbody : parseBody fineIncrementFrom "" "" (shownRom attributes children) = .ok body) :
    ReadsAs xml fineIncrementFrom bytes
      (shownInput input (hidden (romIdChildren children)) (hidden children)) body := by
  rw [withoutBlank_source] at hsettle
  have hsingle : (withoutBlank after).filter isElement = [] := by
    rw [elements_withoutBlank, h.single]
    rfl
  obtain ⟨loaded, hroot, hloaded⟩ := root_loaded (withoutBlank_not_isElement hbefore)
    (length_romid_withoutBlank hone) hsingle hsettle
  have helement : ∀ node ∈ named "romid" (withoutBlank children), node.isElement := by
    intro node hnode
    rw [withoutBlank_named] at hnode
    obtain ⟨other, hother, rfl⟩ := List.mem_map.1 hnode
    rw [keep_isElement]
    exact h.element other hother
  obtain ⟨loadedKids, romIdAttributes, hheader⟩ :=
    header_loaded (length_romid_withoutBlank hone) helement hloaded
  have hxmlId : hidden (romIdChildren (withoutBlank children)) "xmlid" = false := by
    rw [romIdChildren_withoutBlank, hidden_withoutBlank]
    exact h.xmlId
  have hread := readsAs_shown hreads.2 hroot hheader hnormal h.writable.xmlId hxmlId fun s i =>
    (@parseBody_loaded fineIncrementFrom input children loaded attributes hone hloaded s i "" "").symm.ok hbody
  rwa [shownInput_withoutBlank] at hread

/-- What was written cannot be read when the source was not fit for it. -/
theorem parse_written_error (hnormal : normalizeHeaderInput input = input) (hwritable : Writable input)
    (h : ¬ Rewritable fineIncrementFrom input attributes children after) (source : String) :
    ∃ e, parseEcuflashDefinition fineIncrementFrom xml.parse bytes source = .error e := by
  rw [withoutBlank_source] at hsettle
  by_cases hsingle : after.filter isElement = []
  swap
  · obtain ⟨e, he⟩ := parseRoot_of_length hreads.2 (roots_loaded (withoutBlank_not_isElement hbefore)
      (by rwa [elements_withoutBlank, ne_eq, List.map_eq_nil_iff]) hsettle) source
    rw [parseEcuflashDefinition, he]
    exact ⟨e, rfl⟩
  have hsingle' : (withoutBlank after).filter isElement = [] := by
    rw [elements_withoutBlank, hsingle]
    rfl
  obtain ⟨loaded, hroot, hloaded⟩ := root_loaded (withoutBlank_not_isElement hbefore)
    (length_romid_withoutBlank hone) hsingle' hsettle
  have hrom := parseRoot_of_elements hreads.2 hroot (named_element _ _ _) source
  by_cases hheader : ∃ identity, parseRomHeader (shownRom attributes loaded) source = .ok identity
  swap
  · cases hparse : parseRomHeader (shownRom attributes loaded) source with
    | error e =>
      rw [parseEcuflashDefinition, hrom, ok_bind, hparse]
      exact ⟨e, rfl⟩
    | ok identity => exact absurd ⟨identity, hparse⟩ hheader
  obtain ⟨identity, hidentity⟩ := hheader
  rw [parseEcuflashDefinition_eq hrom hidentity]
  cases hbody : parseBody fineIncrementFrom source identity.xmlId (shownRom attributes loaded) with
  | error e => exact ⟨e, rfl⟩
  | ok body =>
    -- everything has been read, so the source was fit
    have helement : ∀ node ∈ named "romid" (withoutBlank children), node.isElement := by
      intro node hnode
      by_contra helement
      have hmissing := romid_missing (length_romid_withoutBlank hone) hnode helement hloaded
      obtain ⟨e, he⟩ := @parseRomHeader_missing (shownRom attributes loaded) hmissing source
      rw [he] at hidentity
      cases hidentity
    obtain ⟨loadedKids, romIdAttributes, hheader⟩ :=
      header_loaded (length_romid_withoutBlank hone) helement hloaded
    refine absurd ⟨hwritable, hsingle, hone, ?_, ?_, body, ?_⟩ h
    · intro node hnode
      have htrimmed := helement (trimmed node) (by rw [withoutBlank_named]; exact List.mem_map_of_mem hnode)
      rwa [keep_isElement] at htrimmed
    · rw [← hidden_withoutBlank, ← romIdChildren_withoutBlank, Bool.eq_false_iff]
      intro hhidden
      obtain ⟨e, he⟩ := @Loaded.parseRomHeader_hidden input (withoutBlank children) _ loaded loadedKids
        attributes romIdAttributes hheader hnormal hhidden source
      rw [he] at hidentity
      cases hidentity
    · exact (parseBody_loaded hone hloaded source identity.xmlId "" "").ok hbody

/-- **What was written is written again as it is.** -/
theorem rewrite_written {rawInput : DefinitionHeaderInput} (hinput : normalizeHeaderInput rawInput = input)
    (hwritable : Writable input)
    (hbytes : bytes = writtenBytes xml rawInput
      (withoutBlank (before ++ .element "rom" attributes children :: after)))
    {definition : UnresolvedDefinition} (hparse : parseEcuflashDefinition fineIncrementFrom xml.parse bytes
      "generated definition" = .ok definition) :
    rewriteEcuflashXml xml fineIncrementFrom bytes rawInput = .ok bytes := by
  subst hinput
  have htrimmed := trimmed_withoutBlank (before ++ .element "rom" attributes children :: after)
  have hload := hreads.1
  have hbefore' := withoutBlank_not_isElement hbefore
  have hone' := length_romid_withoutBlank hone
  have hagain := congrArg (savedBytes xml) (@rewriteDocument_again (normalizeHeaderInput rawInput)
    (withoutBlank children) (withoutBlank before) (withoutBlank after) "rom" attributes hbefore'
    (by rwa [withoutBlank_source] at htrimmed) hone')
  rw [withoutBlank_source] at htrimmed hbytes hsettle
  rw [withoutBlank_of_settleAll hsettle] at hload
  rw [withoutBlank_rewriteDocument hbefore' htrimmed, ← List.cons_append] at hload hagain
  rw [rewriteEcuflashXml_eq_ok_iff hload ?_ ?_ hwritable]
  · refine ⟨?_, definition, hparse⟩
    rw [hbytes]
    exact hagain.symm
  · intro node hnode
    rcases List.mem_cons.1 hnode with rfl | hnode
    · exact Bool.false_ne_true
    · exact hbefore' node (List.mem_filter.1 hnode).1
  · rw [withoutBlank_named, List.length_map, length_romid_writeHeader hone']

end Written

section Main

variable {xml : DefinitionXml} {fineIncrementFrom : String → String} {input : DefinitionHeaderInput}
  {source : Bytes} {before after children : List XmlNode} {attributes : List (String × String)}

theorem plainTexts_withoutBlank {nodes : List XmlNode} (h : PlainTexts nodes) : PlainTexts (withoutBlank nodes) :=
  fun value hvalue => h value (textsAll_keepAll _ value nodes hvalue)

/-- An empty `rom` can be rewritten with every input that can be written, and hides nothing. -/
theorem rewritable_empty (h : Writable input) : Rewritable fineIncrementFrom input [] [] [] where
  writable := h
  single := rfl
  one := Nat.zero_le _
  element := by
    intro node hnode
    cases hnode
  xmlId := rfl
  body := ⟨([], []), rfl⟩

theorem not_hides_nil (input : DefinitionHeaderInput) : ¬ Hides input [] := by
  rintro (⟨field, -, hhidden, -⟩ | ⟨field, -, hhidden, -⟩)
  · cases hhidden
  · cases hhidden

/-- **What is created is read back.** -/
theorem createMeets
    (hcreated : Faithful xml (rewriteDocument (normalizeHeaderInput input) emptyDocument)) :
    CreateMeets xml fineIncrementFrom input := by
  refine ⟨createEcuflashXml_of_not_writable, ?_⟩
  intro bytes hbytes
  by_cases hwritable : Writable (normalizeHeaderInput input)
  · obtain ⟨hbytes, definition, hparse⟩ := (createEcuflashXml_eq_ok_iff hwritable).1 hbytes
    have hnone : ∀ node ∈ ([] : List XmlNode), ¬ node.isElement := by
      intro node hnode
      cases hnode
    have hplain : PlainTexts (([] : List XmlNode) ++ .element "rom" [] [] :: []) := by
      intro value hvalue
      cases hvalue
    obtain ⟨full, hreads, hsettle⟩ := hcreated (@plain_rewriteDocument (normalizeHeaderInput input) hwritable
      [] [] [] "rom" [] hnone (Nat.zero_le _) hplain)
    rw [writtenBytes] at hbytes
    rw [← hbytes] at hreads
    have hread := @readsAs_written xml fineIncrementFrom (normalizeHeaderInput input) [] [] [] [] ([], []) hnone
      (Nat.zero_le _) bytes full hreads hsettle (normalizeHeaderInput_normalizeHeaderInput input)
      (rewritable_empty hwritable) rfl
    rw [shownInput_eq_iff_not_hides.2 (not_hides_nil _)] at hread
    exact ⟨hread, @rewrite_written xml fineIncrementFrom (normalizeHeaderInput input) [] [] [] [] hnone
      (Nat.zero_le _) bytes full hreads hsettle input rfl hwritable hbytes definition hparse⟩
  · obtain ⟨e, he⟩ := @createEcuflashXml_of_not_writable xml fineIncrementFrom input hwritable
    rw [he] at hbytes
    cases hbytes

/-- An input that reads as another one is that one. -/
theorem ReadsAs.input_eq {bytes : Bytes} {input input' : DefinitionHeaderInput}
    {body body' : List UnresolvedCalibrationMap × List UnresolvedScaling}
    (h : ReadsAs xml fineIncrementFrom bytes input body)
    (h' : ReadsAs xml fineIncrementFrom bytes input' body') : input = input' := by
  have hdefinition := h.definition ""
  rw [h'.definition ""] at hdefinition
  injection hdefinition with hdefinition
  simp only [definitionOfInput, UnresolvedDefinition.mk.injEq, RomIdentity.mk.injEq] at hdefinition
  obtain ⟨-, -, ⟨hxml, hinternal, hecu, haddress⟩, hmetadata, hparents, -⟩ := hdefinition
  obtain ⟨draft, hdraft, hnotes⟩ := h.notes
  obtain ⟨draft', hdraft', hnotes'⟩ := h'.notes
  rw [hdraft] at hdraft'
  cases hdraft'
  have hinclude : input.includeId = input'.includeId := by
    by_cases hempty : input.includeId = ""
    · by_cases hempty' : input'.includeId = ""
      · rw [hempty, hempty']
      · rw [if_pos hempty, if_neg hempty'] at hparents
        cases hparents
    · by_cases hempty' : input'.includeId = ""
      · rw [if_neg hempty, if_pos hempty'] at hparents
        cases hparents
      · rw [if_neg hempty, if_neg hempty'] at hparents
        exact (List.singleton_inj.1 hparents).symm
  obtain ⟨xmlId, internalId, ecuId, address, metadata, includeId, notes⟩ := input
  obtain ⟨xmlId', internalId', ecuId', address', metadata', includeId', notes'⟩ := input'
  simp only at hxml hinternal hecu haddress hmetadata hinclude hnotes hnotes'
  subst hxml hinternal hecu haddress hmetadata hinclude hnotes hnotes'
  rfl

/-- What `RewriteEcuflashXml` writes is loaded, when the input can be written. -/
theorem IsSource.survives (hsource : IsSource xml source before children after attributes)
    (hwritten : Faithful xml (rewriteDocument (normalizeHeaderInput input)
      (withoutBlank (before ++ .element "rom" attributes children :: after))))
    (hwritable : Writable (normalizeHeaderInput input)) (hone : (named "romid" children).length ≤ 1) :
    Survives xml (rewriteDocument (normalizeHeaderInput input)
      (withoutBlank (before ++ .element "rom" attributes children :: after))) := by
  have hplain := plainTexts_withoutBlank hsource.plain
  rw [withoutBlank_source] at hplain
  refine hwritten ?_
  rw [withoutBlank_source]
  exact plain_rewriteDocument hwritable (withoutBlank_not_isElement hsource.before)
    (length_romid_withoutBlank hone) hplain

theorem HasRom.elements (hsource : HasRom xml source before children after attributes) :
    (before ++ .element "rom" attributes children :: after).filter isElement =
      .element "rom" attributes children :: after.filter isElement := by
  have hnone : before.filter isElement = [] := List.filter_eq_nil_iff.2 hsource.before
  rw [List.filter_append, hnone, List.nil_append, List.filter_cons_of_pos rfl]

/-- The root that the parser finds, if no other element stands beside it. -/
theorem HasRom.shown_root (hsource : HasRom xml source before children after attributes)
    (hsingle : after.filter isElement = []) :
    (withoutMarkup (before ++ .element "rom" attributes children :: after)).filter isElement =
      [shownRom attributes children] := by
  rw [elements_withoutMarkup, hsource.elements, hsingle]
  rfl

theorem HasRom.rewrite_eq_ok_iff (hsource : HasRom xml source before children after attributes)
    (hwritable : Writable (normalizeHeaderInput input)) (hone : (named "romid" children).length ≤ 1)
    {bytes : Bytes} : rewriteEcuflashXml xml fineIncrementFrom source input = .ok bytes ↔
      bytes = writtenBytes xml input (withoutBlank (before ++ .element "rom" attributes children :: after)) ∧
        ∃ definition, parseEcuflashDefinition fineIncrementFrom xml.parse bytes "generated definition" =
          .ok definition := by
  have hload := hsource.reads.1
  rw [withoutBlank_source] at hload ⊢
  exact rewriteEcuflashXml_eq_ok_iff hload (withoutBlank_not_isElement hsource.before)
    (length_romid_withoutBlank hone) hwritable

theorem HasRom.rewrite_error (hsource : HasRom xml source before children after attributes)
    (h : ¬ (Writable (normalizeHeaderInput input) ∧ (named "romid" children).length ≤ 1)) :
    ∃ e, rewriteEcuflashXml xml fineIncrementFrom source input = .error e := by
  have hload := hsource.reads.1
  rw [withoutBlank_source] at hload
  by_cases hwritable : Writable (normalizeHeaderInput input)
  · have hone : 1 < (named "romid" (withoutBlank children)).length := by
      rw [withoutBlank_named, List.length_map]
      exact Nat.lt_of_not_le fun hone => h ⟨hwritable, hone⟩
    rw [rewriteEcuflashXml_eq hload (withoutBlank_not_isElement hsource.before), if_pos hone]
    exact ⟨_, rfl⟩
  · exact rewriteEcuflashXml_of_not_writable hload (withoutBlank_not_isElement hsource.before) hwritable

/-- **`RewriteEcuflashXml` succeeds exactly when the source can be rewritten**; what it returns is then read as
the part of the input that nothing hides. -/
theorem HasRom.rewrite_spec (hsource : HasRom xml source before children after attributes)
    (hwritten : Writable (normalizeHeaderInput input) → (named "romid" children).length ≤ 1 →
      Survives xml (rewriteDocument (normalizeHeaderInput input)
        (withoutBlank (before ++ .element "rom" attributes children :: after)))) :
    ((∃ bytes, rewriteEcuflashXml xml fineIncrementFrom source input = .ok bytes) ↔
      Rewritable fineIncrementFrom (normalizeHeaderInput input) attributes children after) ∧
    ∀ bytes, rewriteEcuflashXml xml fineIncrementFrom source input = .ok bytes →
      (∃ rom body, (∀ s, parseRoot (xml.parse source) s "rom" = .ok rom) ∧
        (∀ s i, parseBody fineIncrementFrom s i rom = .ok body) ∧
        ReadsAs xml fineIncrementFrom bytes (shownInput (normalizeHeaderInput input)
          (hidden (romIdChildren children)) (hidden children)) body) ∧
      (∃ document document', xml.load source = .ok document ∧ xml.load bytes = .ok document' ∧
        Keeps document document') ∧
      rewriteEcuflashXml xml fineIncrementFrom bytes input = .ok bytes := by
  have hnormal := normalizeHeaderInput_normalizeHeaderInput input
  by_cases hfit : Writable (normalizeHeaderInput input) ∧ (named "romid" children).length ≤ 1
  swap
  · obtain ⟨e, he⟩ := @HasRom.rewrite_error xml fineIncrementFrom input source before after children attributes
      hsource hfit
    rw [he]
    refine ⟨⟨fun h => ?_, fun h => absurd ⟨h.writable, h.one⟩ hfit⟩, fun bytes hbytes => ?_⟩
    · obtain ⟨bytes, hbytes⟩ := h
      cases hbytes
    · cases hbytes
  obtain ⟨hwritable, hone⟩ := hfit
  obtain ⟨full, hreads, hsettle⟩ := hwritten hwritable hone
  rw [← writtenBytes] at hreads
  have hiff {bytes : Bytes} := @HasRom.rewrite_eq_ok_iff xml fineIncrementFrom input source before after children
    attributes hsource hwritable hone bytes
  by_cases hr : Rewritable fineIncrementFrom (normalizeHeaderInput input) attributes children after
  swap
  · obtain ⟨e, he⟩ := parse_written_error hsource.before hone hreads hsettle hnormal hwritable hr
      "generated definition"
    have hnone : ∀ bytes, rewriteEcuflashXml xml fineIncrementFrom source input ≠ .ok bytes := by
      intro bytes hbytes
      obtain ⟨rfl, definition, hparse⟩ := hiff.1 hbytes
      rw [he] at hparse
      cases hparse
    refine ⟨⟨fun h => ?_, fun h => absurd h hr⟩, fun bytes hbytes => absurd hbytes (hnone bytes)⟩
    obtain ⟨bytes, hbytes⟩ := h
    exact absurd hbytes (hnone bytes)
  obtain ⟨body, hbody⟩ := hr.body
  have hread := readsAs_written hsource.before hone hreads hsettle hnormal hr hbody
  have hok := hiff.2 ⟨rfl, _, hread.definition "generated definition"⟩
  refine ⟨⟨fun _ => hr, fun _ => ⟨_, hok⟩⟩, ?_⟩
  intro bytes hbytes
  rw [hok] at hbytes
  cases hbytes
  refine ⟨⟨shownRom attributes children, body, fun s => ?_, fun s i => ?_, hread⟩, ?_, ?_⟩
  · exact parseRoot_of_elements hsource.reads.2 (hsource.shown_root hr.single) (named_element _ _ _) s
  · exact (parseBody_agree "" "" s i rfl rfl).ok hbody
  · have hload := hreads.1
    have htrimmed := trimmed_withoutBlank (before ++ .element "rom" attributes children :: after)
    rw [withoutBlank_source] at htrimmed hsettle
    rw [withoutBlank_of_settleAll hsettle] at hload
    refine ⟨_, _, hsource.reads.1, hload, ?_⟩
    rw [withoutBlank_source]
    exact keeps_rewriteDocument (withoutBlank_not_isElement hsource.before) htrimmed
      (length_romid_withoutBlank hone)
  · exact rewrite_written hsource.before hone hreads hsettle rfl hwritable rfl
      (hread.definition "generated definition")

/-- **The writer does what it should exactly when no instruction of a source that can be rewritten hides a field
that has a text.** -/
theorem writer_meets_iff (hsource : IsSource xml source before children after attributes)
    (hcreated : Faithful xml (rewriteDocument (normalizeHeaderInput input) emptyDocument))
    (hwritten : Faithful xml (rewriteDocument (normalizeHeaderInput input)
      (withoutBlank (before ++ .element "rom" attributes children :: after)))) :
    (CreateMeets xml fineIncrementFrom input ∧ RewriteMeets xml fineIncrementFrom source input) ↔
      (Rewritable fineIncrementFrom (normalizeHeaderInput input) attributes children after →
        ¬ Hides (normalizeHeaderInput input) children) := by
  obtain ⟨hiff, hspec⟩ := @HasRom.rewrite_spec xml fineIncrementFrom input source before after children attributes
    hsource.hasRom (hsource.survives hwritten)
  constructor
  · rintro ⟨-, -, hmeets⟩ hr
    obtain ⟨bytes, hbytes⟩ := hiff.2 hr
    obtain ⟨⟨_, _, -, -, hread⟩, -⟩ := hmeets bytes hbytes
    obtain ⟨⟨_, _, -, -, hshown⟩, -⟩ := hspec bytes hbytes
    exact shownInput_eq_iff_not_hides.1 (hshown.input_eq hread)
  · intro h
    refine ⟨createMeets hcreated, fun hwritable => ?_, fun bytes hbytes => ?_⟩
    · exact hsource.hasRom.rewrite_error fun hfit => hwritable hfit.1
    · have hhides := h (hiff.1 ⟨bytes, hbytes⟩)
      obtain ⟨⟨rom, body, hrom, hbody, hread⟩, hrest⟩ := hspec bytes hbytes
      rw [shownInput_eq_iff_not_hides.2 hhides] at hread
      exact ⟨⟨rom, body, hrom, hbody, hread⟩, hrest⟩

end Main

/-! ### Two sources -/

/-- An input with a make. -/
def makeInput : DefinitionHeaderInput where
  xmlId := "A"
  internalId := "B"
  ecuId := "C"
  metadata := { make := "Subaru" }

/-- The text of a definition; `top` stands before the `rom`, and `ids` begin the `romid`. -/
def definitionText (top ids : String) : Bytes :=
  asciiBytes "<?xml version=\"1.0\" encoding=\"UTF-8\"?>\n" ++ (asciiBytes top ++
    (asciiBytes "<rom>\n  <romid>\n" ++ (asciiBytes ids ++
    (asciiBytes "    <market></market>\n    <model></model>\n    <submodel></submodel>\n" ++
    (asciiBytes "    <transmission></transmission>\n    <year></year>\n    <flashmethod></flashmethod>\n" ++
    (asciiBytes "    <memmodel></memmodel>\n    <checksummodule></checksummodule>\n" ++
    (asciiBytes "    <filesize></filesize>\n    <notes></notes>\n  </romid>\n" ++
    (asciiBytes "  <include></include>\n  <notes></notes>\n</rom>" ++ [0x0A]))))))))

theorem definitionText_getLast? (top ids : String) : (definitionText top ids).getLast? = some 0x0A := by
  simp [definitionText]

def createdText : Bytes :=
  definitionText "" ("    <xmlid>A</xmlid>\n    <internalidstring>B</internalidstring>\n" ++
    "    <ecuid>C</ecuid>\n    <make>Subaru</make>\n")

/-- pugixml on a source under a comment, on what is written from it, and on what is created. -/
def commentedXml (source written : Bytes) (full : List XmlNode) : DefinitionXml where
  load bytes :=
    if bytes = source then .ok (withoutBlank full)
    else if bytes = written then
      .ok (withoutBlank ((rewriteDocument makeInput (withoutBlank full)).map (indented 0)))
    else if bytes = createdText then
      .ok (withoutBlank ((rewriteDocument makeInput emptyDocument).map (indented 0)))
    else .error "No document element found"
  parse bytes :=
    if bytes = source then .ok (withoutMarkup full)
    else if bytes = written then
      .ok (withoutMarkup ((rewriteDocument makeInput (withoutBlank full)).map (indented 0)))
    else if bytes = createdText then
      .ok (withoutMarkup ((rewriteDocument makeInput emptyDocument).map (indented 0)))
    else .error "No document element found"
  save document := if document.length = 3 then written else createdText

/-- A source under a comment. -/
def commentedSource (kids : List XmlNode) : List XmlNode :=
  [.comment "stock"] ++ .element "rom" [] [.element "romid" [] kids] :: []

theorem makeInput_normal : normalizeHeaderInput makeInput = makeInput := by decide +kernel

theorem makeInput_writable : Writable makeInput where
  representable := by
    intro field hfield
    have hall : (representedTexts makeInput).all (!hasUnrepresentableCharacter ·.2) := by decide +kernel
    simpa using List.all_eq_true.1 hall field hfield
  xmlId := by decide
  internalId := by decide
  ecuId := by decide

section Sample

variable {source written : Bytes} {kids : List XmlNode}

theorem commentedXml_isSource (hplain : PlainTexts (commentedSource kids)) :
    IsSource (commentedXml source written (commentedSource kids)) source [.comment "stock"]
      [.element "romid" [] kids] [] [] where
  reads := by
    refine ⟨?_, ?_⟩
    · simp only [commentedXml, if_true]
      rfl
    · simp only [commentedXml, if_true]
      rfl
  plain := hplain
  before := by
    intro node hnode
    cases List.mem_singleton.1 hnode
    exact Bool.false_ne_true

theorem commentedXml_survives (hne : written ≠ source) (hlast : written.getLast? = some 0x0A) :
    Survives (commentedXml source written (commentedSource kids))
      (rewriteDocument makeInput (withoutBlank (commentedSource kids))) := by
  refine ⟨(rewriteDocument makeInput (withoutBlank (commentedSource kids))).map (indented 0), ?_,
    settleAll_map_indented _⟩
  have hsave : savedBytes (commentedXml source written (commentedSource kids))
      (rewriteDocument makeInput (withoutBlank (commentedSource kids))) = written := by
    have hlength : (rewriteDocument makeInput (withoutBlank (commentedSource kids))).length = 3 := rfl
    have hsaved : (commentedXml source written (commentedSource kids)).save
        (rewriteDocument makeInput (withoutBlank (commentedSource kids))) = written := by
      simp only [commentedXml, hlength, if_true]
    rw [savedBytes, hsaved, if_pos hlast]
  rw [hsave]
  refine ⟨?_, ?_⟩
  · simp only [commentedXml, hne, if_true, if_false]
  · simp only [commentedXml, hne, if_true, if_false]

theorem commentedXml_written (hne : written ≠ source) (hlast : written.getLast? = some 0x0A) :
    Faithful (commentedXml source written (commentedSource kids))
      (rewriteDocument (normalizeHeaderInput makeInput) (withoutBlank (commentedSource kids))) := by
  intro _
  rw [makeInput_normal]
  exact commentedXml_survives hne hlast

theorem commentedXml_created (hne : createdText ≠ source) (hne' : createdText ≠ written) :
    Faithful (commentedXml source written (commentedSource kids))
      (rewriteDocument (normalizeHeaderInput makeInput) emptyDocument) := by
  intro _
  rw [makeInput_normal]
  refine ⟨(rewriteDocument makeInput emptyDocument).map (indented 0), ?_, settleAll_map_indented _⟩
  have hsave : savedBytes (commentedXml source written (commentedSource kids))
      (rewriteDocument makeInput emptyDocument) = createdText := by
    have hlength : (rewriteDocument makeInput emptyDocument).length ≠ 3 := by
      rw [show (rewriteDocument makeInput emptyDocument).length = 2 from rfl]
      decide
    have hsaved : (commentedXml source written (commentedSource kids)).save
        (rewriteDocument makeInput emptyDocument) = createdText := by
      simp only [commentedXml, hlength, if_false]
    have hlast : createdText.getLast? = some 0x0A := definitionText_getLast? ..
    rw [savedBytes, hsaved, if_pos hlast]
  rw [hsave]
  refine ⟨?_, ?_⟩
  · simp only [commentedXml, hne, hne', if_true, if_false]
  · simp only [commentedXml, hne, hne', if_true, if_false]

end Sample

/-- A definition whose header has an id only. -/
def stockText : Bytes := asciiBytes "<!--stock--><rom><romid><xmlid>OLD</xmlid></romid></rom>"

def stockKids : List XmlNode := [.element "xmlid" [] [.text "OLD"]]

def stockWritten : Bytes :=
  definitionText "<!--stock-->\n" ("    <xmlid>A</xmlid>\n    <internalidstring>B</internalidstring>\n" ++
    "    <ecuid>C</ecuid>\n    <make>Subaru</make>\n")

theorem writer_meets_iff_stock :
    CreateMeets (commentedXml stockText stockWritten (commentedSource stockKids)) id makeInput ∧
      RewriteMeets (commentedXml stockText stockWritten (commentedSource stockKids)) id stockText makeInput := by
  have hplain : PlainTexts (commentedSource stockKids) := by
    intro value hvalue
    have hall : (textsAll (commentedSource stockKids)).all (!hasUnrepresentableCharacter ·) := by decide +kernel
    simpa using List.all_eq_true.1 hall value hvalue
  have hcreated := @commentedXml_created stockText stockWritten stockKids (by decide +kernel)
    (by decide +kernel)
  have hwritten := @commentedXml_written stockText stockWritten stockKids (by decide +kernel)
    (definitionText_getLast? ..)
  have hhides : ¬ Hides (normalizeHeaderInput makeInput) [.element "romid" [] stockKids] := by
    rintro (⟨field, -, hhidden, -⟩ | ⟨field, -, hhidden, -⟩)
    · rw [show romIdChildren [.element "romid" [] stockKids] = stockKids from rfl,
        hidden_of_elements (by decide)] at hhidden
      cases hhidden
    · rw [hidden_of_elements (by decide)] at hhidden
      cases hhidden
  exact (@writer_meets_iff _ id makeInput stockText [.comment "stock"] [] [.element "romid" [] stockKids] []
    (commentedXml_isSource hplain) hcreated hwritten).2 fun _ => hhides

/-- A definition whose header has an instruction named like a field. -/
def annotatedText : Bytes := asciiBytes "<!--stock--><rom><romid><?make?><xmlid>OLD</xmlid></romid></rom>"

def annotatedKids : List XmlNode := [.instruction "make" "", .element "xmlid" [] [.text "OLD"]]

def annotatedWritten : Bytes :=
  definitionText "<!--stock-->\n" ("    <?make?>\n    <xmlid>A</xmlid>\n" ++
    "    <internalidstring>B</internalidstring>\n    <ecuid>C</ecuid>\n")

/-- The make is lost without an error. -/
theorem writer_loses_make :
    IsSource (commentedXml annotatedText annotatedWritten (commentedSource annotatedKids)) annotatedText
      [.comment "stock"] [.element "romid" [] annotatedKids] [] [] ∧
    Faithful (commentedXml annotatedText annotatedWritten (commentedSource annotatedKids))
      (rewriteDocument (normalizeHeaderInput makeInput) emptyDocument) ∧
    Faithful (commentedXml annotatedText annotatedWritten (commentedSource annotatedKids))
      (rewriteDocument (normalizeHeaderInput makeInput) (withoutBlank (commentedSource annotatedKids))) ∧
    ¬ RewriteMeets (commentedXml annotatedText annotatedWritten (commentedSource annotatedKids)) id
      annotatedText makeInput := by
  have hplain : PlainTexts (commentedSource annotatedKids) := by
    intro value hvalue
    have hall : (textsAll (commentedSource annotatedKids)).all (!hasUnrepresentableCharacter ·) := by
      decide +kernel
    simpa using List.all_eq_true.1 hall value hvalue
  have hcreated := @commentedXml_created annotatedText annotatedWritten annotatedKids (by decide +kernel)
    (by decide +kernel)
  have hwritten := @commentedXml_written annotatedText annotatedWritten annotatedKids (by decide +kernel)
    (definitionText_getLast? ..)
  have hsource := @commentedXml_isSource annotatedText annotatedWritten annotatedKids hplain
  refine ⟨hsource, hcreated, hwritten, ?_⟩
  rintro ⟨-, hmeets⟩
  obtain ⟨hiff, hspec⟩ := @HasRom.rewrite_spec _ id makeInput annotatedText [.comment "stock"] []
    [.element "romid" [] annotatedKids] [] hsource.hasRom (hsource.survives hwritten)
  have hrewritable : Rewritable id (normalizeHeaderInput makeInput) [] [.element "romid" [] annotatedKids] [] := by
    rw [makeInput_normal]
    exact
      { writable := makeInput_writable
        single := rfl
        one := le_rfl
        element := by
          intro node hnode
          cases List.mem_singleton.1 (mem_named.1 hnode).1
          rfl
        xmlId := rfl
        body := ⟨([], []), rfl⟩ }
  obtain ⟨bytes, hbytes⟩ := hiff.2 hrewritable
  obtain ⟨⟨_, _, -, -, hread⟩, -⟩ := hmeets bytes hbytes
  obtain ⟨⟨_, _, -, -, hshown⟩, -⟩ := hspec bytes hbytes
  -- the instruction is what is found as the make
  have hmake := congrArg (·.metadata.make) (hshown.input_eq hread)
  rw [makeInput_normal] at hmake
  exact absurd hmake (by decide +kernel)

end FastEcu.Definition
