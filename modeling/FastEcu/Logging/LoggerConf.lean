import FastEcu.Data.XmlTree
import FastEcu.Logging.RunSnapshot

/-!
# The logger configuration

`ReadSelection` and `WriteSelection` (`src/backend/logging/logger_conf.cpp`): the selection of an ECU
is an `ecu` element of the `logger` element of the configuration.

* `XmlLibrary` : pugixml, which loads and saves a document.
* `readSelection`, `writeSelection` : the two operations.
-/

namespace FastEcu.Logging

open Calibration (Error ErrorKind invalidConfig)
open Data XmlNode

/-- pugixml: what `load_buffer` and `save` do.  A failed load has a description and an offset. -/
structure XmlLibrary where
  load : Bytes → Except (String × ℕ) (List XmlNode)
  save : List XmlNode → Bytes

/-- `Load`. -/
def loadConf (xml : XmlLibrary) (conf : Bytes) (source : String) : Except Error (List XmlNode) :=
  match xml.load conf with
  | .ok document => .ok document
  | .error (description, offset) => invalidConfig s!"{source}: {description} at offset {offset}"

/-- The node is the `ecu` of an id; an `ecu` without an id has the empty one. -/
def isEcu (ecuId : String) (node : XmlNode) : Bool :=
  decide (node.Named "ecu") && (node.attributeValue "id").getD "" == ecuId

/-- `FindEcu`. -/
def findEcu (logger : Option XmlNode) (ecuId : String) : Option XmlNode :=
  (childrenNamed logger "ecu").find? fun node => (node.attributeValue "id").getD "" == ecuId

/-- `AppendIds`, to an element that has no children yet. -/
def appendIds (parentName elementName : String) (ids : List String) : XmlNode :=
  .element parentName [] (ids.map fun id => .element elementName [("id", id), ("name", "")] [])

/-- `CollectIds`. -/
def collectIds (parent : Option XmlNode) (elementName : String) : List String :=
  (childrenNamed parent elementName).map fun node => (node.attributeValue "id").getD "No id"

/-- The selection that an `ecu` element holds. -/
def selectionOf (ecu : XmlNode) : LoggerSelection :=
  let protocol := child (some ecu) "protocol"
  let parameters := child protocol "parameters"
  { protocol := (protocol.bind (·.attributeValue "id")).getD "No id"
    gaugeIds := collectIds (child parameters "gauges") "parameter"
    lowerPanelIds := collectIds (child parameters "lower_panel") "parameter"
    switchIds := collectIds (child protocol "switches") "switch" }

/-- `ReadSelection`. -/
def readSelection (xml : XmlLibrary) (conf : Bytes) (ecuId source : String) :
    Except Error (Option LoggerSelection) := do
  let document ← loadConf xml conf source
  let ecu := findEcu (child (firstNamed document "config") "logger") ecuId
  return ecu.map selectionOf

/-- The `ecu` element of a selection. -/
def ecuElement (ecuId : String) (selection : LoggerSelection) : XmlNode :=
  .element "ecu" [("id", ecuId)]
    [.element "protocol" [("id", selection.protocol)]
      [.element "parameters" []
          [appendIds "gauges" "parameter" selection.gaugeIds,
            appendIds "lower_panel" "parameter" selection.lowerPanelIds],
        appendIds "switches" "switch" selection.switchIds]]

/-- The `ecu` of the id is removed and the new one put after the sibling before it, or first; an id
that has no `ecu` gets one at the end. -/
def putEcu (ecuId : String) (ecu : XmlNode) (children : List XmlNode) : List XmlNode :=
  match children.findIdx? (isEcu ecuId) with
  | some i =>
    let rest := children.eraseIdx i
    if 0 < i then rest.insertIdx i ecu else ecu :: rest
  | none => children ++ [ecu]

/-- The `logger` element, which is made if there is none, gets the `ecu`. -/
def putLogger (ecuId : String) (ecu : XmlNode) (children : List XmlNode) : List XmlNode :=
  let children :=
    if (firstNamed children "logger").isSome then children else children ++ [.element "logger" [] []]
  updateFirst (fun node => node.Named "logger") (·.mapChildren (putEcu ecuId ecu)) children

/-- The document after `WriteSelection`.  A node that is no element has no children and gets none. -/
def putSelection (ecuId : String) (selection : LoggerSelection) (document : List XmlNode) :
    List XmlNode :=
  updateFirst (fun node => node.Named "config")
    (·.mapChildren (putLogger ecuId (ecuElement ecuId selection))) document

/-- `xml_document::document_element().name()`. -/
def documentElementName (document : List XmlNode) : String :=
  ((document.find? (·.isElement)).bind (·.name?)).getD ""

/-- `WriteSelection`. -/
def writeSelection (xml : XmlLibrary) (conf : Bytes) (ecuId : String) (selection : LoggerSelection)
    (source : String) : Except Error Bytes := do
  let document ← loadConf xml conf source
  if (firstNamed document "config").isNone then
    invalidConfig s!"{source}: root element is <{documentElementName document}>, expected <config>"
  else .ok (xml.save (putSelection ecuId selection document))

/-! ### The `ecu` elements -/

/-- One `ecu` of the `logger` is changed: the first one of the id, or one more at the end. -/
inductive EcuChange (ecuId : String) (ecu : XmlNode) : List XmlNode → List XmlNode → Prop
  | replaced {before after : List XmlNode} {old : XmlNode} (hold : isEcu ecuId old)
      (hbefore : ∀ node ∈ before, ¬ isEcu ecuId node) :
      EcuChange ecuId ecu (before ++ old :: after) (before ++ ecu :: after)
  | appended {children : List XmlNode} (hchildren : ∀ node ∈ children, ¬ isEcu ecuId node) :
      EcuChange ecuId ecu children (children ++ [ecu])

theorem findEcu_some (logger : XmlNode) (ecuId : String) :
    findEcu (some logger) ecuId = logger.children.find? (isEcu ecuId) := by
  unfold findEcu childrenNamed
  rw [List.find?_filter]
  congr 1
  funext node
  rw [isEcu, Bool.decide_and, Bool.decide_eq_true, Bool.decide_eq_true]

section Ecu

variable {ecuId : String} {ecu : XmlNode} {children children' : List XmlNode}

theorem putEcu_of_split {before after : List XmlNode} {old : XmlNode} (hold : isEcu ecuId old)
    (hbefore : ∀ node ∈ before, ¬ isEcu ecuId node) :
    putEcu ecuId ecu (before ++ old :: after) = before ++ ecu :: after := by
  have hindex : (before ++ old :: after).findIdx? (isEcu ecuId) = some before.length := by
    rw [List.findIdx?_append, List.findIdx?_eq_none_iff.2 (by simpa using hbefore)]
    simp [List.findIdx?_cons, hold]
  have hrest : (before ++ old :: after).eraseIdx before.length = before ++ after := by
    rw [List.eraseIdx_append_of_length_le (Nat.le_refl _)]
    simp
  unfold putEcu
  rw [hindex]
  dsimp only
  rw [hrest]
  cases before with
  | nil => rfl
  | cons node before =>
    rw [if_pos (by simp)]
    exact insertIdx_length (node :: before) after ecu

theorem putEcu_of_none (h : ∀ node ∈ children, ¬ isEcu ecuId node) :
    putEcu ecuId ecu children = children ++ [ecu] := by
  unfold putEcu
  rw [List.findIdx?_eq_none_iff.2 (by simpa using h)]

theorem putEcu_change (ecuId : String) (ecu : XmlNode) (children : List XmlNode) :
    EcuChange ecuId ecu children (putEcu ecuId ecu children) := by
  rcases find?_split (isEcu ecuId) children with ⟨before, old, after, rfl, hold, hbefore⟩ | h
  · rw [putEcu_of_split hold hbefore]
    exact .replaced hold hbefore
  · rw [putEcu_of_none h]
    exact .appended h

theorem EcuChange.find (hecu : isEcu ecuId ecu) (h : EcuChange ecuId ecu children children') :
    children'.find? (isEcu ecuId) = some ecu := by
  cases h with
  | replaced hold hbefore => exact find?_of_split hbefore hecu
  | appended hchildren => exact find?_of_split hchildren hecu

/-- The `ecu` of another id is found as before. -/
theorem EcuChange.find_of_ne {other : String} (hecu : ¬ isEcu other ecu) (hother : other ≠ ecuId)
    (h : EcuChange ecuId ecu children children') :
    children'.find? (isEcu other) = children.find? (isEcu other) := by
  cases h with
  | @replaced before after old hold hbefore =>
    have hold' : ¬ isEcu other old := by
      intro hother'
      simp only [isEcu, Bool.and_eq_true, beq_iff_eq] at hold hother'
      exact hother (hother'.2.symm.trans hold.2)
    rw [List.find?_append, List.find?_append, List.find?_cons_of_neg hecu,
      List.find?_cons_of_neg hold']
  | appended hchildren =>
    rw [List.find?_append, List.find?_cons_of_neg hecu, List.find?_nil, Option.or_none]

/-- Once the `ecu` is there, it is put there again. -/
theorem EcuChange.put_again (hecu : isEcu ecuId ecu) (h : EcuChange ecuId ecu children children') :
    putEcu ecuId ecu children' = children' := by
  cases h with
  | replaced hold hbefore => exact putEcu_of_split hecu hbefore
  | appended hchildren => exact putEcu_of_split hecu hchildren

end Ecu

/-! ### The document -/

/-- The `logger` of the configuration is changed, or made. -/
inductive LoggerChange (ecuId : String) (ecu : XmlNode) : List XmlNode → List XmlNode → Prop
  | changed {children children' : List XmlNode}
      (h : ChangedAt "logger" (EcuChange ecuId ecu) children children') :
      LoggerChange ecuId ecu children children'
  | made {children : List XmlNode} (h : ∀ node ∈ children, ¬ node.Named "logger") :
      LoggerChange ecuId ecu children (children ++ [.element "logger" [] [ecu]])

/-- Nothing but the `ecu` of the id is changed. -/
def ConfChange (ecuId : String) (selection : LoggerSelection) : List XmlNode → List XmlNode → Prop :=
  ChangedAt "config" (LoggerChange ecuId (ecuElement ecuId selection))

/-- The nodes that the configuration is found by are elements, and not processing instructions that
have the name of one. -/
def PlainConf (document : List XmlNode) : Prop :=
  ∀ config, firstNamed document "config" = some config →
    config.isElement ∧ ∀ logger, firstNamed config.children "logger" = some logger → logger.isElement

/-- The `ecu` element that `ReadSelection` reads. -/
def storedEcu (document : List XmlNode) (ecuId : String) : Option XmlNode :=
  findEcu (child (firstNamed document "config") "logger") ecuId

section Document

variable {ecuId : String} {ecu : XmlNode} {children children' document document' : List XmlNode}
  {selection : LoggerSelection}

/-- The children of the `logger` that a configuration has. -/
def ecusOf (children : List XmlNode) : List XmlNode := (firstNamed children "logger").elim [] XmlNode.children

theorem storedEcu_eq (document : List XmlNode) (ecuId : String) :
    storedEcu document ecuId =
      (ecusOf ((firstNamed document "config").elim [] XmlNode.children)).find? (isEcu ecuId) := by
  unfold storedEcu child ecusOf
  cases firstNamed ((firstNamed document "config").elim [] XmlNode.children) "logger" with
  | none => rfl
  | some logger => exact findEcu_some logger ecuId

theorem LoggerChange.ecus (h : LoggerChange ecuId ecu children children') :
    EcuChange ecuId ecu (ecusOf children) (ecusOf children') := by
  unfold ecusOf
  cases h with
  | changed h =>
    obtain ⟨before, attributes, ecus, ecus', after, rfl, rfl, hbefore, hchange⟩ := h
    rw [firstNamed_of_element hbefore, firstNamed_of_element hbefore]
    exact hchange
  | made h =>
    have hnone : firstNamed children "logger" = none :=
      List.find?_eq_none.2 fun node hnode => by simpa using h node hnode
    rw [hnone, firstNamed_of_element h]
    exact EcuChange.appended fun node hnode => nomatch hnode

theorem ConfChange.ecus (h : ConfChange ecuId selection document document') :
    EcuChange ecuId (ecuElement ecuId selection)
      (ecusOf ((firstNamed document "config").elim [] XmlNode.children))
      (ecusOf ((firstNamed document' "config").elim [] XmlNode.children)) := by
  obtain ⟨before, attributes, children, children', after, rfl, rfl, hbefore, hchange⟩ := h
  rw [firstNamed_of_element hbefore, firstNamed_of_element hbefore]
  exact hchange.ecus

theorem isEcu_ecuElement (ecuId other : String) (selection : LoggerSelection) :
    isEcu other (ecuElement ecuId selection) ↔ ecuId = other := by
  simp [isEcu, ecuElement, Named, name?, attributeValue, XmlNode.attributes]

theorem collectIds_appendIds (parentName elementName : String) (ids : List String) :
    collectIds (some (appendIds parentName elementName ids)) elementName = ids := by
  have hnamed : childrenNamed (some (appendIds parentName elementName ids)) elementName =
      ids.map fun id => .element elementName [("id", id), ("name", "")] [] :=
    List.filter_eq_self.2 fun node hnode => by
      obtain ⟨id, -, rfl⟩ := List.mem_map.1 hnode
      exact decide_eq_true rfl
  rw [collectIds, hnamed, List.map_map]
  exact List.map_id ids

/-- The selection that was put into an `ecu` element is read back. -/
theorem selectionOf_ecuElement (ecuId : String) (selection : LoggerSelection) :
    selectionOf (ecuElement ecuId selection) = selection := by
  have hgauges := collectIds_appendIds "gauges" "parameter" selection.gaugeIds
  have hlowerPanel := collectIds_appendIds "lower_panel" "parameter" selection.lowerPanelIds
  have hswitches := collectIds_appendIds "switches" "switch" selection.switchIds
  calc selectionOf (ecuElement ecuId selection)
      = ⟨selection.protocol, collectIds (some (appendIds "gauges" "parameter" selection.gaugeIds)) "parameter",
          collectIds (some (appendIds "lower_panel" "parameter" selection.lowerPanelIds)) "parameter",
          collectIds (some (appendIds "switches" "switch" selection.switchIds)) "switch"⟩ := rfl
    _ = selection := by rw [hgauges, hlowerPanel, hswitches]

theorem putLogger_of_split {before after : List XmlNode} {logger : XmlNode}
    (hbefore : ∀ node ∈ before, ¬ node.Named "logger") (hlogger : logger.Named "logger") :
    putLogger ecuId ecu (before ++ logger :: after) =
      before ++ logger.mapChildren (putEcu ecuId ecu) :: after := by
  have hfirst : firstNamed (before ++ logger :: after) "logger" = some logger :=
    find?_of_split (fun b hb => by simpa using hbefore b hb) (decide_eq_true hlogger)
  unfold putLogger
  rw [hfirst]
  exact updateFirst_of_split (fun b hb => by simpa using hbefore b hb) (decide_eq_true hlogger)

theorem putLogger_of_none (h : ∀ node ∈ children, ¬ node.Named "logger") :
    putLogger ecuId ecu children = children ++ [.element "logger" [] [ecu]] := by
  have hnone : firstNamed children "logger" = none :=
    List.find?_eq_none.2 fun node hnode => by simpa using h node hnode
  unfold putLogger
  rw [hnone]
  exact updateFirst_of_split (fun b hb => by simpa using h b hb) (decide_eq_true rfl)

theorem putLogger_change (h : ∀ logger, firstNamed children "logger" = some logger → logger.isElement) :
    LoggerChange ecuId ecu children (putLogger ecuId ecu children) := by
  rcases find?_split (fun node => node.Named "logger") children with
    ⟨before, logger, after, rfl, hlogger, hbefore⟩ | hnone
  · simp only [decide_eq_true_eq] at hlogger hbefore
    rw [putLogger_of_split hbefore hlogger]
    have helement := h logger
      (find?_of_split (fun b hb => by simpa using hbefore b hb) (decide_eq_true hlogger))
    obtain ⟨attributes, ecus, rfl⟩ := eq_element_of_isElement helement hlogger
    exact .changed ⟨before, attributes, ecus, _, after, rfl, rfl, hbefore, putEcu_change ..⟩
  · simp only [decide_eq_true_eq] at hnone
    rw [putLogger_of_none hnone]
    exact .made hnone

theorem LoggerChange.put_again (hecu : isEcu ecuId ecu)
    (h : LoggerChange ecuId ecu children children') : putLogger ecuId ecu children' = children' := by
  cases h with
  | changed h =>
    obtain ⟨before, attributes, ecus, ecus', after, -, rfl, hbefore, hchange⟩ := h
    rw [putLogger_of_split hbefore (named_element ..), mapChildren, hchange.put_again hecu]
  | made h =>
    have hagain : putEcu ecuId ecu ([] ++ [ecu]) = [] ++ [ecu] :=
      putEcu_of_split hecu fun node hnode => (by cases hnode)
    rw [List.nil_append] at hagain
    rw [putLogger_of_split h (named_element ..), mapChildren, hagain]

theorem putSelection_of_split {before after : List XmlNode} {config : XmlNode}
    (hbefore : ∀ node ∈ before, ¬ node.Named "config") (hconfig : config.Named "config") :
    putSelection ecuId selection (before ++ config :: after) =
      before ++ config.mapChildren (putLogger ecuId (ecuElement ecuId selection)) :: after :=
  updateFirst_of_split (fun b hb => by simpa using hbefore b hb) (decide_eq_true hconfig)

/-- The first node that is found by the name. -/
theorem exists_config (h : ∃ attributes children, .element "config" attributes children ∈ document) :
    ∃ before config after, document = before ++ config :: after ∧ config.Named "config" ∧
      (∀ node ∈ before, ¬ node.Named "config") ∧ firstNamed document "config" = some config := by
  rcases find?_split (fun node => node.Named "config") document with
    ⟨before, config, after, rfl, hconfig, hbefore⟩ | hnone
  · simp only [decide_eq_true_eq] at hconfig hbefore
    refine ⟨before, config, after, rfl, hconfig, hbefore, ?_⟩
    exact find?_of_split (fun b hb => by simpa using hbefore b hb) (decide_eq_true hconfig)
  · obtain ⟨attributes, children, hmem⟩ := h
    exact absurd (decide_eq_true rfl) (hnone _ hmem)

theorem putSelection_change (hplain : PlainConf document)
    (hroot : ∃ attributes children, .element "config" attributes children ∈ document) :
    ConfChange ecuId selection document (putSelection ecuId selection document) := by
  obtain ⟨before, config, after, rfl, hconfig, hbefore, hfirst⟩ := exists_config hroot
  obtain ⟨helement, hlogger⟩ := hplain config hfirst
  obtain ⟨attributes, children, rfl⟩ := eq_element_of_isElement helement hconfig
  rw [putSelection_of_split hbefore hconfig]
  exact ⟨before, attributes, children, _, after, rfl, rfl, hbefore, putLogger_change hlogger⟩

theorem ConfChange.put_again (h : ConfChange ecuId selection document document') :
    putSelection ecuId selection document' = document' := by
  obtain ⟨before, attributes, children, children', after, -, rfl, hbefore, hchange⟩ := h
  have hecu : isEcu ecuId (ecuElement ecuId selection) := (isEcu_ecuElement ..).2 rfl
  rw [putSelection_of_split hbefore (named_element ..), mapChildren, hchange.put_again hecu]

/-- A processing instruction that is found in the place of an element is left as it is, and nothing
is stored. -/
theorem putSelection_of_not_plain (ecuId : String) (selection : LoggerSelection)
    (hplain : ¬ PlainConf document) :
    putSelection ecuId selection document = document ∧ storedEcu document ecuId = none := by
  simp only [PlainConf, not_forall] at hplain
  obtain ⟨config, hfirst, hconfig⟩ := hplain
  obtain ⟨hnamed, before, after, rfl, hbefore⟩ := List.find?_eq_some_iff_append.1 hfirst
  simp only [decide_eq_true_eq, Bool.not_eq_true', decide_eq_false_iff_not] at hnamed hbefore
  rw [putSelection_of_split hbefore hnamed, storedEcu_eq, hfirst]
  by_cases helement : config.isElement
  · -- the `logger` of the configuration is the processing instruction
    simp only [not_and, not_forall] at hconfig
    obtain ⟨logger, hlogger, hinstruction⟩ := hconfig helement
    obtain ⟨attributes, children, rfl⟩ := eq_element_of_isElement helement hnamed
    have hecus : ecusOf children = [] := by
      rw [ecusOf, show firstNamed children "logger" = some logger from hlogger]
      exact children_of_not_isElement hinstruction
    obtain ⟨hnamed', before', after', rfl, hbefore'⟩ := List.find?_eq_some_iff_append.1 hlogger
    simp only [decide_eq_true_eq, Bool.not_eq_true', decide_eq_false_iff_not] at hnamed' hbefore'
    constructor
    · rw [mapChildren, putLogger_of_split hbefore' hnamed', mapChildren_of_not_isElement hinstruction]
    · change (ecusOf (before' ++ logger :: after')).find? _ = none
      rw [hecus]
      rfl
  · constructor
    · rw [mapChildren_of_not_isElement helement]
    · change (ecusOf config.children).find? _ = none
      rw [children_of_not_isElement helement]
      rfl

end Document

/-! ### Writing and reading -/

/-- What a write of a selection is to do: the selection is read back, those of other ids and
everything but the `ecu` are as they were, and one more write changes nothing. -/
def Stores (xml : XmlLibrary) (conf : Bytes) (document : List XmlNode) (ecuId : String)
    (selection : LoggerSelection) (source : String) : Prop :=
  ∃ out written, writeSelection xml conf ecuId selection source = .ok out ∧
    xml.load out = .ok written ∧ ConfChange ecuId selection document written ∧
    readSelection xml out ecuId source = .ok (some selection) ∧
    (∀ other, other ≠ ecuId →
      readSelection xml out other source = readSelection xml conf other source) ∧
    writeSelection xml out ecuId selection source = .ok out

section Writing

variable {xml : XmlLibrary} {conf : Bytes} {document : List XmlNode} {ecuId source : String}
  {selection : LoggerSelection}

theorem readSelection_of_load (hload : xml.load conf = .ok document) :
    readSelection xml conf ecuId source = .ok ((storedEcu document ecuId).map selectionOf) := by
  unfold readSelection loadConf
  rw [hload]
  rfl

theorem writeSelection_of_load (hload : xml.load conf = .ok document) {config : XmlNode}
    (hconfig : firstNamed document "config" = some config) :
    writeSelection xml conf ecuId selection source =
      .ok (xml.save (putSelection ecuId selection document)) := by
  unfold writeSelection loadConf
  rw [hload]
  dsimp only [bind, Except.bind]
  rw [hconfig]
  rfl

theorem stores_of_plain (hload : xml.load conf = .ok document)
    (hroot : ∃ attributes children, .element "config" attributes children ∈ document)
    (hsurvives : xml.load (xml.save (putSelection ecuId selection document)) =
      .ok (putSelection ecuId selection document)) (hplain : PlainConf document) :
    Stores xml conf document ecuId selection source := by
  obtain ⟨-, config, -, -, -, -, hconfig⟩ := exists_config hroot
  have hchange : ConfChange ecuId selection document (putSelection ecuId selection document) :=
    putSelection_change hplain hroot
  have hecu : isEcu ecuId (ecuElement ecuId selection) := (isEcu_ecuElement ..).2 rfl
  refine ⟨_, _, writeSelection_of_load hload hconfig, hsurvives, hchange, ?_, fun other hother => ?_, ?_⟩
  · rw [readSelection_of_load hsurvives, storedEcu_eq, hchange.ecus.find hecu, Option.map_some,
      selectionOf_ecuElement]
  · have hother' : ¬ isEcu other (ecuElement ecuId selection) := fun h =>
      hother ((isEcu_ecuElement ..).1 h).symm
    rw [readSelection_of_load hsurvives, readSelection_of_load hload, storedEcu_eq, storedEcu_eq,
      hchange.ecus.find_of_ne hother' hother]
  · obtain ⟨before, attributes, _, children, after, -, hwritten, hbefore, -⟩ := id hchange
    have hconfig' : firstNamed (putSelection ecuId selection document) "config" =
        some (.element "config" attributes children) := by
      rw [hwritten]
      exact firstNamed_of_element hbefore
    rw [writeSelection_of_load hsurvives hconfig', hchange.put_again]

/-- The write succeeds, and nothing is read back. -/
theorem not_stores_of_not_plain (hload : xml.load conf = .ok document)
    (hroot : ∃ attributes children, .element "config" attributes children ∈ document)
    (hsurvives : xml.load (xml.save document) = .ok document) (hplain : ¬ PlainConf document) :
    ¬ Stores xml conf document ecuId selection source := by
  rintro ⟨out, written, hout, -, -, hread, -⟩
  obtain ⟨-, config, -, -, -, -, hconfig⟩ := exists_config hroot
  obtain ⟨hunchanged, hnone⟩ := putSelection_of_not_plain ecuId selection hplain
  rw [writeSelection_of_load hload hconfig, hunchanged] at hout
  cases hout
  rw [readSelection_of_load hsurvives, hnone] at hread
  cases hread

/-- **A selection is stored if no processing instruction is found in the place of the `config` and
the `logger` element.** -/
theorem writeSelection_stores_iff (hload : xml.load conf = .ok document)
    (hroot : ∃ attributes children, .element "config" attributes children ∈ document)
    (hsurvives : xml.load (xml.save (putSelection ecuId selection document)) =
      .ok (putSelection ecuId selection document)) :
    Stores xml conf document ecuId selection source ↔ PlainConf document := by
  constructor
  · intro hstores
    by_contra hplain
    obtain ⟨hunchanged, -⟩ := putSelection_of_not_plain ecuId selection hplain
    rw [hunchanged] at hsurvives
    exact not_stores_of_not_plain hload hroot hsurvives hplain hstores
  · exact stores_of_plain hload hroot hsurvives

/-- The bytes of an ASCII text. -/
def asciiBytes (text : String) : Bytes := text.toList.map fun c => c.toNat.toUInt8

theorem asciiBytes_append (text text' : String) : asciiBytes (text ++ text') = asciiBytes text ++ asciiBytes text' := by
  rw [asciiBytes, String.toList_append, List.map_append]
  rfl

/-- A configuration with a comment and two `ecu` elements of the same id. -/
def sharedIdConf : Bytes :=
  asciiBytes "<config><logger><!-- bench --><ecu id=\"A\"/><ecu id=\"A\"/></logger></config>"

def sharedIdDocument : List XmlNode :=
  [.element "config" []
    [.element "logger" []
      [.comment " bench ", .element "ecu" [("id", "A")] [], .element "ecu" [("id", "A")] []]]]

/-- The configuration after a write. -/
def sharedIdWritten : Bytes :=
  asciiBytes ("<config><logger><!-- bench --><ecu id=\"A\"><protocol id=\"SSM\"><parameters>" ++
    "<gauges><parameter id=\"P8\" name=\"\" /></gauges><lower_panel /></parameters><switches />" ++
    "</protocol></ecu><ecu id=\"A\" /></logger></config>")

def sharedIdSelection : LoggerSelection := ⟨"SSM", ["P8"], [], []⟩

/-- What pugixml does with the two. -/
def sharedIdXml : XmlLibrary where
  load bytes :=
    if bytes = sharedIdConf then .ok sharedIdDocument
    else if bytes = sharedIdWritten then .ok (putSelection "A" sharedIdSelection sharedIdDocument)
    else .error ("No document element found", 0)
  save _ := sharedIdWritten

theorem writeSelection_stores_sharedId :
    Stores sharedIdXml sharedIdConf sharedIdDocument "A" sharedIdSelection "logger.cfg" := by
  have hne : sharedIdWritten ≠ sharedIdConf := by
    rw [sharedIdWritten, asciiBytes_append, asciiBytes_append]
    decide +kernel
  have hload : sharedIdXml.load sharedIdConf = .ok sharedIdDocument := by
    simp only [sharedIdXml, if_true]
  have hsurvives : sharedIdXml.load (sharedIdXml.save
      (putSelection "A" sharedIdSelection sharedIdDocument)) =
      .ok (putSelection "A" sharedIdSelection sharedIdDocument) := by
    simp only [sharedIdXml, hne, if_false, if_true]
  have hplain : PlainConf sharedIdDocument := by
    intro config hconfig
    cases hconfig
    refine ⟨rfl, fun logger hlogger => ?_⟩
    cases hlogger
    rfl
  exact (writeSelection_stores_iff hload ⟨_, _, List.mem_singleton_self _⟩ hsurvives).2 hplain

/-- A configuration that is annotated with a processing instruction. -/
def annotatedConf : Bytes := asciiBytes "<?config bench?><config><logger /></config>"

def annotatedDocument : List XmlNode :=
  [.instruction "config" "bench", .element "config" [] [.element "logger" [] []]]

/-- What pugixml does with it. -/
def annotatedXml : XmlLibrary where
  load bytes :=
    if bytes = annotatedConf then .ok annotatedDocument else .error ("No document element found", 0)
  save _ := annotatedConf

theorem writeSelection_annotated :
    annotatedXml.load annotatedConf = .ok annotatedDocument ∧
    (∃ attributes children, .element "config" attributes children ∈ annotatedDocument) ∧
    annotatedXml.load (annotatedXml.save (putSelection "A" sharedIdSelection annotatedDocument)) =
      .ok (putSelection "A" sharedIdSelection annotatedDocument) ∧
    ¬ Stores annotatedXml annotatedConf annotatedDocument "A" sharedIdSelection "logger.cfg" := by
  have hroot : ∃ attributes children, .element "config" attributes children ∈ annotatedDocument :=
    ⟨_, _, List.mem_cons_of_mem _ (List.mem_singleton_self _)⟩
  have hplain : ¬ PlainConf annotatedDocument := fun h => by
    cases (h (.instruction "config" "bench") rfl).1
  have hload : annotatedXml.load annotatedConf = .ok annotatedDocument := by
    simp only [annotatedXml, if_true]
  obtain ⟨hunchanged, -⟩ := putSelection_of_not_plain "A" sharedIdSelection hplain
  rw [hunchanged]
  exact ⟨hload, hroot, hload, not_stores_of_not_plain hload hroot hload hplain⟩

end Writing

end FastEcu.Logging
