import FastEcu.Data.XmlTree
import FastEcu.Definition.Resolver
import FastEcu.Logging.Preparation

/-!
# What the definition parsers share

The header and table readers of `src/backend/definition/parser_utils.cpp` and the text functions of
`text_format.cpp`.  A text is the list of its bytes, each as the character of that code; the nodes
are what pugixml has parsed.

* `bind_eq_ok`, `mem_of_mapM` : steps that succeed one after another.
* `trimCopy`, `trimHeaderText`, `parseHexValue` : texts.
* `definitionIdForRom`, `parseRomHeader`, `parseMetadata` : the header of a ROM.
* `populateMapHeader`, `parseMapScaling`, `parseAxisDefinition`, `populateAxes` : the parts of a table.
-/

namespace FastEcu.Definition

open Memory Data
open XmlNode hiding text
open Calibration (Error ErrorKind StorageType invalidConfig)
open Logging (fromCharsWhole)

/-! ### Steps that may fail -/

theorem bind_eq_ok {α β : Type} {x : Except Error α} {f : α → Except Error β} {b : β} :
    (x >>= f) = .ok b ↔ ∃ a, x = .ok a ∧ f a = .ok b := by
  cases x with
  | error e =>
    constructor
    · intro h
      cases h
    · rintro ⟨a, h, -⟩
      cases h
  | ok a =>
    constructor
    · exact fun h => ⟨a, rfl, h⟩
    · rintro ⟨a', h, hf⟩
      cases h
      exact hf

/-- What a loop that succeeds has collected. -/
theorem mem_of_mapM {α β : Type} {f : α → Except Error β} {l : List α} {bs : List β}
    (h : l.mapM f = .ok bs) {b : β} (hb : b ∈ bs) : ∃ a ∈ l, f a = .ok b := by
  induction l generalizing bs with
  | nil =>
    cases h
    cases hb
  | cons a l ih =>
    rw [List.mapM_cons] at h
    obtain ⟨first, hfirst, h⟩ := bind_eq_ok.1 h
    obtain ⟨rest, hrest, h⟩ := bind_eq_ok.1 h
    cases h
    rcases List.mem_cons.1 hb with rfl | hb
    · exact ⟨a, List.mem_cons_self .., hfirst⟩
    · obtain ⟨a', hmem, ha'⟩ := ih hrest hb
      exact ⟨a', List.mem_cons_of_mem _ hmem, ha'⟩

/-! ### Texts -/

/-- `TrimCopy`. -/
def trimCopy (value : String) : String := String.ofList (Expression.trimmed value.toList)

/-- `kWhitespace`: the UTF-8 encodings of white space. -/
def kWhitespace : List (List Char) :=
  [[' '], ['\t'], ['\n'], ['\x0b'], ['\x0c'], ['\r'], ['\xc2', '\x85'], ['\xc2', '\xa0'],
    ['\xe1', '\x9a', '\x80'], ['\xe2', '\x80', '\x80'], ['\xe2', '\x80', '\x81'],
    ['\xe2', '\x80', '\x82'], ['\xe2', '\x80', '\x83'], ['\xe2', '\x80', '\x84'],
    ['\xe2', '\x80', '\x85'], ['\xe2', '\x80', '\x86'], ['\xe2', '\x80', '\x87'],
    ['\xe2', '\x80', '\x88'], ['\xe2', '\x80', '\x89'], ['\xe2', '\x80', '\x8a'],
    ['\xe2', '\x80', '\xa8'], ['\xe2', '\x80', '\xa9'], ['\xe2', '\x80', '\xaf'],
    ['\xe2', '\x81', '\x9f'], ['\xe3', '\x80', '\x80']]

/-- One of the spaces is taken from the front, as long as there is one; each takes a character at
least, so the length is enough fuel. -/
def stripSpaces (spaces : List (List Char)) : ℕ → List Char → List Char
  | 0, text => text
  | fuel + 1, text =>
    match spaces.find? fun space => space.isPrefixOf text with
    | some space => stripSpaces spaces fuel (text.drop space.length)
    | none => text

/-- `TrimHeaderText`. -/
def trimHeaderText (text : String) : String :=
  let front := stripSpaces kWhitespace text.toList.length text.toList
  let back := stripSpaces (kWhitespace.map List.reverse) front.length front.reverse
  String.ofList back.reverse

/-- `ParseHexValue`. -/
def parseHexValue (text : String) : Option ℕ :=
  match Expression.trimmed text.toList with
  | '0' :: 'x' :: digits => fromCharsWhole 16 (2 ^ 64) digits
  | '0' :: 'X' :: digits => fromCharsWhole 16 (2 ^ 64) digits
  | digits => fromCharsWhole 16 (2 ^ 64) digits

/-- `DetailPrefix`. -/
def detailOf (source definitionId : String) : String :=
  let detail := s!"EcuFlash/RomRaider source '{source}'"
  (if definitionId = "" then detail else detail ++ s!", definition '{definitionId}'") ++ ": "

/-- `Invalid`. -/
def invalid {β : Type} (source context message definitionId : String) : Except Error β :=
  invalidConfig (detailOf source definitionId ++ context ++ ": " ++ message)

/-! ### The header of a ROM -/

/-- `ReadElementText`; the null node has no text. -/
def readElementText (element : Option XmlNode) : String :=
  (element.elim [] children).foldl (fun (text : String) (node : XmlNode) =>
    match node with
    | .text value | .cdata value => text ++ value
    | _ => text) ""

/-- `HeaderChildText`. -/
def headerChildText (parent : Option XmlNode) (name : String) : String :=
  let text := readElementText (child parent name)
  if name = "notes" then text else trimHeaderText text

/-- `kSingletonChildren`. -/
def kSingletonChildren : List String :=
  ["xmlid", "internalidaddress", "internalidstring", "ecuid", "make", "market", "model", "submodel",
    "transmission", "year", "flashmethod", "memmodel", "checksummodule", "filesize", "notes"]

/-- The name of a node for a message. -/
def nameText (node : Option XmlNode) : String := (node.bind (·.name?)).getD ""

/-- The loops of `ValidateHeaderStructure`: the first field that has a nested element. -/
def validateFields (parent : Option XmlNode) (names : List String) (source : String) :
    Except Error Unit :=
  match names.find? fun name =>
      (childrenNamed parent name).any fun element => element.children.any (·.isElement) with
  | some name =>
    invalid source s!"element <{nameText parent}> child <{name}>"
      "nested elements are not allowed in header text" ""
  | none => .ok ()

/-- `ValidateHeaderStructure`. -/
def validateHeaderStructure (rom : XmlNode) (source : String) : Except Error Unit := do
  validateFields (child (some rom) "romid") kSingletonChildren source
  validateFields (some rom) ["include", "notes"] source

/-- `IdentityElement`. -/
def identityElement (rom : XmlNode) (source : String) : Except Error XmlNode := do
  validateHeaderStructure rom source
  match childrenNamed (some rom) "romid" with
  | [] => invalid source "element <rom> child <romid>" "missing required identity element" ""
  | [romId] =>
    match kSingletonChildren.find? fun name => 1 < (childrenNamed (some romId) name).length with
    | some name =>
      invalid source s!"element <romid> child <{name}>" "duplicate singleton identity element" ""
    | none => .ok romId
  | _ => invalid source "element <rom> child <romid>" "duplicate singleton identity element" ""

/-- `RequiredChildText`. -/
def requiredChildText (parent : XmlNode) (parentName childName source : String) :
    Except Error String :=
  let value := headerChildText (some parent) childName
  if value = "" then
    invalid source s!"element <{parentName}> child <{childName}>" "missing or empty required text" ""
  else .ok value

/-- `DefinitionIdForRom`. -/
def definitionIdForRom (rom : XmlNode) (source : String) : Except Error String := do
  let romId ← identityElement rom source
  requiredChildText romId "romid" "xmlid" source

/-- `DefinitionAddressFrom`. -/
def definitionAddressFrom (value : ℕ) (text source context definitionId : String) :
    Except Error DefinitionAddress :=
  if h : value < u32Size then .ok ⟨value, h⟩
  else
    invalid source context s!"invalid hexadecimal unsigned value '{text}': does not fit 32 bits"
      definitionId

/-- `ParseHeaderAddress`. -/
def parseHeaderAddress (text source definitionId : String) :
    Except Error (Option DefinitionAddress) :=
  let text := trimHeaderText text
  let context := "element <romid> child <internalidaddress>"
  if text = "" then .ok none
  else
    let text :=
      match text.toList with
      | '+' :: rest => String.ofList rest
      | _ => text
    match if trimHeaderText text = text then parseHexValue text else none with
    | none => invalid source context s!"invalid hexadecimal unsigned value '{text}'" definitionId
    | some parsed => do
      let address ← definitionAddressFrom parsed text source context definitionId
      return some address

/-- `ParseRomHeader`: the identity of a ROM. -/
def parseRomHeader (rom : XmlNode) (source : String) : Except Error RomIdentity := do
  let definitionId ← definitionIdForRom rom source
  let romId := child (some rom) "romid"
  let address ← parseHeaderAddress (readElementText (child romId "internalidaddress")) source definitionId
  return {
    xmlId := definitionId
    internalId := headerChildText romId "internalidstring"
    ecuId := headerChildText romId "ecuid"
    internalIdAddress := address }

/-- `ParseMetadata`, with `kEditableMetadataFields`. -/
def parseMetadata (romId : Option XmlNode) : RomMetadata where
  make := headerChildText romId "make"
  market := headerChildText romId "market"
  model := headerChildText romId "model"
  submodel := headerChildText romId "submodel"
  transmission := headerChildText romId "transmission"
  year := headerChildText romId "year"
  flashMethod := headerChildText romId "flashmethod"
  memoryModel := headerChildText romId "memmodel"
  checksumModule := headerChildText romId "checksummodule"
  fileSize := headerChildText romId "filesize"
  notes := headerChildText romId "notes"

/-- `ParseRoot`, with `ParseDocumentRoot`; the document is what pugixml gives, or why it gives none. -/
def parseRoot (document : Except String (List XmlNode)) (source rootName : String) :
    Except Error XmlNode :=
  match document with
  | .error description => invalid source "XML document" s!"malformed XML: {description}" ""
  | .ok nodes =>
    match nodes.filter (·.isElement) with
    | [root] =>
      if root.Named rootName then .ok root
      else
        invalid source s!"root element <{rootName}>" s!"wrong root; found <{nameText (some root)}>" ""
    | _ => invalid source "XML document" "expected one document root" ""

/-! ### Attributes -/

/-- `ValueOrEmpty`; an attribute that is missing has the empty value. -/
def valueOrEmpty (node : XmlNode) (name : String) : String :=
  trimCopy ((node.attributeValue name).getD "")

/-- The context of a message about an attribute. -/
def attributeContext (node : XmlNode) (name : String) : String :=
  s!"element <{nameText (some node)}> attribute '{name}'"

/-- `StorageTypeFromText`. -/
def storageTypeFromText : String → Option StorageType
  | "uint8" => some .uint8
  | "int8" => some .int8
  | "uint16" => some .uint16
  | "int16" => some .int16
  | "uint24" => some .uint24
  | "int24" => some .int24
  | "uint32" => some .uint32
  | "int32" => some .int32
  | "float" => some .float
  | "bloblist" => some .bloblist
  | _ => none

/-- `OptionalStorageTypeAttribute`. -/
def optionalStorageTypeAttribute (node : XmlNode) (name source definitionId : String) :
    Except Error (Option StorageType) :=
  let text := valueOrEmpty node name
  if text = "" then .ok none
  else
    match storageTypeFromText text with
    | some type => .ok (some type)
    | none =>
      invalid source (attributeContext node name) s!"unrecognized storage type '{text}'" definitionId

/-- `OptionalHexAttribute`. -/
def optionalHexAttribute (node : XmlNode) (name source definitionId : String) :
    Except Error (Option ℕ) :=
  match node.attributeValue name with
  | none => .ok none
  | some value =>
    match parseHexValue value with
    | some parsed => .ok (some parsed)
    | none =>
      invalid source (attributeContext node name)
        s!"invalid hexadecimal unsigned value '{trimCopy value}'" definitionId

/-- `OptionalAddress`. -/
def optionalAddress (node : XmlNode) (source definitionId : String) :
    Except Error (Option DefinitionAddress) := do
  let name := if (node.attributeValue "address").isSome then "address" else "storageaddress"
  match ← optionalHexAttribute node name source definitionId with
  | none => return none
  | some value =>
    let address ← definitionAddressFrom value (valueOrEmpty node name) source
      (attributeContext node name) definitionId
    return some address

/-- `OptionalHexAttribute32` and `PopulateOptionalHexDimension`. -/
def optionalHexAttribute32 (node : XmlNode) (name source definitionId : String) :
    Except Error (Option UInt32) := do
  match ← optionalHexAttribute node name source definitionId with
  | none => return none
  | some value =>
    if value < 2 ^ 32 then return some (UInt32.ofNat value)
    else
      invalid source (attributeContext node name)
        s!"hexadecimal value '{value}' does not fit in 32 bits" definitionId

/-- `DimensionAttribute`, of an attribute that is there. -/
def parseDimension (node : XmlNode) (name source definitionId : String) : Except Error UInt32 :=
  let value := valueOrEmpty node name
  match fromCharsWhole 10 (2 ^ 64) value.toList with
  | some parsed =>
    if parsed = 0 ∨ 2 ^ 32 ≤ parsed then
      invalid source (attributeContext node name) s!"invalid positive dimension '{value}'" definitionId
    else .ok (UInt32.ofNat parsed)
  | none =>
    invalid source (attributeContext node name) s!"invalid positive dimension '{value}'" definitionId

/-- `PopulateOptionalDimension`. -/
def optionalDimension (node : XmlNode) (name source definitionId : String) :
    Except Error (Option UInt32) := do
  if (node.attributeValue name).isSome then
    let dimension ← parseDimension node name source definitionId
    return some dimension
  else return none

/-- `StrictBooleanAttribute` and `PopulateOptionalBoolean`. -/
def optionalBoolean (node : XmlNode) (name source definitionId : String) :
    Except Error (Option Bool) :=
  match node.attributeValue name with
  | none => .ok none
  | some "true" => .ok (some true)
  | some "false" => .ok (some false)
  | some value =>
    invalid source (attributeContext node name)
      s!"invalid strict boolean '{value}'; expected 'true' or 'false'" definitionId

/-! ### Tables -/

/-- `TableElementText`: the first text that is not blank, or the first CDATA section. -/
def tableElementText (element : Option XmlNode) : String :=
  ((element.elim [] children).findSome? fun node =>
    match node with
    | .cdata value => some (trimCopy value)
    | .text value => if trimCopy value = "" then none else some (trimCopy value)
    | _ => none).getD ""

/-- `SelectionName`. -/
def selectionName (name : String) : String :=
  if name = "on" then "enabled" else if name = "off" then "disabled" else name

/-- `AppendDataSelections`: the selections of the `data` children. -/
def dataSelections (parent : XmlNode) : List (String × String) :=
  (childrenNamed (some parent) "data").map fun data =>
    let value := valueOrEmpty data "value"
    (selectionName (valueOrEmpty data "name"), if value = "" then valueOrEmpty data "data" else value)

/-- The texts of the `data` children, if there are any. -/
def staticData (table : XmlNode) : Option (List String) :=
  match childrenNamed (some table) "data" with
  | [] => none
  | nodes => some (nodes.map fun data => tableElementText (some data))

/-- The value of an attribute that is there. -/
def presentValue (node : XmlNode) (name : String) : Option String :=
  (node.attributeValue name).map trimCopy

/-- `PopulateCommonAxisAttributes`. -/
def commonAxisAttributes (table : XmlNode) (source definitionId : String) :
    Except Error UnresolvedAxisDefinition := do
  let storageType ← optionalStorageTypeAttribute table "storagetype" source definitionId
  let startPosition ← optionalHexAttribute32 table "startpos" source definitionId
  let interval ← optionalHexAttribute32 table "interval" source definitionId
  return {
    type := valueOrEmpty table "type"
    name := valueOrEmpty table "name"
    storageType := storageType
    endian := valueOrEmpty table "endian"
    startPosition := startPosition
    interval := interval
    logParameter := presentValue table "logparam"
    staticData := staticData table }

/-- `ApplyScalingToAxis`. -/
def applyScalingToAxis (scaling : UnresolvedScaling) (axis : UnresolvedAxisDefinition) :
    UnresolvedAxisDefinition :=
  { axis with
    scalingName := scaling.name
    units := scaling.units
    format := scaling.format.getD axis.format
    fromByte := scaling.fromByte
    toByte := scaling.toByte
    storageType := axis.storageType <|> scaling.storageType
    endian := if axis.endian = "" then scaling.endian else axis.endian }

/-- `PopulateCommonMapAttributes`. -/
def commonMapAttributes (table : XmlNode) (source definitionId : String) :
    Except Error UnresolvedCalibrationMap := do
  let description := valueOrEmpty table "description"
  let storageType ← optionalStorageTypeAttribute table "storagetype" source definitionId
  let startPosition ← optionalHexAttribute32 table "startpos" source definitionId
  let interval ← optionalHexAttribute32 table "interval" source definitionId
  return {
    id := presentValue table "id"
    name := valueOrEmpty table "name"
    type := valueOrEmpty table "type"
    category := valueOrEmpty table "category"
    subcategory := valueOrEmpty table "subcategory"
    description :=
      if description = "" then tableElementText (child (some table) "description") else description
    level := valueOrEmpty table "level"
    userLevel := valueOrEmpty table "userlevel"
    storageType := storageType
    endian := valueOrEmpty table "endian"
    startPosition := startPosition
    interval := interval
    logParameter := presentValue table "logparam" }

/-- `PopulateMapHeader`. -/
def mapHeader (table : XmlNode) (source definitionId : String) :
    Except Error UnresolvedCalibrationMap := do
  let map ← commonMapAttributes table source definitionId
  if map.name = "" then
    invalid source "element <table> attribute 'name'" "missing or empty map name" definitionId
  else
    let address ← optionalAddress table source definitionId
    return { map with address := address }

/-- `PopulateMapSize`. -/
def populateMapSize (table : XmlNode) (map : UnresolvedCalibrationMap) (source definitionId : String) :
    Except Error UnresolvedCalibrationMap := do
  let xSize ← optionalDimension table "sizex" source definitionId
  let ySize ← optionalDimension table "sizey" source definitionId
  return { map with xSize := xSize <|> map.xSize, ySize := ySize <|> map.ySize }

/-- `PopulateMapOrientation`. -/
def populateMapOrientation (table : XmlNode) (map : UnresolvedCalibrationMap)
    (source definitionId : String) : Except Error UnresolvedCalibrationMap := do
  let swapXY ← optionalBoolean table "swapxy" source definitionId
  let flipX ← optionalBoolean table "flipx" source definitionId
  let flipY ← optionalBoolean table "flipy" source definitionId
  return { map with swapXY := swapXY, flipX := flipX, flipY := flipY }

/-- `MapScalingFallbackName`. -/
def mapScalingFallbackName (map : UnresolvedCalibrationMap) : String :=
  if map.scalingName = "" then map.id.getD map.name else map.scalingName

/-- `AdoptInlineScaling`. -/
def adoptInlineScaling (scaling : UnresolvedScaling) (map : UnresolvedCalibrationMap) :
    UnresolvedCalibrationMap :=
  { map with
    scalingName := scaling.name
    storageType := map.storageType <|> scaling.storageType
    endian := if map.endian = "" then scaling.endian else map.endian }

/-- How a format reads a `scaling` element, with the name of one that has none. -/
abbrev ScalingParser := XmlNode → String → Except Error UnresolvedScaling

/-- `ParseMapScaling`. -/
def parseMapScaling (table : XmlNode) (map : UnresolvedCalibrationMap)
    (parseScaling : ScalingParser) :
    Except Error (UnresolvedCalibrationMap × Option UnresolvedScaling) := do
  let map := { map with scalingName := valueOrEmpty table "scaling" }
  match child (some table) "scaling" with
  | none => return (map, none)
  | some node =>
    let scaling ← parseScaling node (mapScalingFallbackName map)
    return (adoptInlineScaling scaling map, some scaling)

/-- `ParseAxisDefinition`: the axis and the scalings that it adds. -/
def parseAxisDefinition (table : XmlNode) (source definitionId : String)
    (parseScaling : ScalingParser) :
    Except Error (UnresolvedAxisDefinition × List UnresolvedScaling) := do
  let axis ← commonAxisAttributes table source definitionId
  if axis.name = "" then
    invalid source s!"element <table> type '{axis.type}' attribute 'name'" "missing or empty axis name"
      definitionId
  else
    let address ← optionalAddress table source definitionId
    let sizeName := if (table.attributeValue "elements").isSome then "elements" else "size"
    let size ← optionalDimension table sizeName source definitionId
    let axis := { axis with address := address, size := size, scalingName := valueOrEmpty table "scaling" }
    match child (some table) "scaling" with
    | none => return (axis, [])
    | some node =>
      let scaling ← parseScaling node (if axis.scalingName = "" then axis.name else axis.scalingName)
      return (applyScalingToAxis scaling axis, [scaling])

/-- `FillsXAxisSlot`. -/
def fillsXAxisSlot (type mapType : String) : Bool :=
  type == "X Axis" || type == "Static X Axis" || type == "Static Y Axis" ||
    (type == "Y Axis" && mapType == "2D")

/-- `NormalizeXAxis`. -/
def normalizeXAxis (axis : UnresolvedAxisDefinition) (transposed : Bool) (length : UInt32) :
    UnresolvedAxisDefinition :=
  { axis with
    type := if axis.type = "Static Y Axis" then "Static X Axis" else axis.type
    size := if transposed && axis.size.isNone then some length else axis.size }

/-- What `PopulateAxes` has after some of the axis tables. -/
structure AxesState where
  map : UnresolvedCalibrationMap
  scalings : List UnresolvedScaling
  xAxisPopulated : Bool := false
  yAxisPopulated : Bool := false

/-- One axis table of `PopulateAxes`. -/
def populateAxis (source definitionId : String) (parseScaling : XmlNode → ScalingParser)
    (state : AxesState) (table : XmlNode) : Except Error AxesState := do
  let type := valueOrEmpty table "type"
  let xSlot := fillsXAxisSlot type state.map.type
  if !xSlot && type != "Y Axis" then return state
  else if (if xSlot then state.xAxisPopulated else state.yAxisPopulated) then
    let slot := if xSlot then "X" else "Y"
    invalid source s!"element <table> child <table> type '{type}'"
      s!"second axis targets already-populated {slot} axis slot" definitionId
  else
    let transposed := xSlot && (type == "Static Y Axis" || type == "Y Axis")
    let map := if transposed then { state.map with xSize := state.map.ySize, ySize := some 1 } else state.map
    let (axis, scalings) ← parseAxisDefinition table source definitionId (parseScaling table)
    if xSlot then
      let axis := normalizeXAxis axis transposed (map.xSize.getD 1)
      return { state with
        map := { map with xAxis := axis }
        scalings := state.scalings ++ scalings
        xAxisPopulated := true }
    else
      return { state with
        map := { map with yAxis := axis }
        scalings := state.scalings ++ scalings
        yAxisPopulated := true }

/-- `PopulateAxes`. -/
def populateAxes (source definitionId : String) (parseScaling : XmlNode → ScalingParser)
    (table : XmlNode) (map : UnresolvedCalibrationMap) (scalings : List UnresolvedScaling) :
    Except Error (UnresolvedCalibrationMap × List UnresolvedScaling) := do
  let state ← (childrenNamed (some table) "table").foldlM (populateAxis source definitionId parseScaling)
    { map, scalings }
  return (state.map, state.scalings)

end FastEcu.Definition
