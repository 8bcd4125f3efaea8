import FastEcu.Definition.ParserUtils

/-!
# The definition parsers

`ParseRomraiderDefinition` and `ParseRomraiderIndex` (`src/backend/definition/romraider_parser.cpp`)
and those of EcuFlash (`ecuflash_parser.cpp`).

* `DefinitionIndexEntry` : what the index knows of a definition.
* `parseRomraiderIndex`, `parseEcuflashIndex` : the definitions of a file.
* `parseRomraiderDefinition`, `parseEcuflashDefinition` : one of them.
-/

namespace FastEcu.Definition

open Memory Data
open XmlNode hiding text
open Calibration (Error ErrorKind StorageType invalidConfig)
open Logging (fromCharsWhole)

/-- `IdEncoding`. -/
inductive IdEncoding
  | ascii
  | hex
  | asciiOrHex
deriving DecidableEq, Repr

/-- `DefinitionIndexEntry`. -/
structure DefinitionIndexEntry where
  format : DefinitionFormat
  definitionId : String
  internalId : String
  internalIdAddress : Option DefinitionAddress
  internalIdEncoding : IdEncoding
  ecuId : String
  flashMethod : String
  source : String
  parents : List String
deriving DecidableEq

/-- What pugixml parses from the bytes of a file, or why it does not. -/
abbrev XmlParser := Bytes → Except String (List XmlNode)

/-! ### What the formats share -/

/-- The map of a table and the scalings that it adds. -/
abbrev ParsedTable := UnresolvedCalibrationMap × List UnresolvedScaling

/-- The identity of a map within its definition. -/
def mapIdentity (map : UnresolvedCalibrationMap) : String := map.id.getD map.name

/-- The loop over the tables of a ROM, with what it has so far. -/
def parseTables (source definitionId : String)
    (parseTable : XmlNode → Except Error ParsedTable) :
    List XmlNode → List UnresolvedCalibrationMap → List UnresolvedScaling →
      Except Error (List UnresolvedCalibrationMap × List UnresolvedScaling)
  | [], maps, scalings => .ok (maps, scalings)
  | table :: tables, maps, scalings => do
    let (map, added) ← parseTable table
    if maps.any fun other => mapIdentity other = mapIdentity map then
      invalid source "element <table> attribute 'id' or 'name'"
        s!"duplicate map identity '{mapIdentity map}'" definitionId
    else parseTables source definitionId parseTable tables (maps ++ [map]) (scalings ++ added)

/-! ### RomRaider -/

namespace RomRaider

/-- `AppendSelections`. -/
def selections (parent : XmlNode) : List (String × String) :=
  (childrenNamed (some parent) "state").map (fun state =>
    (selectionName (valueOrEmpty state "name"), valueOrEmpty state "data")) ++ dataSelections parent

/-- The first of the texts that is not empty. -/
def firstText (texts : List String) : String := (texts.find? (· ≠ "")).getD ""

/-- `ParseScaling`. -/
def parseScaling (source definitionId : String) (owner : XmlNode) : ScalingParser :=
  fun node fallbackName => do
    let storageType ← optionalStorageTypeAttribute node "storagetype" source definitionId
    let storageType ←
      if storageType.isSome then pure storageType
      else optionalStorageTypeAttribute owner "storagetype" source definitionId
    return {
      name := firstText [valueOrEmpty node "name", fallbackName]
      units := valueOrEmpty node "units"
      fromByte := presentValue node "expression"
      toByte := presentValue node "to_byte"
      format := presentValue node "format"
      minimum :=
        firstText [valueOrEmpty node "minimum", valueOrEmpty node "min", valueOrEmpty owner "minvalue"]
      maximum :=
        firstText [valueOrEmpty node "maximum", valueOrEmpty node "max", valueOrEmpty owner "maxvalue"]
      coarseIncrement := valueOrEmpty node "coarseincrement"
      fineIncrement := valueOrEmpty node "fineincrement"
      storageType := storageType
      endian := firstText [valueOrEmpty node "endian", valueOrEmpty owner "endian"]
      selections := selections node }

/-- What `ParseTable` makes of a switch: a selectable map whose states are its selections. -/
def selectable (table : XmlNode) (map : UnresolvedCalibrationMap)
    (scaling : Option UnresolvedScaling) :
    UnresolvedCalibrationMap × Option UnresolvedScaling :=
  if map.type = "Switch" then
    let map := { map with type := "Selectable", storageType := some .bloblist }
    match scaling with
    | some scaling => (map, some { scaling with storageType := some .bloblist })
    | none =>
      let name := mapScalingFallbackName map
      ({ map with scalingName := name },
        some { name, selections := selections table, storageType := some .bloblist })
  else (map, scaling)

/-- `ParseTable`. -/
def parseTable (source definitionId : String) (table : XmlNode) : Except Error ParsedTable := do
  let map ← mapHeader table source definitionId
  let map ← populateMapSize table map source definitionId
  let map ← populateMapOrientation table map source definitionId
  let (map, scaling) ← parseMapScaling table map (parseScaling source definitionId table)
  let scaling := scaling.map fun scaling =>
    { scaling with selections := scaling.selections ++ selections table }
  let (map, scaling) := selectable table map scaling
  populateAxes source definitionId (parseScaling source definitionId) table map scaling.toList

/-- `ParentReferences`. -/
def parentReferences (rom : XmlNode) : List String :=
  let parent := trimHeaderText ((rom.attributeValue "base").getD "")
  if parent = "" then [] else [parent]

/-- The entry of the index for a ROM. -/
def indexEntry (source : String) (rom : XmlNode) : Except Error DefinitionIndexEntry := do
  let identity ← parseRomHeader rom source
  return {
    format := .romRaider
    definitionId := identity.xmlId
    internalId := identity.internalId
    internalIdAddress := identity.internalIdAddress
    internalIdEncoding := .asciiOrHex
    ecuId := identity.ecuId
    flashMethod := headerChildText (child (some rom) "romid") "flashmethod"
    source := source
    parents := parentReferences rom }

/-- The loop that selects the ROM of the id. -/
def selectRom (source definitionId : String) :
    List XmlNode → Option XmlNode → Except Error (Option XmlNode)
  | [], selected => .ok selected
  | rom :: roms, selected => do
    let candidateId ← definitionIdForRom rom source
    if candidateId = definitionId then
      if selected.isSome then
        invalid source "element <romid> child <xmlid>" "duplicate definition identity" definitionId
      else selectRom source definitionId roms (some rom)
    else selectRom source definitionId roms selected

/-- The definition of the ROM that was selected. -/
def parseRom (source definitionId : String) (rom : XmlNode) : Except Error UnresolvedDefinition := do
  let identity ← parseRomHeader rom source
  let (maps, scalings) ← parseTables source definitionId (parseTable source definitionId)
    (childrenNamed (some rom) "table") [] []
  return {
    format := .romRaider
    source := source
    identity := identity
    metadata := parseMetadata (child (some rom) "romid")
    parents := parentReferences rom
    maps := maps
    scalings := scalings }

end RomRaider

/-- `ParseRomraiderIndex`. -/
def parseRomraiderIndex (xml : XmlParser) (contents : Bytes) (source : String) :
    Except Error (List DefinitionIndexEntry) := do
  let root ← parseRoot (xml contents) source "roms"
  (childrenNamed (some root) "rom").mapM (RomRaider.indexEntry source)

/-- `ParseRomraiderDefinition`. -/
def parseRomraiderDefinition (xml : XmlParser) (contents : Bytes) (source definitionId : String) :
    Except Error UnresolvedDefinition := do
  if definitionId = "" then
    invalid source "definition ID" "missing or empty required definition identity" ""
  else
    let root ← parseRoot (xml contents) source "roms"
    match ← RomRaider.selectRom source definitionId (childrenNamed (some root) "rom") none with
    | none =>
      invalid source "element <romid> child <xmlid>" "definition ID not found" definitionId
    | some rom => RomRaider.parseRom source definitionId rom

/-! ### EcuFlash -/

namespace EcuFlash

/-- `ConvertValueFormat`: the number of digits between the point and the `f`.  A number that does not
fit in 64 bits does not fit in an `int` either. -/
def convertValueFormat (format : String) : String :=
  match format.toList.dropWhile (· ≠ '.') with
  | [] => "0"
  | _ :: rest =>
    let digits := rest.takeWhile (· ≠ 'f')
    if digits = [] ∨ digits.length = rest.length then "0"
    else
      match digits.mapM (Logging.digitValue 10) with
      | none => "0"
      | some values =>
        let precision := values.foldl (fun n d => n * 10 + d) 0
        if precision = 0 ∨ 2 ^ 31 ≤ precision then "0"
        else "0." ++ String.ofList (List.replicate precision '0')

variable (fineIncrementFrom : String → String)

/-- `ParseScaling`; `FineIncrementFrom` is a parameter, which divides a `double`. -/
def parseScaling (source definitionId : String) : ScalingParser := fun node fallbackName => do
  let storageType ← optionalStorageTypeAttribute node "storagetype" source definitionId
  let coarseIncrement := valueOrEmpty node "inc"
  return {
    name := RomRaider.firstText [valueOrEmpty node "name", fallbackName]
    units := valueOrEmpty node "units"
    fromByte := presentValue node "toexpr"
    toByte := presentValue node "frexpr"
    format := (presentValue node "format").map convertValueFormat
    minimum := valueOrEmpty node "min"
    maximum := valueOrEmpty node "max"
    coarseIncrement := coarseIncrement
    fineIncrement := fineIncrementFrom coarseIncrement
    storageType := storageType
    endian := valueOrEmpty node "endian"
    selections := dataSelections node }

/-- `PopulateDimensions`: an axis table at the top is a 2D map. -/
def populateDimensions (table : XmlNode) (map : UnresolvedCalibrationMap)
    (source definitionId : String) : Except Error UnresolvedCalibrationMap := do
  if map.type ≠ "X Axis" ∧ map.type ≠ "Y Axis" then populateMapSize table map source definitionId
  else
    let elements := (← optionalDimension table "elements" source definitionId).getD 1
    if map.type = "X Axis" then
      return { map with type := "2D", xSize := some elements, ySize := some 1 }
    else return { map with type := "2D", xSize := some 1, ySize := some elements }

/-- `PopulateInlineXAxis`. -/
def populateInlineXAxis (table : XmlNode) (map : UnresolvedCalibrationMap) :
    UnresolvedCalibrationMap :=
  match staticData table with
  | none => map
  | some data =>
    if map.xAxis ≠ {} then map
    else
      let size := UInt32.ofNat data.length
      { map with
        xAxis := { map.xAxis with type := "Static X Axis", staticData := some data, size := some size }
        xSize := some size
        ySize := some 1 }

/-- `ParseTable`. -/
def parseTable (source definitionId : String) (table : XmlNode) : Except Error ParsedTable := do
  let parseScaling := parseScaling fineIncrementFrom source definitionId
  let map ← mapHeader table source definitionId
  let map ← populateDimensions table map source definitionId
  let map ← populateMapOrientation table map source definitionId
  let (map, scaling) ← parseMapScaling table map parseScaling
  let map :=
    if scaling.bind (·.storageType) = some .bloblist then { map with type := "Selectable" } else map
  let (map, scalings) ←
    populateAxes source definitionId (fun _ => parseScaling) table map scaling.toList
  return (populateInlineXAxis table map, scalings)

/-- `ParentReferences`. -/
def parentReferences (rom : XmlNode) : List String :=
  ((childrenNamed (some rom) "include").map fun element =>
    trimHeaderText (readElementText (some element))).filter (· ≠ "")

/-- The loop over the global scalings, with what it has so far. -/
def parseScalings (source definitionId : String) :
    List XmlNode → List UnresolvedScaling → Except Error (List UnresolvedScaling)
  | [], scalings => .ok scalings
  | node :: nodes, scalings => do
    let scaling ← parseScaling fineIncrementFrom source definitionId node ""
    match scalings.find? fun other => scaling.name ≠ "" ∧ other.name = scaling.name with
    | none => parseScalings source definitionId nodes (scalings ++ [scaling])
    | some existing =>
      if existing ≠ scaling then
        invalid source "element <scaling> attribute 'name'"
          s!"conflicting duplicate global scaling '{scaling.name}'" definitionId
      else parseScalings source definitionId nodes scalings

end EcuFlash

/-- `ParseEcuflashIndex`. -/
def parseEcuflashIndex (xml : XmlParser) (contents : Bytes) (source : String) :
    Except Error (List DefinitionIndexEntry) := do
  let rom ← parseRoot (xml contents) source "rom"
  let identity ← parseRomHeader rom source
  return [{
    format := .ecuFlash
    definitionId := identity.xmlId
    internalId := identity.internalId
    internalIdAddress := identity.internalIdAddress
    internalIdEncoding := .asciiOrHex
    ecuId := identity.ecuId
    flashMethod := headerChildText (child (some rom) "romid") "flashmethod"
    source := source
    parents := EcuFlash.parentReferences rom }]

/-- `ParseEcuflashDefinition`. -/
def parseEcuflashDefinition (fineIncrementFrom : String → String) (xml : XmlParser)
    (contents : Bytes) (source : String) : Except Error UnresolvedDefinition := do
  let rom ← parseRoot (xml contents) source "rom"
  let identity ← parseRomHeader rom source
  let scalings ← EcuFlash.parseScalings fineIncrementFrom source identity.xmlId
    (childrenNamed (some rom) "scaling") []
  let (maps, scalings) ← parseTables source identity.xmlId
    (EcuFlash.parseTable fineIncrementFrom source identity.xmlId) (childrenNamed (some rom) "table") []
    scalings
  return {
    format := .ecuFlash
    source := source
    identity := identity
    metadata := parseMetadata (child (some rom) "romid")
    parents := EcuFlash.parentReferences rom
    maps := maps
    scalings := scalings }

end FastEcu.Definition
