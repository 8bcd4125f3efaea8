import FastEcu.Data.XmlViews
import FastEcu.Definition.Parsers

/-!
# Writing definition headers

`CreateEcuflashXml` and `RewriteEcuflashXml` (`src/backend/definition/definition_writer.cpp`), and the
header drafts of `definition_header_fields.cpp`.

* `DefinitionXml` : pugixml, with the flags of the writer and those of the parsers.
* `DefinitionHeaderInput`, `normalizeHeaderInput` : what is written.
* `setUniqueText`, `writeFields`, `writeHeader` : how the tree is edited.
* `createEcuflashXml`, `rewriteEcuflashXml` : the operations.
* `readDefinitionHeader`, `buildDefinitionHeaderInput` : the draft of a header, and what it comes to.
-/

namespace FastEcu.Definition

open Memory Data
open XmlNode hiding text
open Calibration (Error invalidConfig)

/-- pugixml: `load_buffer` with the flags of `RewriteEcuflashXml` and with those of `ParseDocumentRoot`,
and `save`.  A failed load has a description. -/
structure DefinitionXml where
  load : Bytes → Except String (List XmlNode)
  parse : XmlParser
  save : List XmlNode → Bytes

/-! ### What is written -/

/-- `kEditableMetadataFields`. -/
def kEditableMetadataFields : List (String × (RomMetadata → String)) :=
  [("make", (·.make)), ("market", (·.market)), ("model", (·.model)), ("submodel", (·.submodel)),
    ("transmission", (·.transmission)), ("year", (·.year)), ("flashmethod", (·.flashMethod)),
    ("memmodel", (·.memoryModel)), ("checksummodule", (·.checksumModule))]

/-- `DefinitionHeaderInput`. -/
structure DefinitionHeaderInput where
  xmlId : String := ""
  internalId : String := ""
  ecuId : String := ""
  internalIdAddress : Option DefinitionAddress := none
  metadata : RomMetadata := {}
  includeId : String := ""
  notes : String := ""
deriving DecidableEq

/-- The metadata that `NormalizeHeaderInput` leaves. -/
def normalizeMetadata (metadata : RomMetadata) : RomMetadata :=
  { metadata with
    make := trimHeaderText metadata.make
    market := trimHeaderText metadata.market
    model := trimHeaderText metadata.model
    submodel := trimHeaderText metadata.submodel
    transmission := trimHeaderText metadata.transmission
    year := trimHeaderText metadata.year
    flashMethod := trimHeaderText metadata.flashMethod
    memoryModel := trimHeaderText metadata.memoryModel
    checksumModule := trimHeaderText metadata.checksumModule
    fileSize := trimHeaderText metadata.fileSize }

/-- `NormalizeHeaderInput`. -/
def normalizeHeaderInput (input : DefinitionHeaderInput) : DefinitionHeaderInput :=
  { input with
    xmlId := trimHeaderText input.xmlId
    internalId := trimHeaderText input.internalId
    ecuId := trimHeaderText input.ecuId
    includeId := trimHeaderText input.includeId
    metadata := normalizeMetadata input.metadata }

/-- `HasUnrepresentableCharacter`. -/
def hasUnrepresentableCharacter (text : String) : Bool :=
  text.toList.any fun c => c == '\x00' || c == '\r'

/-- The texts of an input that `ValidateRepresentableText` checks, with their names. -/
def representedTexts (input : DefinitionHeaderInput) : List (String × String) :=
  [("XML ID", input.xmlId), ("internal ID", input.internalId), ("ECU ID", input.ecuId),
    ("include", input.includeId), ("notes", input.notes), ("identity notes", input.metadata.notes),
    ("file size", input.metadata.fileSize)] ++
    kEditableMetadataFields.map fun field => (field.1, field.2 input.metadata)

/-- `ValidateRepresentableText`. -/
def validateRepresentableText (input : DefinitionHeaderInput) : Except Error Unit :=
  match (representedTexts input).find? fun field => hasUnrepresentableCharacter field.2 with
  | some field =>
    invalidConfig s!"definition {field.1} cannot contain NUL or carriage return characters"
  | none => .ok ()

/-- `ValidateInput`. -/
def validateInput (input : DefinitionHeaderInput) : Except Error Unit := do
  validateRepresentableText input
  if input.xmlId = "" then invalidConfig "definition XML ID is required"
  else if input.internalId = "" then invalidConfig "definition internal ID is required"
  else if input.ecuId = "" then invalidConfig "definition ECU ID is required"
  else .ok ()

/-! ### The tree -/

/-- `SetUniqueText`, on the children of the parent: the first node of the name gets the text, unless it
is one that holds no children, and the others are removed. -/
def setUniqueText (name value : String) : List XmlNode → List XmlNode
  | [] => [.element name [] [.text value]]
  | node :: nodes =>
    if node.Named name then
      node.mapChildren (fun _ => [.text value]) :: nodes.filter fun other => ¬ other.Named name
    else node :: setUniqueText name value nodes

/-- A field of the header is set, or removed. -/
def setField (field : String × Option String) (nodes : List XmlNode) : List XmlNode :=
  match field.2 with
  | some value => setUniqueText field.1 value nodes
  | none => nodes.filter fun node => ¬ node.Named field.1

/-- The fields are set one after another. -/
def writeFields (fields : List (String × Option String)) (nodes : List XmlNode) : List XmlNode :=
  fields.foldl (fun nodes field => setField field nodes) nodes

/-- `HexText`. -/
def hexText (value : ℕ) : String := String.ofList ('0' :: 'x' :: Nat.toDigits 16 value)

/-- The fields that `UpdateHeader` writes into the `romid` element; the address is the one that
`SetOptionalHex` writes. -/
def identityFields (input : DefinitionHeaderInput) : List (String × Option String) :=
  [("xmlid", some input.xmlId),
    ("internalidaddress", input.internalIdAddress.map fun address => hexText address.value),
    ("internalidstring", some input.internalId), ("ecuid", some input.ecuId)] ++
    kEditableMetadataFields.map (fun field => (field.1, some (field.2 input.metadata))) ++
    [("filesize", some input.metadata.fileSize), ("notes", some input.metadata.notes)]

/-- The fields that it writes into the `rom` element. -/
def romFields (input : DefinitionHeaderInput) : List (String × Option String) :=
  [("include", some input.includeId), ("notes", some input.notes)]

/-- The children of the `rom` element with the header written. -/
def writeHeader (input : DefinitionHeaderInput) (children : List XmlNode) : List XmlNode :=
  let children :=
    if (firstNamed children "romid").isSome then children else .element "romid" [] [] :: children
  writeFields (romFields input)
    (updateFirst (fun node => node.Named "romid") (·.mapChildren (writeFields (identityFields input)))
      children)

/-- `UpdateHeader`. -/
def updateHeader (rawInput : DefinitionHeaderInput) (children : List XmlNode) :
    Except Error (List XmlNode) := do
  let input := normalizeHeaderInput rawInput
  validateInput input
  return writeHeader input children

/-- The node is a declaration. -/
def isDeclaration : XmlNode → Bool
  | .declaration _ => true
  | _ => false

/-- `NormalizeDeclaration`. -/
def normalizeDeclaration (document : List XmlNode) : List XmlNode :=
  .declaration [("version", "1.0"), ("encoding", "UTF-8")] :: document.filter (!isDeclaration ·)

section Operations

variable (xml : DefinitionXml) (fineIncrementFrom : String → String)

/-- The bytes of a document, which end in a line feed. -/
def savedBytes (document : List XmlNode) : Bytes :=
  let bytes := xml.save document
  if bytes.getLast? = some 0x0A then bytes else bytes ++ [0x0A]

/-- `SerializeAndValidate`. -/
def serializeAndValidate (document : List XmlNode) : Except Error Bytes :=
  let result := savedBytes xml (normalizeDeclaration document)
  match parseEcuflashDefinition fineIncrementFrom xml.parse result "generated definition" with
  | .error e => .error e
  | .ok _ => .ok result

/-- `CreateEcuflashXml`. -/
def createEcuflashXml (input : DefinitionHeaderInput) : Except Error Bytes := do
  let children ← updateHeader input []
  serializeAndValidate xml fineIncrementFrom [.element "rom" [] children]

/-- `RewriteEcuflashXml`. -/
def rewriteEcuflashXml (source : Bytes) (input : DefinitionHeaderInput) : Except Error Bytes :=
  match xml.load source with
  | .error description => invalidConfig s!"EcuFlash source XML is malformed: {description}"
  | .ok document =>
    match document.find? (·.isElement) with
    | none => invalidConfig "EcuFlash source root must be <rom>"
    | some root =>
      if ¬ root.Named "rom" then invalidConfig "EcuFlash source root must be <rom>"
      else if 1 < (named "romid" root.children).length then
        invalidConfig "EcuFlash source element <rom>: duplicate top-level <romid> elements"
      else do
        let children ← updateHeader input root.children
        serializeAndValidate xml fineIncrementFrom
          (updateFirst (·.isElement) (·.mapChildren fun _ => children) document)

end Operations

/-! ### Drafts -/

/-- `DefinitionHeaderDraft`. -/
structure DefinitionHeaderDraft where
  xmlId : String := ""
  internalId : String := ""
  ecuId : String := ""
  internalIdAddressText : String := ""
  metadata : RomMetadata := {}
  includeId : String := ""
  notes : String := ""
deriving DecidableEq

/-- `ParseDocumentRoot`. -/
def parseDocumentRoot (document : Except String (List XmlNode)) (source : String) :
    Except Error XmlNode :=
  match document with
  | .error description => invalid source "XML document" s!"malformed XML: {description}" ""
  | .ok nodes =>
    match nodes.filter (·.isElement) with
    | [root] => .ok root
    | _ => invalid source "XML document" "expected one document root" ""

/-- The `rom` element of which a header is read. -/
def headerRom (root : XmlNode) : Option XmlNode :=
  if root.Named "rom" then some root
  else if root.Named "roms" then child (some root) "rom"
  else none

/-- The metadata of a draft, which are the fields of `kEditableMetadataFields`. -/
def draftMetadata (romId : Option XmlNode) : RomMetadata where
  make := headerChildText romId "make"
  market := headerChildText romId "market"
  model := headerChildText romId "model"
  submodel := headerChildText romId "submodel"
  transmission := headerChildText romId "transmission"
  year := headerChildText romId "year"
  flashMethod := headerChildText romId "flashmethod"
  memoryModel := headerChildText romId "memmodel"
  checksumModule := headerChildText romId "checksummodule"

/-- The draft of a header. -/
def draftOf (rom : XmlNode) : DefinitionHeaderDraft where
  xmlId := headerChildText (child (some rom) "romid") "xmlid"
  internalId := headerChildText (child (some rom) "romid") "internalidstring"
  ecuId := headerChildText (child (some rom) "romid") "ecuid"
  internalIdAddressText := headerChildText (child (some rom) "romid") "internalidaddress"
  metadata := draftMetadata (child (some rom) "romid")
  includeId := headerChildText (some rom) "include"
  notes := headerChildText (some rom) "notes"

/-- `ReadDefinitionHeader`. -/
def readDefinitionHeader (xml : XmlParser) (contents : Bytes) : Except Error DefinitionHeaderDraft := do
  let root ← parseDocumentRoot (xml contents) "authoring header"
  match headerRom root with
  | none =>
    invalid "authoring header" "XML document" "expected <rom> or a direct <rom> child of <roms>" ""
  | some rom => do
    validateHeaderStructure rom "authoring header"
    return draftOf rom

/-- `BuildDefinitionHeaderInput`. -/
def buildDefinitionHeaderInput (draft : DefinitionHeaderDraft) : Except Error DefinitionHeaderInput := do
  let address ← parseHeaderAddress draft.internalIdAddressText "authoring header" ""
  return normalizeHeaderInput {
    xmlId := draft.xmlId
    internalId := draft.internalId
    ecuId := draft.ecuId
    internalIdAddress := address
    metadata := draft.metadata
    includeId := draft.includeId
    notes := draft.notes }

end FastEcu.Definition
