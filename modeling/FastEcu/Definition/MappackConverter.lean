import FastEcu.Definition.MappackCsv
import FastEcu.Definition.Parsers

/-!
# Converting a map pack

`ConvertMappackCsv` (`src/backend/definition/mappack_converter.cpp`) makes a RomRaider document of a map
pack: a base ROM with a table for each row, and a ROM of the ECU with the addresses of the tables.

* `MapRow` : a row of the pack, with the columns that it is read by.
* `parseColumns`, `scalingPrecision`, `storageAddress` : what is checked of the header and of a row.
* `appendAxis`, `appendMap` : the tables of a row.
* `mappackDocument`, `convertMappackCsv` : the document and its text.
-/

namespace FastEcu.Definition

open Data
open XmlNode hiding text
open Calibration (Error invalidConfig)
open Logging (fromCharsWhole)

/-- `Invalid`, with the name of the column. -/
def invalidColumn {β : Type} (row : ℕ) (column reason : String) : Except Error β :=
  invalidConfig s!"CSV row {row}, column {column}: {reason}"

/-! ### Numbers -/

/-- `ParseNumber` of an `int`. -/
def parseInt (text : List Char) : Option ℤ :=
  match text with
  | '-' :: digits => (fromCharsWhole 10 (2147483648 + 1) digits).map fun n : ℕ => -(n : ℤ)
  | digits => (fromCharsWhole 10 2147483648 digits).map fun n : ℕ => (n : ℤ)

/-- `Decimal`. -/
def decimal (value : List Char) : List Char := value.map fun ch => if ch = ',' then '.' else ch

/-! ### Elements -/

/-- `Storage`. -/
def storage (org : String) : List (String × String) :=
  [("storagetype", if org = "eHiLo" then "uint16" else if org = "eHiLoHiLo" then "uint32" else "uint8"),
    ("endian", "big")]

/-- `Scaling`. -/
def scaling (units : String) (factor : List Char) (precision : ℕ) : XmlNode :=
  .element "scaling"
    [("units", units), ("expression", "x*" ++ String.ofList (decimal factor)),
      ("to_byte", "x/" ++ String.ofList (decimal factor)),
      ("format", if precision = 0 then "#" else "#0." ++ String.ofList (List.replicate precision '0')),
      ("fineincrement", "1"), ("coarseincrement", "1")] []

/-- The fields that `RomId` adds without a text. -/
def emptyFields : List String :=
  ["internalidaddress", "internalidstring", "ecuid", "year", "market", "make", "model", "submodel",
    "transmission", "memmodel", "flashmethod", "filesize", "checksummodule"]

/-- `RomId`, with the texts that some of the fields are given afterwards. -/
def romIdNode (id : String) (texts : List (String × String)) : XmlNode :=
  .element "romid" [] (.element "xmlid" [] [.text id] :: emptyFields.map fun name =>
    .element name [] ((texts.filter fun field => field.1 = name).map fun field => .text field.2))

/-! ### Rows -/

/-- The names of the columns, without the empty one that a separator at the end of the header leaves. -/
def headerColumns (header : Row) : Row := if header.getLast? = some [] then header.dropLast else header

/-- `ParseColumns`. -/
def parseColumns (header : Row) : Except Error Row :=
  let columns := headerColumns header
  match columns.zipIdx.find? fun column => column.1 ∈ columns.take column.2 with
  | some column => invalidColumn 1 (String.ofList column.1) "duplicate header"
  | none =>
    match ["Name", "FolderName", "DataOrg", "Columns", "Rows", "Fieldvalues.Name", "Fieldvalues.Unit",
        "Fieldvalues.Factor", "Precision", "Fieldvalues.StartAddr", "Comment"].find?
        fun name => name.toList ∉ columns with
    | some name => invalidColumn 1 name "missing required header"
    | none => .ok columns

/-- `MapRow`. -/
structure MapRow where
  fields : Row
  columns : Row
  number : ℕ

/-- A column that the header has. -/
def MapRow.contains (row : MapRow) (name : String) : Bool := name.toList ∈ row.columns

/-- `MapRow::Get`, of a column that the header has. -/
def MapRow.get (row : MapRow) (name : String) : List Char :=
  row.fields.getD (row.columns.idxOf name.toList) []

/-- The text of a column. -/
def MapRow.text (row : MapRow) (name : String) : String := String.ofList (row.get name)

/-! ### The tables of a row -/

/-- The axis that `AppendAxis` appends to the table of a map. -/
def axisTable (row : MapRow) (prefixName type : String) (precision : ℕ) : XmlNode :=
  .element "table"
    ([("type", type), ("name", row.text (prefixName ++ "Name"))] ++
      storage (row.text (prefixName ++ "DataOrg")))
    [scaling (row.text (prefixName ++ "Unit")) (row.get (prefixName ++ "Factor")) precision]

/-- The axis that it appends to the located table. -/
def locatedAxis (type address : String) : XmlNode :=
  .element "table" [("type", type), ("storageaddress", address)] []

/-- The axis of a map with one value. -/
def scalarAxis : XmlNode :=
  .element "table" [("type", "Static Y Axis"), ("name", " "), ("sizey", "1")]
    [.element "data" [] [.text "#"]]

/-- The table of a map. -/
def mapTable (row : MapRow) (sizex sizey : ℤ) (precision : ℕ) (axes : List XmlNode) : XmlNode :=
  .element "table"
    ([("type", if sizex = 1 ∨ sizey = 1 then "2D" else "3D"), ("name", row.text "Name"),
        ("category", row.text "FolderName")] ++ storage (row.text "DataOrg") ++
      [("sizex", row.text "Columns"), ("sizey", row.text "Rows")])
    (scaling (row.text "Fieldvalues.Name" ++ " (" ++ row.text "Fieldvalues.Unit" ++ ")")
        (row.get "Fieldvalues.Factor") precision ::
      (axes ++ [.element "description" [] [.text (row.text "Comment")]]))

/-- The table with the address of a map. -/
def locatedTable (row : MapRow) (address : String) (axes : List XmlNode) : XmlNode :=
  .element "table" [("name", row.text "Name"), ("storageaddress", address)] axes

section Rows

-- whether `std::from_chars` reads the whole text as a `double` that is finite and not zero
variable (readsFactor : List Char → Bool)

/-- `ScalingPrecision`. -/
def scalingPrecision (row : MapRow) (factorName precisionName : String) : Except Error ℕ :=
  if readsFactor (decimal (row.get factorName)) then
    match parseInt (row.get precisionName) with
    | some precision =>
      if precision < 0 ∨ 100 < precision then
        invalidColumn row.number precisionName "expected precision between 0 and 100"
      else .ok precision.toNat
    | none => invalidColumn row.number precisionName "expected precision between 0 and 100"
  else invalidColumn row.number factorName "expected finite nonzero factor"

/-- The text of an address without its prefixes: a `$`, then a `0x`. -/
def addressDigits (text : List Char) : List Char :=
  let text :=
    match text with
    | '$' :: rest => rest
    | text => text
  match text with
  | '0' :: 'x' :: rest => rest
  | '0' :: 'X' :: rest => rest
  | text => text

/-- `StorageAddress`. -/
def storageAddress (row : MapRow) (name : String) : Except Error String :=
  let digits := addressDigits (row.get name)
  match fromCharsWhole 16 (2 ^ 64) digits with
  | some _ => .ok ("0x" ++ String.ofList digits)
  | none => invalidColumn row.number name "expected hexadecimal address"

/-- What `AppendAxis` reads of the `DataHeader` of an axis. -/
def dataHeader (row : MapRow) (prefixName : String) : Except Error ℤ :=
  let header := row.get (prefixName ++ "DataHeader")
  let error := invalidColumn row.number (prefixName ++ "DataHeader") "expected nonnegative integer"
  if header = [] then .ok 0
  else
    match parseInt header with
    | some value => if value < 0 then error else .ok value
    | none => error

/-- What `AppendAxis` appends to the table: an axis with more than one value. -/
def appendedAxis (row : MapRow) (prefixName type : String) (size : ℤ) : Except Error (List XmlNode) :=
  if 1 < size then do
    let precision ← scalingPrecision readsFactor row (prefixName ++ "Factor") (prefixName ++ "Precision")
    return [axisTable row prefixName type precision]
  else .ok []

/-- What it appends to the located table: an axis whose `DataHeader` is positive. -/
def appendedLocation (row : MapRow) (prefixName type : String) (header : ℤ) : Except Error (List XmlNode) :=
  if 0 < header then do
    let address ← storageAddress row (prefixName ++ "DataAddr")
    return [locatedAxis type address]
  else .ok []

/-- `AppendAxis`: what is appended to the table and to the located one. -/
def appendAxis (row : MapRow) (prefixName type : String) (size : ℤ) :
    Except Error (List XmlNode × List XmlNode) :=
  if size ≤ 1 ∧ ¬ row.contains (prefixName ++ "DataHeader") then .ok ([], [])
  else
    match ["Name", "DataOrg", "Unit", "Factor", "Precision", "DataHeader", "DataAddr"].find?
        fun suffix => ¬ row.contains (prefixName ++ suffix) with
    | some suffix => invalidColumn 1 (prefixName ++ suffix) "missing required axis header"
    | none => do
      let header ← dataHeader row prefixName
      let axis ← appendedAxis readsFactor row prefixName type size
      let located ← appendedLocation row prefixName type header
      return (axis, located)

/-- A dimension of `AppendMap`. -/
def mapDimension (row : MapRow) (name : String) : Except Error ℤ :=
  match parseInt (row.get name) with
  | some size => if size < 1 then invalidColumn row.number name "expected positive dimension" else .ok size
  | none => invalidColumn row.number name "expected positive dimension"

/-- `AppendMap`: the table of the base and the located one. -/
def appendMap (row : MapRow) : Except Error (XmlNode × XmlNode) := do
  let sizex ← mapDimension row "Columns"
  let sizey ← mapDimension row "Rows"
  let precision ← scalingPrecision readsFactor row "Fieldvalues.Factor" "Precision"
  let address ← storageAddress row "Fieldvalues.StartAddr"
  let (xAxis, xLocated) ← appendAxis readsFactor row "AxisX." "X Axis" sizex
  let (yAxis, yLocated) ← appendAxis readsFactor row "AxisY." "Y Axis" sizey
  let scalar := if sizex = 1 ∧ sizey = 1 then [scalarAxis] else []
  return (mapTable row sizex sizey precision (xAxis ++ yAxis ++ scalar),
    locatedTable row address (xLocated ++ yLocated))

/-- A row of the pack, without the empty field that a separator at its end leaves. -/
def mapRowOf (columns : Row) (row : Row) (number : ℕ) : MapRow where
  fields := if row.length = columns.length + 1 ∧ row.getLast? = some [] then row.dropLast else row
  columns := columns
  number := number

/-- The body of the loop of `ConvertMappackCsv`. -/
def convertRow (row : MapRow) : Except Error (XmlNode × XmlNode) :=
  if row.fields.length ≠ row.columns.length then
    invalidColumn row.number "record" "field count differs from header"
  else appendMap readsFactor row

/-- The rows behind the header. -/
def mapRows (columns : Row) (rows : List Row) : List MapRow :=
  rows.tail.zipIdx.map fun row => mapRowOf columns row.1 (row.2 + 2)

/-- The base ROM and the ROM of the ECU. -/
def mappackRoms (ecuId : String) (tables : List (XmlNode × XmlNode)) : List XmlNode :=
  [.element "rom" [] (romIdNode "BASE" [] :: tables.map Prod.fst),
    .element "rom" [("base", "BASE")]
      (romIdNode ecuId [("internalidaddress", "0x50"), ("internalidstring", "1037369411P321/C51"),
          ("ecuid", ecuId)] :: tables.map Prod.snd)]

/-- The document of the rows of a map pack. -/
def rowsDocument (ecuId : String) (rows : List Row) : Except Error (List XmlNode) :=
  match rows with
  | header :: _ :: _ => do
    let columns ← parseColumns header
    let tables ← (mapRows columns rows).mapM (convertRow readsFactor)
    return [.element "roms" [] (mappackRoms ecuId tables)]
  | _ => invalidColumn 1 "header" "expected header and map rows"

/-- The document that `ConvertMappackCsv` saves. -/
def mappackDocument (csv : List Char) (ecuId : String) : Option (Except Error (List XmlNode)) :=
  if trimHeaderText ecuId = "" then some (invalidColumn 1 "ecu_id" "expected nonempty ECU ID")
  else if containsXmlControl ecuId.toList then
    some (invalidColumn 1 "ecu_id" "XML-invalid control character")
  else (parseCsv csv).map fun parsed => do
    let rows ← parsed
    rowsDocument readsFactor ecuId rows

/-- `ConvertMappackCsv`, with pugixml's `save`. -/
def convertMappackCsv (save : List XmlNode → Bytes) (csv : List Char) (ecuId : String) :
    Option (Except Error Bytes) :=
  (mappackDocument readsFactor csv ecuId).map fun document => document.map save

end Rows

end FastEcu.Definition
