import FastEcu.Logging.Session

/-!
# Channels from a logger definition

How a parameter or a switch of a logger definition becomes a channel
(`src/backend/logging/logging_channel_preparation.cpp`): its texts are read as numbers, and the channel is
checked as a session would check it.

* `prepareLoggingChannel`, `prepareLoggingSwitch` : the channel, or what is wrong with the definition.
-/

namespace FastEcu.Logging

open Calibration (Error ErrorKind invalidConfig)
open Expression (Numbers)

/-! ### The definition -/

/-- `Conversion`, without the bounds of its gauge. -/
structure Conversion where
  units : String := ""
  expr : String := ""
  format : String := ""
  storageType : String := ""
  endian : String := ""
deriving DecidableEq, Repr

/-- `LoggerAddressSpec`. -/
structure LoggerAddressSpec where
  value : String
  length : Option String := none
  bit : Option String := none
deriving DecidableEq, Repr

/-- `LoggerParameter`: what a channel is prepared from. -/
structure LoggerParameter where
  protocol : String
  id : String
  name : String
  address : String
  length : String
  conversions : List Conversion := []
  addressSpecs : List LoggerAddressSpec := []
deriving DecidableEq, Repr

/-- `LoggerSwitch`: what a channel is prepared from. -/
structure LoggerSwitch where
  protocol : String
  id : String
  name : String
  address : String
  sampleBit : String
deriving DecidableEq, Repr

/-! ### Numbers -/

/-- The value of a digit. -/
def digitValue (base : ℕ) (c : Char) : Option ℕ :=
  let value :=
    if '0' ≤ c ∧ c ≤ '9' then some (c.toNat - '0'.toNat)
    else if 'a' ≤ c ∧ c ≤ 'f' then some (c.toNat - 'a'.toNat + 10)
    else if 'A' ≤ c ∧ c ≤ 'F' then some (c.toNat - 'A'.toNat + 10)
    else none
  value.filter (· < base)

/-- The whole of a text as an unsigned number below a bound, read by `std::from_chars`. -/
def fromCharsWhole (base bound : ℕ) (text : List Char) : Option ℕ :=
  if text = [] then none
  else
    match text.mapM (digitValue base) with
    | none => none
    | some digits =>
      let value := digits.foldl (fun n d => n * base + d) 0
      if value < bound then some value else none

/-- `ParseUnsigned`, for a type that ends at the bound. -/
def parseUnsigned (input : String) (base bound : ℕ) : Option ℕ :=
  let text := Expression.trimmed input.toList
  let text :=
    match text with
    | '0' :: 'x' :: rest => if base = 16 then rest else text
    | '0' :: 'X' :: rest => if base = 16 then rest else text
    | _ => text
  fromCharsWhole base bound text

/-- `LowerAscii`. -/
def lowerAscii (value : String) : String := String.ofList (value.toList.map Char.toLower)

/-! ### The parts of a channel -/

/-- `ParseStorage`. -/
def parseStorage (input : String) : Except String NumericStorage :=
  let type := lowerAscii input
  if type = "" ∨ type = "uint" ∨ type = "uint8" ∨ type = "uint16" ∨ type = "uint32" then
    .ok .unsignedInteger
  else if type = "int" ∨ type = "int8" ∨ type = "int16" ∨ type = "int32" then .ok .signedInteger
  else if type = "float" then .ok .float
  else .error s!"invalid storagetype '{input}'"

/-- `ParseByteOrder`. -/
def parseByteOrder (input : String) : Except String NumericByteOrder :=
  let endian := lowerAscii input
  if endian = "" ∨ endian = "big" then .ok .bigEndian
  else if endian = "little" then .ok .littleEndian
  else .error s!"invalid endian '{input}'"

/-- `Placement`. -/
structure Placement where
  address : UInt32 := 0
  length : ℕ := 0
  byteAddresses : List UInt32 := []
deriving DecidableEq, Repr

/-- `ParseAddressSpec`: the address, and the placement with the length of the spec. -/
def parseAddressSpec (source : LoggerAddressSpec) (explicitBytes : Bool) (placement : Placement) :
    Except String (UInt32 × Placement) :=
  match parseUnsigned source.value 16 (2 ^ 32) with
  | none => .error "invalid explicit byte address"
  | some address =>
    if source.bit.isSome then .error "sample bit is only valid for a switch"
    else
      match source.length with
      | none => .ok (UInt32.ofNat address, placement)
      | some text =>
        match parseUnsigned text 10 (2 ^ 64) with
        | none => .error "invalid explicit address length"
        | some length =>
          if length = 0 ∨ (explicitBytes ∧ length ≠ 1) then .error "invalid explicit address length"
          else .ok (UInt32.ofNat address, { placement with length })

/-- The loop of `ApplyAddressSpecs`, with the addresses before. -/
def parseAddressSpecs (explicitBytes : Bool) : List UInt32 → Placement → List LoggerAddressSpec →
    Except String (List UInt32 × Placement)
  | addresses, placement, [] => .ok (addresses, placement)
  | addresses, placement, source :: rest =>
    match parseAddressSpec source explicitBytes placement with
    | .error e => .error e
    | .ok (address, placement) =>
      parseAddressSpecs explicitBytes (addresses ++ [address]) placement rest

/-- `ApplyAddressSpecs`. -/
def applyAddressSpecs (parameter : LoggerParameter) (protocol : LoggingProtocolId)
    (placement : Placement) : Except String Placement :=
  let explicitBytes := decide (1 < parameter.addressSpecs.length)
  if explicitBytes ∧ protocol ≠ .ssm then .error "explicit byte address lists require SSM"
  else
    match parseAddressSpecs explicitBytes [] placement parameter.addressSpecs with
    | .error e => .error e
    | .ok (addresses, placement) =>
      let placement := { placement with address := addresses.headD placement.address }
      if explicitBytes then
        .ok { placement with length := addresses.length, byteAddresses := addresses }
      else .ok placement

/-- `ParsePlacement`. -/
def parsePlacement (parameter : LoggerParameter) (protocol : LoggingProtocolId) :
    Except String Placement :=
  match parseUnsigned parameter.address 16 (2 ^ 32) with
  | none =>
    .error s!"invalid address '{
      parameter.address}'; expected hexadecimal digits with an optional 0x prefix"
  | some address =>
    match (parseUnsigned parameter.length 10 (2 ^ 64)).filter (· ≠ 0) with
    | none =>
      .error s!"invalid length '{parameter.length}'; expected a positive decimal integer"
    | some length =>
      match applyAddressSpecs parameter protocol { address := UInt32.ofNat address, length } with
      | .error e => .error e
      | .ok placement =>
        if placement.length ≠ 1 ∧ placement.length ≠ 2 ∧ placement.length ≠ 4 then
          .error "invalid length; expected 1, 2 or 4 bytes"
        else .ok placement

/-- `ParseEncoding`. -/
def parseEncoding (conversion : Conversion) (protocol : LoggingProtocolId) (length : ℕ) :
    Except String (NumericStorage × NumericByteOrder) :=
  match parseStorage conversion.storageType with
  | .error e => .error e
  | .ok storage =>
    match parseByteOrder conversion.endian with
    | .error e => .error e
    | .ok byteOrder =>
      if storage = .float ∧ length ≠ 4 then .error "storagetype float requires length 4"
      else if protocol ≠ .ssm ∧ storage ≠ .unsignedInteger then
        .error "storagetype is unsupported by this protocol"
      else if protocol ≠ .ssm ∧ byteOrder ≠ .bigEndian then
        .error "endian override is unsupported by this protocol"
      else .ok (storage, byteOrder)

/-- `ParsePrecision`. -/
def parsePrecision (format : String) : Except String UInt8 :=
  if format = "0" then .ok 0
  else
    match format.toList with
    | '0' :: '.' :: zeros =>
      if zeros = [] ∨ 15 < zeros.length ∨ ¬ zeros.all (· = '0') then
        .error s!"invalid format '{format}'; expected 0 or 0. followed by 1–15 zeros"
      else .ok (UInt8.ofNat zeros.length)
    | _ => .error s!"invalid format '{format}'; expected 0 or 0. followed by 1–15 zeros"

/-! ### The channel -/

variable {α : Type} (N : Numbers α)

/-- `ParseChannel`. -/
def parseChannel (parameter : LoggerParameter) (protocol : LoggingProtocolId) :
    Except String LoggingChannel :=
  match parameter.conversions with
  | [] => .error "missing conversion; provide an expression and format"
  | conversion :: _ =>
    match parsePlacement parameter protocol with
    | .error e => .error e
    | .ok placement =>
      match parseEncoding conversion protocol placement.length with
      | .error e => .error e
      | .ok (storage, byteOrder) =>
        match parsePrecision conversion.format with
        | .error e => .error e
        | .ok precision =>
          let channel : LoggingChannel :=
            { id := parameter.id
              address := placement.address
              length := placement.length
              fromByteExpression := conversion.expr
              unit := conversion.units
              decimalPrecision := precision
              byteAddresses := placement.byteAddresses
              storage
              byteOrder }
          match validateLoggingChannel N protocol channel with
          | .error e => .error e.detail
          | .ok () => .ok channel

/-- `PrepareLoggingChannel`. -/
def prepareLoggingChannel (parameter : LoggerParameter) (protocol : LoggingProtocolId) :
    Except Error LoggingChannel :=
  match parseChannel N parameter protocol with
  | .error e => invalidConfig s!"{parameter.protocol} parameter {parameter.id}: {e}"
  | .ok channel => .ok channel

/-- `PrepareLoggingSwitch`. -/
def prepareLoggingSwitch (source : LoggerSwitch) (protocol : LoggingProtocolId) :
    Except Error LoggingChannel :=
  match (parseUnsigned source.sampleBit 10 256).filter (· < 8) with
  | none =>
    invalidConfig s!"{source.protocol} switch {source.id}: invalid sample bit; expected 0–7"
  | some bit =>
    let parameter : LoggerParameter :=
      { protocol := source.protocol
        id := source.id
        name := source.name
        address := source.address
        length := "1"
        conversions := [{ expr := "x", format := "0" }] }
    match prepareLoggingChannel N parameter protocol with
    | .error e => .error e
    | .ok channel =>
      let channel := { channel with sampleBit := some (UInt8.ofNat bit) }
      match validateLoggingChannel N protocol channel with
      | .error e => invalidConfig s!"{source.protocol} switch {source.id}: {e.detail}"
      | .ok () => .ok channel

end FastEcu.Logging
