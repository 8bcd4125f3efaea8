import FastEcu.Bytes.Words
import FastEcu.Expression.Checked
import FastEcu.Memory.Map

/-!
# Definitions and the elements of a map

What a definition says about a calibration map (`src/backend/definition/definition_model.h`), and
how the body and the axes of a map are read from it (`ResolveMapElement` of
`src/backend/calibration/definition_interpretation_internal.cpp`): where a run of numbers lies, how
wide its elements are and how far apart.

* `elementRunEnd`, `elementByteAddress` : the checked address arithmetic of runs.
* `elementRunEnd_spec` : below `2^64 - 1`, the end of a run is what the layout says.

Sizes and positions of the source are 32 bits wide, addresses 64; arithmetic that may wrap is
written with `u32` and `u64`.
-/

namespace FastEcu.Calibration

open Memory Expression

/-! ### Errors -/

/-- `ErrorKind`. -/
inductive ErrorKind
  | invalidConfig
  | timeout
  | disconnected
  | badResponse
  | cancelled
  | unsupported
  | internal
deriving DecidableEq, Repr

/-- `Error`. -/
structure Error where
  /-- The kind of error. -/
  kind : ErrorKind
  /-- The text for the user. -/
  detail : String
deriving DecidableEq, Repr

/-- A failure that blames the configuration or the definition. -/
def invalidConfig {β : Type} (detail : String) : Except Error β := .error ⟨.invalidConfig, detail⟩

/-! ### Machine arithmetic -/

/-- A 32-bit result. -/
def u32 (n : ℕ) : ℕ := n % 2 ^ 32

/-- A 64-bit result. -/
def u64 (n : ℕ) : ℕ := n % 2 ^ 64

/-- `UINT32_MAX` and `UINT64_MAX`. -/
def u32Max : ℕ := 2 ^ 32 - 1
def u64Max : ℕ := 2 ^ 64 - 1

theorem u32_of_le {n : ℕ} (h : n ≤ u32Max) : u32 n = n :=
  Nat.mod_eq_of_lt (Nat.lt_of_le_of_lt h (by decide))

theorem u64_of_le {n : ℕ} (h : n ≤ u64Max) : u64 n = n :=
  Nat.mod_eq_of_lt (Nat.lt_of_le_of_lt h (by decide))

/-- `CheckedAdd`. -/
def checkedAdd (lhs rhs : ℕ) : Option ℕ := if u64Max - rhs < lhs then none else some (lhs + rhs)

/-- `CheckedMultiply`. -/
def checkedMultiply (lhs rhs : ℕ) : Option ℕ :=
  if rhs ≠ 0 ∧ u64Max / rhs < lhs then none else some (lhs * rhs)

theorem eq_of_checkedAdd {lhs rhs n : ℕ} (h : checkedAdd lhs rhs = some n) : n = lhs + rhs := by
  simp only [checkedAdd] at h
  split at h
  · cases h
  · exact (Option.some.inj h).symm

theorem eq_of_checkedMultiply {lhs rhs n : ℕ} (h : checkedMultiply lhs rhs = some n) :
    n = lhs * rhs := by
  simp only [checkedMultiply] at h
  split at h
  · cases h
  · exact (Option.some.inj h).symm

/-! ### The definition model -/

/-- `StorageType`. -/
inductive StorageType
  | uint8
  | int8
  | uint16
  | int16
  | uint24
  | int24
  | uint32
  | int32
  | float
  | bloblist
deriving DecidableEq, Repr

/-- `StorageByteSize`. -/
def storageByteSize : Option StorageType → ℕ
  | none => 1
  | some .uint16 => 2
  | some .int16 => 2
  | some .uint24 => 3
  | some .int24 => 3
  | some .uint32 => 4
  | some .int32 => 4
  | some .float => 4
  | some .uint8 => 1
  | some .int8 => 1
  | some .bloblist => 1

/-- `IsUnsignedStorage`. -/
def isUnsignedStorage : Option StorageType → Bool
  | some .uint8 => true
  | some .uint16 => true
  | some .uint24 => true
  | some .uint32 => true
  | _ => false

/-- `Selection`. -/
structure Selection where
  name : String
  value : Bytes

/-- `Scaling`, as far as maps are read with it. -/
structure Scaling where
  name : String
  fromByte : String := "x"
  toByte : String := "x"
  minimum : String := ""
  maximum : String := ""
  coarseIncrement : String := ""
  fineIncrement : String := ""
  storageType : Option StorageType := none
  endian : String := ""
  selections : List Selection := []

/-- `AxisDefinition`, as far as it places and reads the axis. -/
structure AxisDefinition where
  type : String := ""
  storageType : Option StorageType := none
  endian : String := ""
  address : Option DefinitionAddress := none
  fromByte : String := "x"
  toByte : String := "x"
  scalingName : String := ""
  startPosition : UInt32 := 1
  interval : UInt32 := 1
  staticData : List String := []

/-- `CalibrationMap`, as far as it places and reads the map. -/
structure CalibrationMap where
  name : String := ""
  type : String := ""
  address : Option DefinitionAddress := none
  xSize : UInt32 := 1
  ySize : UInt32 := 1
  scalingName : String := ""
  storageType : Option StorageType := none
  endian : String := ""
  startPosition : UInt32 := 1
  interval : UInt32 := 1
  xAxis : AxisDefinition := {}
  yAxis : AxisDefinition := {}

/-- `RomDefinition`: its maps and its scalings. -/
structure RomDefinition where
  maps : List CalibrationMap := []
  scalings : List Scaling := []

/-- `FindScaling`. -/
def findScaling (definition : RomDefinition) (name : String) : Option Scaling :=
  definition.scalings.find? fun s => s.name == name

/-! ### The elements of a map -/

/-- `NumericTarget`: the body of a map or one of its axes. -/
inductive NumericTarget
  | mapBody
  | xAxis
  | yAxis
deriving DecidableEq, Repr

/-- `ElementRun`. -/
structure ElementRun where
  address : ℕ
  count : ℕ
  startPosition : UInt32
  interval : UInt32
  storageType : Option StorageType
  endian : String
  fromByte : String
  isSelectable : Bool

/-- `MapElementSpec`, as far as an edit reads it. -/
structure MapElementSpec (α : Type) where
  address : ℕ
  storageType : Option StorageType
  endian : String
  toByte : String
  minValue : String
  maxValue : String
  coarseIncrement : α
  fineIncrement : α
  startPosition : UInt32
  interval : UInt32

/-- `MapElement`. -/
structure MapElement (α : Type) where
  address : Option DefinitionAddress
  storageType : Option StorageType
  width : UInt32
  height : UInt32
  startPosition : UInt32
  interval : UInt32
  byteWidth : ℕ
  endian : String
  fromByte : String
  toByte : String
  minValue : String
  maxValue : String
  coarseIncrement : α
  fineIncrement : α
  isSelectable : Bool

variable {α : Type}

namespace MapElement

/-- `Count`: a product of two 32-bit sizes in 64 bits. -/
def count (element : MapElement α) : ℕ := element.width.toNat * element.height.toNat

/-- The definition address of the element, or 0. -/
def base (element : MapElement α) : ℕ := (element.address.map (·.value)).getD 0

/-- `Run`. -/
def run (element : MapElement α) : ElementRun where
  address := element.base
  count := u32 element.count
  startPosition := element.startPosition
  interval := element.interval
  storageType := element.storageType
  endian := element.endian
  fromByte := element.fromByte
  isSelectable := element.isSelectable

/-- `EditSpec`. -/
def editSpec (element : MapElement α) : MapElementSpec α where
  address := element.base
  storageType := element.storageType
  endian := element.endian
  toByte := element.toByte
  minValue := element.minValue
  maxValue := element.maxValue
  coarseIncrement := element.coarseIncrement
  fineIncrement := element.fineIncrement
  startPosition := element.startPosition
  interval := element.interval

end MapElement

/-- The text has nothing but whitespace. -/
def isBlank (text : String) : Bool := text.toList.all whitespace

/-- `IncrementValue`. -/
def incrementValue (N : Numbers α) (text : String) : α :=
  if isBlank text then N.ofInt 0
  else
    match parseFiniteNumber N text.toList with
    | .ok value => value
    | .error _ => N.nan

/-- `ElementByteWidth`: a blob is as wide as its first selection. -/
def elementByteWidth (storageType : Option StorageType) (scaling : Option Scaling) : ℕ :=
  match storageType, scaling.bind (·.selections.head?) with
  | some .bloblist, some selection => u32 selection.value.length
  | _, _ => storageByteSize storageType

/-- `BodyStorage`. -/
def bodyStorage (map : CalibrationMap) (scaling : Option Scaling) : Option StorageType :=
  map.storageType <|> scaling.bind (·.storageType)

/-- The axis that a target names. -/
def CalibrationMap.axis (map : CalibrationMap) : NumericTarget → AxisDefinition
  | .yAxis => map.yAxis
  | _ => map.xAxis

/-- The scaling that a target is read with. -/
def targetScaling (definition : RomDefinition) (map : CalibrationMap) :
    NumericTarget → Option Scaling
  | .mapBody => findScaling definition map.scalingName
  | target => findScaling definition (map.axis target).scalingName

/-- `ResolveMapElement`. -/
def resolveMapElement (N : Numbers α) (definition : RomDefinition) (map : CalibrationMap)
    (target : NumericTarget) : MapElement α :=
  match target with
  | .mapBody =>
    let scaling := targetScaling definition map .mapBody
    let storageType := bodyStorage map scaling
    { address := map.address
      storageType
      width := map.xSize
      height := map.ySize
      startPosition := map.startPosition
      interval := map.interval
      byteWidth := elementByteWidth storageType scaling
      endian := if map.endian ≠ "" then map.endian else (scaling.map (·.endian)).getD ""
      fromByte := (scaling.map (·.fromByte)).getD "x"
      toByte := (scaling.map (·.toByte)).getD "x"
      minValue := (scaling.map (·.minimum)).getD ""
      maxValue := (scaling.map (·.maximum)).getD ""
      coarseIncrement := (scaling.map fun s => incrementValue N s.coarseIncrement).getD (N.ofInt 0)
      fineIncrement := (scaling.map fun s => incrementValue N s.fineIncrement).getD (N.ofInt 0)
      isSelectable := map.type == "Selectable" }
  | target =>
    let axis := map.axis target
    let scaling := targetScaling definition map target
    { address := axis.address
      storageType := axis.storageType
      width := if target = .xAxis then map.xSize else 1
      height := if target = .yAxis then map.ySize else 1
      startPosition := axis.startPosition
      interval := axis.interval
      byteWidth := elementByteWidth axis.storageType scaling
      endian := axis.endian
      fromByte := axis.fromByte
      toByte := axis.toByte
      minValue := (scaling.map (·.minimum)).getD ""
      maxValue := (scaling.map (·.maximum)).getD ""
      coarseIncrement := (scaling.map fun s => incrementValue N s.coarseIncrement).getD (N.ofInt 0)
      fineIncrement := (scaling.map fun s => incrementValue N s.fineIncrement).getD (N.ofInt 0)
      isSelectable := axis.type == "Selectable" }

theorem resolveMapElement_byteWidth (N : Numbers α) (definition : RomDefinition)
    (map : CalibrationMap) (target : NumericTarget) :
    (resolveMapElement N definition map target).byteWidth =
      elementByteWidth (resolveMapElement N definition map target).storageType
        (targetScaling definition map target) := by
  cases target <;> rfl

/-- An axis is one row or one column, so its points are counted in 32 bits. -/
theorem resolveMapElement_count_axis (N : Numbers α) (definition : RomDefinition)
    (map : CalibrationMap) {target : NumericTarget} (h : target ≠ .mapBody) :
    (resolveMapElement N definition map target).count =
      if target = .xAxis then map.xSize.toNat else map.ySize.toNat := by
  cases target with
  | mapBody => exact absurd rfl h
  | xAxis => simp [resolveMapElement, MapElement.count]
  | yAxis => simp [resolveMapElement, MapElement.count]

theorem elementByteWidth_of_ne {storageType : Option StorageType} (scaling : Option Scaling)
    (h : storageType ≠ some .bloblist) :
    elementByteWidth storageType scaling = storageByteSize storageType := by
  simp only [elementByteWidth]
  split
  · exact absurd rfl h
  · rfl

theorem storageByteSize_pos (storageType : Option StorageType) : 0 < storageByteSize storageType := by
  cases storageType with
  | none => decide
  | some s => cases s <;> decide

theorem storageByteSize_le (storageType : Option StorageType) : storageByteSize storageType ≤ 4 := by
  cases storageType with
  | none => decide
  | some s => cases s <;> decide

/-! ### Where the elements of a run lie -/

/-- `start_position - 1`, with 0 read as 1. -/
def startOffset (startPosition : UInt32) : ℕ := startPosition.toNat - 1

/-- `ElementRunEnd`: one past the last byte of `count` elements; the largest value on overflow. -/
def elementRunEnd (address : ℕ) (startPosition interval : UInt32) (elementWidth count : ℕ) : ℕ :=
  if count = 0 then address
  else
    let stop? := do
      let startBytes ← checkedMultiply (startOffset startPosition) elementWidth
      let stride ← checkedMultiply interval.toNat elementWidth
      let lastOffset ← checkedMultiply (count - 1) stride
      let stop ← checkedAdd address startBytes
      let stop ← checkedAdd stop lastOffset
      checkedAdd stop elementWidth
    stop?.getD u64Max

/-- `ElementByteAddress`: the address of one element; the largest value on overflow. -/
def elementByteAddress (spec : MapElementSpec α) (index : ℕ) : ℕ :=
  let width := storageByteSize spec.storageType
  let address? := do
    let startByteOffset ← checkedMultiply (startOffset spec.startPosition) width
    let stride ← checkedMultiply width spec.interval.toNat
    let elementOffset ← checkedMultiply index stride
    let address ← checkedAdd spec.address startByteOffset
    checkedAdd address elementOffset
  address?.getD u64Max

/-- The offset of an element from the address of its run, as the layout says. -/
def elementOffset (startPosition interval : UInt32) (width index : ℕ) : ℕ :=
  startOffset startPosition * width + index * (interval.toNat * width)

theorem elementRunEnd_of_lt {address width count : ℕ} {startPosition interval : UInt32}
    (hcount : count ≠ 0) (h : elementRunEnd address startPosition interval width count < u64Max) :
    elementRunEnd address startPosition interval width count =
      address + elementOffset startPosition interval width (count - 1) + width := by
  simp only [elementRunEnd, if_neg hcount] at h ⊢
  -- the largest value is the only other result
  generalize hstop : (do
    let startBytes ← checkedMultiply (startOffset startPosition) width
    let stride ← checkedMultiply interval.toNat width
    let lastOffset ← checkedMultiply (count - 1) stride
    let stop ← checkedAdd address startBytes
    let stop ← checkedAdd stop lastOffset
    checkedAdd stop width : Option ℕ) = stop? at h ⊢
  cases stop? with
  | none => exact absurd h (lt_irrefl _)
  | some stop =>
    simp only [bind, Option.bind_eq_some_iff] at hstop
    obtain ⟨startBytes, hs, stride, ht, lastOffset, hl, a, ha, b, hb, hw⟩ := hstop
    rw [Option.getD_some, eq_of_checkedAdd hw, eq_of_checkedAdd hb, eq_of_checkedAdd ha,
      eq_of_checkedMultiply hl, eq_of_checkedMultiply ht, eq_of_checkedMultiply hs, elementOffset]
    omega

theorem elementByteAddress_of_lt {spec : MapElementSpec α} {index : ℕ}
    (h : elementByteAddress spec index < u64Max) :
    elementByteAddress spec index = spec.address +
      elementOffset spec.startPosition spec.interval (storageByteSize spec.storageType) index := by
  simp only [elementByteAddress] at h ⊢
  generalize haddress : (do
    let startByteOffset ← checkedMultiply (startOffset spec.startPosition)
      (storageByteSize spec.storageType)
    let stride ← checkedMultiply (storageByteSize spec.storageType) spec.interval.toNat
    let elementOffset ← checkedMultiply index stride
    let address ← checkedAdd spec.address startByteOffset
    checkedAdd address elementOffset : Option ℕ) = address? at h ⊢
  cases address? with
  | none => exact absurd h (lt_irrefl _)
  | some address =>
    simp only [bind, Option.bind_eq_some_iff] at haddress
    obtain ⟨startBytes, hs, stride, ht, offset, ho, a, ha, hw⟩ := haddress
    rw [Option.getD_some, eq_of_checkedAdd hw, eq_of_checkedAdd ha, eq_of_checkedMultiply ho,
      eq_of_checkedMultiply ht, eq_of_checkedMultiply hs, elementOffset,
      Nat.mul_comm (storageByteSize spec.storageType) spec.interval.toNat]
    omega

end FastEcu.Calibration
