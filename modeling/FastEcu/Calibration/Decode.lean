import FastEcu.Calibration.Placement

/-!
# Decoding a map

`DecodeNumericRun` and `DecodeCalibrationMap` (`src/backend/calibration/calibration_service.cpp`):
the cells of a run are read from a window of ROM bytes and converted, each on its own; an error of
the layout is an error of the map.

* `cellAddress` : the address arithmetic of the decoder, as it wraps; `cellAddress_eq` : below the
  end of the run it does not.
* `at_isSome` : a run that a window covers can be read from it.
* `decodeNumericRun_error`, `decodeTypedAxis_error` : what can be wrong with a run that the window
  has.
-/

namespace FastEcu.Calibration

open Memory Expression

/-- `DefinitionBytes`: the byte of definition address `start + i` is `data[i]`. -/
structure DefinitionBytes where
  data : Bytes
  start : ℕ

/-- `DefinitionBytes::At`. -/
def DefinitionBytes.at (rom : DefinitionBytes) (address size : ℕ) : Option Bytes :=
  if address < rom.start then none
  else
    let offset := address - rom.start
    if rom.data.length < offset ∨ rom.data.length - offset < size then none
    else some (subspan rom.data offset size)

/-- `SignExtend`. -/
def signExtend (raw : UInt32) (width : ℕ) : ℤ :=
  if width = 0 ∨ 4 ≤ width then raw.toInt32.toInt
  else
    let signBit : UInt32 := 1 <<< UInt32.ofNat (width * 8 - 1)
    if raw &&& signBit = 0 then raw.toInt32.toInt
    else (raw ||| ~~~((signBit <<< 1) - 1)).toInt32.toInt

/-- The numeric cells of a run; each has its own error. -/
abbrev NumericRun (α : Type) := List (Except Error α)

/-- `std::variant<NumericRun, BlobValue>`. -/
inductive MapBody (α : Type)
  | run (cells : NumericRun α)
  | blob (data : Bytes)

/-- `AxisValue`. -/
inductive AxisValue (α : Type)
  | none
  | run (cells : NumericRun α)
  | static (labels : List String)

/-- `DecodedMap`. -/
structure DecodedMap (α : Type) where
  body : MapBody α
  xAxis : AxisValue α
  yAxis : AxisValue α

/-- A difference of two 64-bit values. -/
def sub64 (lhs rhs : ℕ) : ℕ := u64 (lhs + 2 ^ 64 - rhs)

/-- The address of one cell, as the loop of `DecodeNumericRun` computes it in 64 bits. -/
def cellAddress (run : ElementRun) (width index : ℕ) : ℕ :=
  u64 (u64 (run.address + u64 ((run.startPosition - 1).toNat * width)) +
    u64 (u64 (index * width) * run.interval.toNat))

variable {α : Type} (N : Numbers α)

/-- One turn of the loop of `DecodeNumericRun`. -/
def decodeCell (run : ElementRun) (window : Bytes) (index : ℕ) : Except Error α :=
  let width := storageByteSize run.storageType
  let isFloat := run.storageType = some .float
  let littleEndian := ¬ isFloat ∧ run.endian = "little"
  let offset := sub64 (cellAddress run width index) run.address
  let raw := if littleEndian then readULe window offset width else readUBe window offset width
  let numeric :=
    if isFloat then N.ofFloat raw
    else if isUnsignedStorage run.storageType then N.ofInt raw.toNat
    else N.ofInt (signExtend raw width)
  let value :=
    if run.isSelectable then .ok (N.ofInt 0)
    else evaluateChecked N.toArithmetic run.fromByte.toList numeric
  match value with
  | .ok value => .ok value
  | .error e => invalidConfig s!"cell {index}: {e.detail}"

/-- The run has storage and a stride that can be read. -/
def ElementRun.Readable (run : ElementRun) : Prop :=
  run.storageType ≠ none ∧ run.storageType ≠ some .bloblist ∧ run.startPosition ≠ 0 ∧
    run.interval ≠ 0

instance (run : ElementRun) : Decidable run.Readable := inferInstanceAs (Decidable (_ ∧ _))

/-- One past the last byte of a run. -/
def ElementRun.stop (run : ElementRun) : ℕ :=
  elementRunEnd run.address run.startPosition run.interval (storageByteSize run.storageType)
    run.count

/-- `DecodeNumericRun`. -/
def decodeNumericRun (rom : DefinitionBytes) (run : ElementRun) : Except Error (NumericRun α) :=
  if run.Readable then
    match rom.at run.address (run.stop - run.address) with
    | none => invalidConfig "numeric run exceeds ROM size"
    | some window => .ok ((List.range run.count).map (decodeCell N run window))
  else invalidConfig "numeric run has invalid storage or stride metadata"

/-- `DecodeTypedAxis`. -/
def decodeTypedAxis (axis : AxisDefinition) (extent : UInt32) (rom : DefinitionBytes) (xAxis : Bool)
    (mapType : String) (element : MapElement α) : Except Error (AxisValue α) :=
  if extent ≤ 1 ∨ axis.type = "" then .ok .none
  else if xAxis ∧ (axis.type = "Static X Axis" ∨ axis.type = "Static Y Axis") then
    if axis.staticData.length ≠ extent.toNat then
      invalidConfig "static axis label count differs from map extent"
    else .ok (.static axis.staticData)
  else if xAxis ∧ axis.type ≠ "X Axis" ∧ ¬ (axis.type = "Y Axis" ∧ mapType = "2D") then .ok .none
  else if axis.address = none then invalidConfig "numeric axis has no address"
  else
    match decodeNumericRun N rom element.run with
    | .error e => .error e
    | .ok cells => .ok (.run cells)

/-- `DecodeCalibrationMap`. -/
def decodeCalibrationMap (definition : RomDefinition) (map : CalibrationMap)
    (rom : DefinitionBytes) : Except Error (DecodedMap α) :=
  if map.scalingName ≠ "" ∧ findScaling definition map.scalingName = none then
    invalidConfig s!"map '{map.name}' has unresolved scaling"
  else
    let element := resolveMapElement N definition map .mapBody
    if element.address = none ∨ element.count = 0 ∨ u32Max < element.count then
      invalidConfig s!"map '{map.name}' has invalid address or dimensions"
    else if element.storageType = some .bloblist then
      match rom.at element.base element.byteWidth with
      | none => invalidConfig s!"map '{map.name}' blob exceeds ROM size"
      | some data => .ok ⟨.blob data, .none, .none⟩
    else
      match decodeNumericRun N rom element.run with
      | .error e => .error ⟨e.kind, s!"map '{map.name}': {e.detail}"⟩
      | .ok body =>
        match decodeTypedAxis N map.xAxis map.xSize rom true map.type
            (resolveMapElement N definition map .xAxis) with
        | .error e => .error ⟨e.kind, s!"map '{map.name}' X axis: {e.detail}"⟩
        | .ok xAxis =>
          match decodeTypedAxis N map.yAxis map.ySize rom false map.type
              (resolveMapElement N definition map .yAxis) with
          | .error e => .error ⟨e.kind, s!"map '{map.name}' Y axis: {e.detail}"⟩
          | .ok yAxis => .ok ⟨.run body, xAxis, yAxis⟩

/-! ### Reading a window -/

/-- A window can be read where it has the bytes. -/
theorem at_isSome {rom : DefinitionBytes} {address size : ℕ} (h : rom.start ≤ address)
    (hle : address + size ≤ rom.start + rom.data.length) : (rom.at address size).isSome := by
  simp only [DefinitionBytes.at, if_neg (not_lt.2 h)]
  rw [if_neg (by omega)]
  rfl

/-- What can be read is in the window. -/
theorem at_eq_some {rom : DefinitionBytes} {address size : ℕ} {bytes : Bytes}
    (h : rom.at address size = some bytes) :
    rom.start ≤ address ∧ address + size ≤ rom.start + rom.data.length ∧ bytes.length = size ∧
      ∀ k < size, bytes[k]? = rom.data[address - rom.start + k]? := by
  simp only [DefinitionBytes.at] at h
  split at h
  · cases h
  · split at h
    · cases h
    · cases h
      exact ⟨by omega, by omega, length_subspan (by omega), fun k hk => getElem?_subspan hk⟩

/-- The decoder's address of a cell is the one of the layout, if that is in 64 bits. -/
theorem cellAddress_eq {run : ElementRun} {width index : ℕ} (hstart : run.startPosition ≠ 0)
    (hindex : index ≤ u32Max) (hwidth : width ≤ 4)
    (hle : run.address + elementOffset run.startPosition run.interval width index ≤ u64Max) :
    cellAddress run width index =
      run.address + elementOffset run.startPosition run.interval width index := by
  have hone : (1 : UInt32).toNat ≤ run.startPosition.toNat := by
    rw [UInt32.toNat_one, Nat.one_le_iff_ne_zero]
    exact fun h => hstart (UInt32.toNat.inj h)
  have hsub : (run.startPosition - 1).toNat = startOffset run.startPosition := by
    rw [UInt32.toNat_sub_of_le _ _ (UInt32.le_iff_toNat_le.2 hone)]
    rfl
  have hcell : index * width ≤ u64Max :=
    (Nat.mul_le_mul hindex hwidth).trans (by decide)
  have hstride : index * width * run.interval.toNat = index * (run.interval.toNat * width) := by
    rw [Nat.mul_assoc, Nat.mul_comm width]
  -- every part of the sum is at most the sum
  simp only [elementOffset] at hle ⊢
  have hfirst : startOffset run.startPosition * width ≤ u64Max := by omega
  have hsecond : index * (run.interval.toNat * width) ≤ u64Max := by omega
  have hsum : run.address + startOffset run.startPosition * width ≤ u64Max := by omega
  rw [cellAddress, hsub, u64_of_le hcell, hstride, u64_of_le hfirst, u64_of_le hsecond,
    u64_of_le hsum, u64_of_le (by omega)]
  omega

/-- A run that the window has is refused for its storage only. -/
theorem decodeNumericRun_error {rom : DefinitionBytes} {run : ElementRun} {e : Error}
    (hat : run.Readable → (rom.at run.address (run.stop - run.address)).isSome)
    (h : decodeNumericRun N rom run = .error e) :
    e = ⟨.invalidConfig, "numeric run has invalid storage or stride metadata"⟩ := by
  simp only [decodeNumericRun] at h
  split at h
  · rename_i hread
    obtain ⟨window, hwindow⟩ := Option.isSome_iff_exists.1 (hat hread)
    simp only [hwindow, reduceCtorEq] at h
  · exact (Except.error.inj h).symm

/-- The errors of an axis whose run the window has. -/
theorem decodeTypedAxis_error {axis : AxisDefinition} {extent : UInt32} {rom : DefinitionBytes}
    {xAxis : Bool} {mapType : String} {element : MapElement α} {e : Error}
    (hat : ¬ extent ≤ 1 → axis.address ≠ none → element.run.Readable →
      (rom.at element.run.address (element.run.stop - element.run.address)).isSome)
    (h : decodeTypedAxis N axis extent rom xAxis mapType element = .error e) :
    e.detail = "static axis label count differs from map extent" ∨
      e.detail = "numeric axis has no address" ∨
      e.detail = "numeric run has invalid storage or stride metadata" := by
  simp only [decodeTypedAxis] at h
  split at h
  · cases h
  · rename_i hextent
    rw [not_or] at hextent
    split at h
    · split at h
      · cases h
        exact .inl rfl
      · cases h
    · split at h
      · cases h
      · split at h
        · cases h
          exact .inr (.inl rfl)
        · rename_i haddress
          split at h
          · rename_i hrun
            cases h
            rw [decodeNumericRun_error N (hat hextent.1 haddress) hrun]
            exact .inr (.inr rfl)
          · cases h

end FastEcu.Calibration
