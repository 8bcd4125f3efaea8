import FastEcu.Calibration.RunLayout
import FastEcu.Data.FixedWidth
import Mathlib.Data.Nat.Bitwise
import Mathlib.Tactic.IntervalCases

/-!
# The bytes of an element

`WriteRawElement` (`src/backend/calibration/map_edit.cpp`) packs an integer into the bytes of its
storage; the loop of `DecodeNumericRun` (`src/backend/calibration/calibration_service.cpp`) assembles
them again and extends the sign (`SignExtend`, `scaling_internal.cpp`).

* `storedInteger` : the integer that the decoder converts; `decodeCell_eq`.
* `signExtend_eq_bmod` : the sign extension is two's complement.
* `toNat_rawWord`, `map_toNat_writeRawElement` : both sides in terms of digits to the base 256.
* `writeRawElement_spec` : what is written is what is read, what is read is written as it was, and a
  write changes the bytes of its element only.
-/

namespace FastEcu.Calibration

open Memory Expression

variable {α : Type}

/-! ### The integer of a cell -/

/-- The bytes of the element, assembled in the byte order of the storage. -/
def rawWord (storageType : Option StorageType) (endian : String) (window : Bytes) (offset : ℕ) :
    UInt32 :=
  if storageType ≠ some .float ∧ endian = "little" then
    readULe window offset (storageByteSize storageType)
  else readUBe window offset (storageByteSize storageType)

/-- The integer that the decoder converts to a number. -/
def storedInteger (storageType : Option StorageType) (endian : String) (window : Bytes)
    (offset : ℕ) : ℤ :=
  let raw := rawWord storageType endian window offset
  if isUnsignedStorage storageType then raw.toNat
  else signExtend raw (storageByteSize storageType)

/-- The storage is for integers. -/
def IsIntegerStorage (storageType : Option StorageType) : Prop :=
  storageType ≠ none ∧ storageType ≠ some .float ∧ storageType ≠ some .bloblist

/-- The integers of the storage. -/
def InStorageRange (storageType : Option StorageType) (raw : ℤ) : Prop :=
  InCodeRange (! isUnsignedStorage storageType) (256 ^ storageByteSize storageType) raw

/-- The conversion of one cell: what the loop makes of the integer. -/
def cellOf (N : Numbers α) (run : ElementRun) (index : ℕ) (raw : ℤ) : Except Error α :=
  let value :=
    if run.isSelectable then .ok (N.ofInt 0)
    else evaluateChecked N.toArithmetic run.fromByte.toList (N.ofInt raw)
  match value with
  | .ok value => .ok value
  | .error e => invalidConfig s!"cell {index}: {e.detail}"

/-- The decoder converts the integer that is stored. -/
theorem decodeCell_eq_cellOf (N : Numbers α) {run : ElementRun} (h : run.storageType ≠ some .float)
    (window : Bytes) (index : ℕ) :
    decodeCell N run window index = cellOf N run index (storedInteger run.storageType run.endian
      window (sub64 (cellAddress run (storageByteSize run.storageType) index) run.address)) := by
  have hnumeric : ∀ raw : UInt32,
      (if isUnsignedStorage run.storageType = true then N.ofInt raw.toNat
        else N.ofInt (signExtend raw (storageByteSize run.storageType))) =
      N.ofInt (if isUnsignedStorage run.storageType = true then (raw.toNat : ℤ)
        else signExtend raw (storageByteSize run.storageType)) := fun raw => by split <;> rfl
  simp only [decodeCell, if_neg h, hnumeric]
  rfl

/-! ### Two's complement -/

/-- The sign bit is set in the upper half of the codes. -/
theorem and_signBit_eq_zero_iff {raw signBit : UInt32} {i : ℕ} (hbit : signBit.toNat = 2 ^ i)
    (hraw : raw.toNat < 2 ^ (i + 1)) : raw &&& signBit = 0 ↔ raw.toNat < 2 ^ i := by
  rw [← UInt32.toNat_inj, UInt32.toNat_and, hbit, Nat.and_two_pow, UInt32.toNat_zero,
    Nat.testBit_eq_decide_div_mod_eq]
  have hpow := Nat.two_pow_pos i
  rw [pow_succ] at hraw
  rcases lt_or_ge raw.toNat (2 ^ i) with hlt | hge
  · rw [Nat.div_eq_of_lt hlt]
    simp [hlt]
  · have hone : raw.toNat / 2 ^ i = 1 := Nat.div_eq_of_lt_le (by omega) (by omega)
    rw [hone]
    simp only [Nat.mod_succ, decide_true, Bool.toNat_true, Nat.one_mul]
    omega

theorem toInt_toInt32 (raw : UInt32) : raw.toInt32.toInt = Int.bmod raw.toNat (2 ^ 32) := by
  rw [← Int32.toInt_toBitVec, UInt32.toBitVec_toInt32, BitVec.toInt_eq_toNat_bmod]
  rfl

/-- Setting the bits above the code takes the modulus away. -/
theorem toInt_or_mask {raw mask : UInt32} {w : ℕ} (hw : w < 32) (hmask : mask.toNat + 2 ^ w = 2 ^ 32)
    (hraw : raw.toNat < 2 ^ w) : (raw ||| mask).toInt32.toInt = (raw.toNat : ℤ) - 2 ^ w := by
  have hshift : mask.toNat = (2 ^ (32 - w) - 1) <<< w := by
    rw [Nat.shiftLeft_eq, Nat.sub_mul, ← pow_add, Nat.sub_add_cancel hw.le, Nat.one_mul]
    omega
  have hor : (raw ||| mask).toNat = mask.toNat + raw.toNat := by
    rw [UInt32.toNat_or, Nat.or_comm, hshift, shiftLeft_or_eq hraw, Nat.shiftLeft_eq]
  have hpow : 2 ^ w * 2 ≤ 2 ^ 32 := by
    rw [← pow_succ]
    exact Nat.pow_le_pow_right (by decide) hw
  have hsum : ((raw ||| mask).toNat : ℤ) = (raw.toNat : ℤ) - 2 ^ w + (2 ^ 32 : ℕ) := by
    have hcast := congrArg (Nat.cast (R := ℤ)) hmask
    push_cast [hor] at hcast ⊢
    linarith
  have hcast : ((2 ^ w : ℕ) : ℤ) = 2 ^ w := Nat.cast_pow 2 w
  rw [toInt_toInt32, hsum, Int.add_bmod_right, Int.bmod_eq_of_le_mul_two]
  · omega
  · omega

theorem toInt_eq_bmod {raw signBit mask : UInt32} {w : ℕ} (hw : w < 31)
    (hbit : signBit.toNat = 2 ^ w) (hmask : mask.toNat + 2 ^ (w + 1) = 2 ^ 32)
    (hraw : raw.toNat < 2 ^ (w + 1)) :
    (if raw &&& signBit = 0 then raw.toInt32.toInt else (raw ||| mask).toInt32.toInt) =
      Int.bmod raw.toNat (2 ^ (w + 1)) := by
  have hhalf : (2 : ℕ) ^ (w + 1) = 2 * 2 ^ w := pow_succ' 2 w
  have hpow : (2 : ℕ) ^ (w + 1) ≤ 2 ^ 31 := Nat.pow_le_pow_right (by decide) hw
  have hcast : ((2 ^ (w + 1) : ℕ) : ℤ) = 2 ^ (w + 1) := Nat.cast_pow 2 (w + 1)
  by_cases hlow : raw &&& signBit = 0
  · have hlt := (and_signBit_eq_zero_iff hbit hraw).1 hlow
    rw [if_pos hlow, toInt_toInt32, Int.bmod_eq_of_le_mul_two (by omega) (by omega),
      Int.bmod_eq_of_le_mul_two (by omega) (by omega)]
  · have hge : 2 ^ w ≤ raw.toNat :=
      not_lt.1 fun hlt => hlow ((and_signBit_eq_zero_iff hbit hraw).2 hlt)
    rw [if_neg hlow, toInt_or_mask (Nat.succ_lt_succ hw) hmask hraw, ← hcast,
      ← Int.sub_bmod_right, Int.bmod_eq_of_le_mul_two (by omega) (by omega)]

/-- **The sign extension** of a code of a width is two's complement. -/
theorem signExtend_eq_bmod {raw : UInt32} {width : ℕ} (hpos : 0 < width) (hle : width ≤ 4)
    (hraw : raw.toNat < 256 ^ width) : signExtend raw width = Int.bmod raw.toNat (256 ^ width) := by
  interval_cases width
  · exact toInt_eq_bmod (w := 7) (by decide) (by decide) (by decide) hraw
  · exact toInt_eq_bmod (w := 15) (by decide) (by decide) (by decide) hraw
  · exact toInt_eq_bmod (w := 23) (by decide) (by decide) (by decide) hraw
  · exact toInt_toInt32 raw

/-! ### Digits -/

/-- The elements in the byte order of the storage: the lowest digit first or last. -/
def inOrder {β : Type} (storageType : Option StorageType) (endian : String) (l : List β) : List β :=
  if storageType ≠ some .float ∧ endian = "little" then l else l.reverse

section Digits

variable {storageType : Option StorageType} {endian : String} {window : Bytes} {offset : ℕ}

theorem inOrder_inOrder {β : Type} (storageType : Option StorageType) (endian : String)
    (l : List β) : inOrder storageType endian (inOrder storageType endian l) = l := by
  unfold inOrder
  split
  · rfl
  · exact List.reverse_reverse l

theorem length_inOrder {β : Type} (storageType : Option StorageType) (endian : String)
    (l : List β) : (inOrder storageType endian l).length = l.length := by
  unfold inOrder
  split
  · rfl
  · exact List.length_reverse

theorem toNat_wordBe24 (b₀ b₁ b₂ : Byte) :
    (wordBe24 b₀ b₁ b₂).toNat = b₀.toNat * 2 ^ 16 + b₁.toNat * 2 ^ 8 + b₂.toNat := by
  have hword : wordBe24 b₀ b₁ b₂ = wordBe 0 b₀ b₁ b₂ := by simp [wordBe24, wordBe]
  rw [hword, toNat_wordBe, UInt8.toNat_zero]
  omega

/-- Digits of bytes, in either order. -/
theorem lt_of_mem_inOrder {bytes : Bytes} {d : ℕ}
    (h : d ∈ inOrder storageType endian (bytes.map UInt8.toNat)) : d < 256 := by
  have hmem : d ∈ bytes.map UInt8.toNat := by
    unfold inOrder at h
    split at h
    · exact h
    · exact List.mem_reverse.1 h
  obtain ⟨byte, -, rfl⟩ := List.mem_map.1 hmem
  exact byte.toNat_lt

theorem toNat_readULe {width : ℕ} (hpos : 0 < width) (hle : width ≤ 4)
    (h : offset + width ≤ window.length) : (readULe window offset width).toNat =
      Nat.ofDigits 256 ((subspan window offset width).map UInt8.toNat) := by
  have hfits := fitsAt_iff.2 h
  rw [subspan_eq_map h]
  interval_cases width
  · have hlt : offset < window.length := h
    simp [readULe, hlt]
  · simp [readULe, readU16Le, hfits, toNat_wordBe16, List.range_succ, Nat.ofDigits_cons]
    omega
  · simp [readULe, readU24Le, hfits, toNat_wordBe24, List.range_succ, Nat.ofDigits_cons]
    omega
  · simp [readULe, readU32Le, hfits, toNat_wordBe, List.range_succ, Nat.ofDigits_cons]
    omega

theorem toNat_readUBe {width : ℕ} (hpos : 0 < width) (hle : width ≤ 4)
    (h : offset + width ≤ window.length) : (readUBe window offset width).toNat =
      Nat.ofDigits 256 ((subspan window offset width).map UInt8.toNat).reverse := by
  have hfits := fitsAt_iff.2 h
  rw [subspan_eq_map h]
  interval_cases width
  · have hlt : offset < window.length := h
    simp [readUBe, hlt]
  · simp [readUBe, readU16Be, hfits, toNat_wordBe16, List.range_succ, Nat.ofDigits_cons]
    omega
  · simp [readUBe, readU24Be, hfits, toNat_wordBe24, List.range_succ, Nat.ofDigits_cons]
    omega
  · simp [readUBe, readU32Be, hfits, toNat_wordBe, List.range_succ, Nat.ofDigits_cons]
    omega

/-- **What is read**, in digits: the bytes of the element in their order. -/
theorem toNat_rawWord (h : offset + storageByteSize storageType ≤ window.length) :
    (rawWord storageType endian window offset).toNat = Nat.ofDigits 256 (inOrder storageType endian
      ((subspan window offset (storageByteSize storageType)).map UInt8.toNat)) := by
  unfold rawWord inOrder
  split
  · exact toNat_readULe (storageByteSize_pos _) (storageByteSize_le _) h
  · exact toNat_readUBe (storageByteSize_pos _) (storageByteSize_le _) h

theorem byteOf_shift (packed : UInt32) {k : ℕ} (h : k < 4) :
    (byteOf packed (UInt32.ofNat (8 * k))).toNat = packed.toNat / 256 ^ k % 256 := by
  have hshift : (UInt32.ofNat (8 * k)).toNat = 8 * k := by
    rw [UInt32.toNat_ofNat']
    omega
  rw [toNat_byteOf _ _ (by omega), hshift, pow_mul]
  rfl

/-- **What is written**, in digits: those of the code of the integer, in the byte order. -/
theorem map_toNat_writeRawElement (spec : MapElementSpec α) (raw : ℤ) :
    (writeRawElement spec raw).map UInt8.toNat = inOrder spec.storageType spec.endian
      (fixedDigits 256 (storageByteSize spec.storageType)
        (toCode (256 ^ storageByteSize spec.storageType) raw)) := by
  have hle := storageByteSize_le spec.storageType
  unfold writeRawElement inOrder
  dsimp only
  generalize storageByteSize spec.storageType = width at hle ⊢
  -- the 32 bits that are packed have the digits of the shorter code
  have hpacked : (UInt32.ofNat (raw % 2 ^ 32).toNat).toNat = toCode (256 ^ 4) raw := by
    rw [UInt32.toNat_ofNat']
    exact Nat.mod_eq_of_lt (toCode_lt (by decide) raw)
  have hdigits : fixedDigits 256 width (toCode (256 ^ width) raw) =
      fixedDigits 256 width (UInt32.ofNat (raw % 2 ^ 32).toNat).toNat := by
    rw [hpacked, ← toCode_mod (Nat.pow_pos (by decide)) (by decide) (pow_dvd_pow 256 hle) raw,
      fixedDigits_mod]
  rw [hdigits, List.map_map]
  generalize UInt32.ofNat (raw % 2 ^ 32).toNat = packed
  split
  · refine List.map_congr_left fun k hk => ?_
    exact byteOf_shift packed ((List.mem_range.1 hk).trans_le hle)
  · refine List.ext_getElem (by simp [fixedDigits]) fun k hk hk' => ?_
    have hlt : k < width := by simpa using hk
    simp only [fixedDigits, List.getElem_map, List.getElem_range, List.getElem_reverse,
      List.length_map, List.length_range, Function.comp_apply]
    exact byteOf_shift packed (by omega)

end Digits

/-! ### Round trips -/

section RoundTrip

variable {storageType : Option StorageType} {endian : String} {window : Bytes} {offset : ℕ}

theorem rawWord_lt (h : offset + storageByteSize storageType ≤ window.length) :
    (rawWord storageType endian window offset).toNat < 256 ^ storageByteSize storageType := by
  have hlength : (inOrder storageType endian ((subspan window offset
      (storageByteSize storageType)).map UInt8.toNat)).length = storageByteSize storageType := by
    rw [length_inOrder, List.length_map, length_subspan h]
  rw [toNat_rawWord h]
  conv_rhs => rw [← hlength]
  exact Nat.ofDigits_lt_base_pow_length (by decide) fun d hd => lt_of_mem_inOrder hd

/-- The integer that is read is the one of the code that is read. -/
theorem storedInteger_eq_ofCode (h : offset + storageByteSize storageType ≤ window.length) :
    storedInteger storageType endian window offset = ofCode (! isUnsignedStorage storageType)
      (256 ^ storageByteSize storageType) (rawWord storageType endian window offset).toNat := by
  have hlt := @rawWord_lt storageType endian window offset h
  unfold storedInteger ofCode
  cases isUnsignedStorage storageType with
  | true => rfl
  | false => exact signExtend_eq_bmod (storageByteSize_pos _) (storageByteSize_le _) hlt

/-- A read depends on the bytes of the element only. -/
theorem storedInteger_subspan (h : offset + storageByteSize storageType ≤ window.length) :
    storedInteger storageType endian (subspan window offset (storageByteSize storageType)) 0 =
      storedInteger storageType endian window offset := by
  have hlength := length_subspan h
  have hword : rawWord storageType endian
      (subspan window offset (storageByteSize storageType)) 0 =
        rawWord storageType endian window offset := by
    apply UInt32.toNat_inj.1
    rw [toNat_rawWord (by omega), toNat_rawWord h, subspan_subspan (by omega), Nat.add_zero]
  simp only [storedInteger, hword]

/-- An integer of the storage is read back from its bytes. -/
theorem storedInteger_writeRawElement (spec : MapElementSpec α) {raw : ℤ}
    (h : InStorageRange spec.storageType raw) :
    storedInteger spec.storageType spec.endian (writeRawElement spec raw) 0 = raw := by
  have hlength := length_writeRawElement spec raw
  have hfits : 0 + storageByteSize spec.storageType ≤ (writeRawElement spec raw).length := by omega
  have hpow : 0 < 256 ^ storageByteSize spec.storageType := Nat.pow_pos (by decide)
  have hwhole : subspan (writeRawElement spec raw) 0 (storageByteSize spec.storageType) =
      writeRawElement spec raw := List.take_of_length_le (by rw [List.drop_zero, hlength])
  rw [storedInteger_eq_ofCode hfits, toNat_rawWord hfits, hwhole, map_toNat_writeRawElement,
    inOrder_inOrder, ofDigits_fixedDigits (by decide), Nat.mod_eq_of_lt (toCode_lt hpow raw)]
  exact ofCode_toCode hpow h

/-- The integer of any bytes is in the storage, and is written as these bytes. -/
theorem writeRawElement_storedInteger (spec : MapElementSpec α) {bytes : Bytes}
    (h : bytes.length = storageByteSize spec.storageType) :
    InStorageRange spec.storageType (storedInteger spec.storageType spec.endian bytes 0) ∧
      writeRawElement spec (storedInteger spec.storageType spec.endian bytes 0) = bytes := by
  have hfits : 0 + storageByteSize spec.storageType ≤ bytes.length := by omega
  have hlt := @rawWord_lt spec.storageType spec.endian bytes 0 hfits
  have hwhole : subspan bytes 0 (storageByteSize spec.storageType) = bytes :=
    List.take_of_length_le (by rw [List.drop_zero, h])
  rw [storedInteger_eq_ofCode hfits]
  refine ⟨inCodeRange_ofCode hlt, ?_⟩
  apply List.map_injective_iff.2 fun _ _ => UInt8.toNat_inj.1
  have hlength : (inOrder spec.storageType spec.endian (bytes.map UInt8.toNat)).length =
      storageByteSize spec.storageType := by rw [length_inOrder, List.length_map, h]
  rw [map_toNat_writeRawElement, toCode_ofCode hlt, toNat_rawWord hfits, hwhole]
  conv_lhs => rw [← hlength]
  rw [fixedDigits_ofDigits (by decide) fun d hd => lt_of_mem_inOrder hd, inOrder_inOrder]

end RoundTrip

/-! ### Reading and writing one element -/

section Element

variable {N : Numbers α} {run : ElementRun} {spec : MapElementSpec α}

/-- A run that is decoded does not overflow. -/
theorem not_overflows_of_decodeNumericRun {rom : DefinitionBytes} {cells : NumericRun α}
    (hrom : rom.Addressable) (h : decodeNumericRun N rom run = .ok cells) : ¬ run.Overflows := by
  intro hover
  obtain ⟨e, he⟩ := (endRejected_of_stop (N := N) hover.1
    (ElementRun.stop_eq_of_overflows hover)).decode rom hrom
  cases h.symm.trans he

/-- A part of a window that can be read can be read. -/
theorem at_subspan {rom : DefinitionBytes} {address size offset count : ℕ} {window : Bytes}
    (h : rom.at address size = some window) (hle : offset + count ≤ size) :
    rom.at (address + offset) count = some (subspan window offset count) := by
  simp only [DefinitionBytes.at] at h ⊢
  split at h
  · cases h
  · split at h
    · cases h
    · cases h
      rw [if_neg (by omega), if_neg (by omega), subspan_subspan hle, Nat.sub_add_comm (by omega)]

theorem sub64_add_left {address offset : ℕ} (h : address + offset ≤ u64Max) :
    sub64 (address + offset) address = offset := by
  have hsub : address + offset + 2 ^ 64 - address = offset + 2 ^ 64 := by omega
  rw [sub64, hsub, u64, Nat.add_mod_right]
  exact u64_of_le (by omega)

/-- **The decoder** reads each element where a write puts it, and converts the integer that is
stored there. -/
theorem decodeNumericRun_element {rom : DefinitionBytes} {cells : NumericRun α} {index : ℕ}
    (hlayout : run.SameLayout spec) (hfloat : run.storageType ≠ some .float)
    (hcount : run.count ≤ u32Max) (hrom : rom.Addressable)
    (h : decodeNumericRun N rom run = .ok cells) (hindex : index < run.count) :
    ∃ bytes, rom.at (elementByteAddress spec index) (storageByteSize run.storageType) = some bytes ∧
      cells[index]? = some (cellOf N run index
        (storedInteger run.storageType run.endian bytes 0)) := by
  have hfits := not_overflows_of_decodeNumericRun hrom h
  rw [decodeNumericRun] at h
  split at h
  · rename_i hread
    cases hwindow : rom.at run.address (run.stop - run.address) with
    | none =>
      rw [hwindow] at h
      cases h
    | some window =>
      rw [hwindow] at h
      cases h
      have hcount' : run.count ≠ 0 := Nat.ne_zero_of_lt hindex
      have hend := not_lt.1 fun hlt => hfits ⟨hcount', hlt⟩
      have hoffset := @elementOffset_le index run.startPosition run.interval
        (storageByteSize run.storageType) run.count hindex
      have hstop := ElementRun.stop_eq_of_fits hfits hcount'
      obtain ⟨haddress, hvalue⟩ := elementByteAddress_eq_cellAddress hlayout hread hcount hfits hindex
      obtain ⟨hstart, hle, hlength, -⟩ := at_eq_some hwindow
      rw [hvalue] at haddress
      have hlast : elementOffset run.startPosition run.interval (storageByteSize run.storageType)
          index + storageByteSize run.storageType ≤ window.length := by omega
      refine ⟨_, hvalue ▸ at_subspan hwindow (by omega), ?_⟩
      rw [List.getElem?_map, List.getElem?_range hindex, Option.map_some,
        decodeCell_eq_cellOf N hfloat, ← haddress, sub64_add_left (by omega),
        storedInteger_subspan hlast]
  · cases h

/-- A write of an element changes the bytes of the element or nothing. -/
theorem writeBytes_writeRawElement (spec : MapElementSpec α) (raw : ℤ) (session : CalibrationSession)
    (address : ℕ) :
    (∃ e, session.writeBytes address (writeRawElement spec raw) = (.error e, session)) ∨
      ∃ image, session.writeBytes address (writeRawElement spec raw) =
          (.ok (), { session with image, dirty := true }) ∧
        StoresAt session.image image address (writeRawElement spec raw) := by
  have hne : writeRawElement spec raw ≠ [] := fun hnil => by
    have hlength := length_writeRawElement spec raw
    rw [hnil] at hlength
    exact absurd hlength.symm (storageByteSize_pos _).ne'
  cases hcheck : session.checkWrite address (writeRawElement spec raw).length with
  | ok u =>
    exact .inr (CalibrationSession.writeBytes_of_ok hcheck hne)
  | error e =>
    refine .inl ⟨e, ?_⟩
    simp only [CalibrationSession.writeBytes]
    split
    · rename_i he
      cases he.symm.trans hcheck
      rfl
    · rename_i hok
      cases hok.symm.trans hcheck

/-- **What is written is what is read, and what is read is written as it was.**  Every integer of the
storage is read back from its bytes; any bytes of an element are those of the integer that is read
from them; the decoder reads the bytes of the element that a write stores, and converts their integer;
and a write stores the bytes of its element and changes no other. -/
theorem writeRawElement_spec (N : Numbers α) (run : ElementRun) (spec : MapElementSpec α)
    (hlayout : run.SameLayout spec) (hendian : spec.endian = run.endian)
    (hinteger : IsIntegerStorage run.storageType) (hcount : run.count ≤ u32Max) :
    (∀ raw, InStorageRange run.storageType raw →
      storedInteger run.storageType run.endian (writeRawElement spec raw) 0 = raw) ∧
    (∀ bytes : Bytes, bytes.length = storageByteSize run.storageType →
      InStorageRange run.storageType (storedInteger run.storageType run.endian bytes 0) ∧
      writeRawElement spec (storedInteger run.storageType run.endian bytes 0) = bytes) ∧
    (∀ (rom : DefinitionBytes) (cells : NumericRun α), rom.Addressable →
      decodeNumericRun N rom run = .ok cells → ∀ index < run.count,
      ∃ bytes, rom.at (elementByteAddress spec index) (storageByteSize run.storageType) =
          some bytes ∧
        cells[index]? = some (cellOf N run index
          (storedInteger run.storageType run.endian bytes 0))) ∧
    ∀ (raw : ℤ) (session : CalibrationSession) (index : ℕ),
      (writeRawElement spec raw).length = storageByteSize run.storageType ∧
      ((∃ e, session.writeBytes (elementByteAddress spec index) (writeRawElement spec raw) =
          (.error e, session)) ∨
        ∃ image, session.writeBytes (elementByteAddress spec index) (writeRawElement spec raw) =
            (.ok (), { session with image, dirty := true }) ∧
          StoresAt session.image image (elementByteAddress spec index)
            (writeRawElement spec raw)) := by
  rw [← hlayout.storageType, ← hendian]
  refine ⟨fun raw hraw => storedInteger_writeRawElement spec hraw,
    fun bytes hlength => writeRawElement_storedInteger spec hlength,
    fun rom cells hrom h index hindex => ?_,
    fun raw session index => ⟨length_writeRawElement spec raw,
      writeBytes_writeRawElement spec raw session _⟩⟩
  rw [hlayout.storageType, hendian]
  exact decodeNumericRun_element hlayout hinteger.2.1 hcount hrom h hindex

theorem writeRawElement_spec_integers :
    let spec : MapElementSpec ℤ := ⟨0x10, some .int24, "little", "x", "", "", 1, 1, 1, 2⟩
    writeRawElement spec (-2) = [0xfe, 0xff, 0xff] ∧
      storedInteger (some .int24) "little" (writeRawElement spec (-2)) 0 = -2 ∧
      writeRawElement spec (storedInteger (some .int24) "little" [0x01, 0x02, 0x80] 0) =
        [0x01, 0x02, 0x80] := by
  have hspec := writeRawElement_spec integers
    ⟨0x10, 3, 1, 2, some .int24, "little", "x", false⟩
    ⟨0x10, some .int24, "little", "x", "", "", 1, 1, 1, 2⟩ ⟨rfl, rfl, rfl, rfl⟩ rfl
    ⟨by decide, by decide, by decide⟩ (by decide)
  exact ⟨by decide, hspec.1 (-2) ⟨by decide, by decide⟩, (hspec.2.1 [0x01, 0x02, 0x80] rfl).2⟩

end Element

end FastEcu.Calibration
