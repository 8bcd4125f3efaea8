import FastEcu.Data.ShiftRegister
import FastEcu.Flash.Beef

/-!
# The CRC of the flash kernels

`Crc32` of `src/algorithms/checksum/checksum_primitives.cpp` takes a byte at a time from a table; a kernel shifts
its register bit by bit.

* `serialCrc32` : the reflected CRC, one bit at a time.
* `crcTable_eq` : an entry of the table is eight shifts of its index.
* `crc32_eq_serial`, `crc32_xor` : the two agree, and the CRC is affine.
-/

namespace FastEcu.Checksum

open Data ShiftRegister
open Flash.Beef (crcBit crcTable crc32)

/-- The polynomial, its lowest power in the highest place. -/
def crcPolynomial : UInt32 := 0x5AA5A55A

/-- One bit of a message into the register. -/
def serialBit (crc : UInt32) (bit : Bool) : UInt32 :=
  let mixed := crc ^^^ bit.toUInt32
  if mixed &&& 1 ≠ 0 then (mixed >>> 1) ^^^ crcPolynomial else mixed >>> 1

/-- The bits of a byte, the least significant one first. -/
def bitsOf (byte : Byte) : List Bool := (List.range 8).map byte.toNat.testBit

/-- The bit-serial CRC. -/
def serialCrc32 (data : Bytes) : UInt32 := (data.flatMap bitsOf).foldl serialBit 0xFFFFFFFF ^^^ 0xFFFFFFFF

/-! ### One byte -/

/-- The shift of the register. -/
abbrev crcShift : BitVec 32 → BitVec 32 := shift crcPolynomial.toBitVec

theorem and_one_ne_zero (c : UInt32) : (c &&& 1 ≠ 0) ↔ c.toBitVec.getLsbD 0 = true := by
  have hand : (c &&& 1).toBitVec = (BitVec.ofBool (c.toBitVec.getLsbD 0)).setWidth 32 := by
    rw [UInt32.toBitVec_and]
    exact BitVec.and_one_eq_setWidth_ofBool_getLsbD
  rw [← UInt32.toBitVec_inj.ne, hand]
  cases c.toBitVec.getLsbD 0 <;> decide

/-- What the source computes for a bit is one shift. -/
theorem toBitVec_shifted (c : UInt32) :
    (if c &&& 1 ≠ 0 then (c >>> 1) ^^^ crcPolynomial else c >>> 1).toBitVec = crcShift c.toBitVec := by
  have hdown : (c >>> 1).toBitVec = c.toBitVec >>> 1 := by
    rw [UInt32.toBitVec_shiftRight]
    rfl
  rw [crcShift, shift]
  by_cases h : c.toBitVec.getLsbD 0 = true
  · rw [if_pos ((and_one_ne_zero c).2 h), if_pos h, UInt32.toBitVec_xor, hdown]
  · rw [if_neg fun hand => h ((and_one_ne_zero c).1 hand), if_neg h, hdown]

theorem toBitVec_serialBit (crc : UInt32) (bit : Bool) :
    (serialBit crc bit).toBitVec = feed crcPolynomial.toBitVec crc.toBitVec bit := by
  have hbit : bit.toUInt32.toBitVec = bitWord bit := by cases bit <;> rfl
  rw [feed, ← hbit, ← UInt32.toBitVec_xor]
  exact toBitVec_shifted _

theorem toBitVec_foldl_serialBit (bits : List Bool) (crc : UInt32) :
    (bits.foldl serialBit crc).toBitVec = bits.foldl (feed crcPolynomial.toBitVec) crc.toBitVec := by
  induction bits generalizing crc with
  | nil => rfl
  | cons bit bits ih => rw [List.foldl_cons, List.foldl_cons, ih, toBitVec_serialBit]

/-- A byte as a register. -/
def byteWord (byte : Byte) : BitVec 32 := byte.toBitVec.setWidth 32

theorem wordOf_bitsOf (byte : Byte) : wordOf (bitsOf byte) = byteWord byte := by
  refine BitVec.eq_of_getLsbD_eq fun i hi => ?_
  rw [getLsbD_wordOf, byteWord, BitVec.getLsbD_setWidth, bitsOf]
  congr 1
  by_cases hbit : i < 8
  · rw [List.getD_eq_getElem?_getD, List.getElem?_map, List.getElem?_range hbit]
    rfl
  · rw [List.getD_eq_getElem?_getD, List.getElem?_eq_none (by simpa using Nat.le_of_not_lt hbit),
      BitVec.getLsbD_of_ge _ _ (Nat.le_of_not_lt hbit)]
    rfl

/-- The bits of a byte are mixed in at once. -/
theorem foldl_bitsOf (crc : BitVec 32) (byte : Byte) :
    (bitsOf byte).foldl (feed crcPolynomial.toBitVec) crc = crcShift^[8] (crc ^^^ byteWord byte) := by
  have hlength : (bitsOf byte).length = 8 := by simp [bitsOf]
  rw [foldl_feed (by omega), hlength, wordOf_bitsOf]

/-! ### The table -/

/-- The register of the table loop, mixed with what is left of the index, is shifted. -/
theorem repeat_crcBit (i : UInt32) (n : ℕ) :
    ((Nat.repeat crcBit n (0, i)).1 ^^^ (Nat.repeat crcBit n (0, i)).2).toBitVec = crcShift^[n] i.toBitVec ∧
      (Nat.repeat crcBit n (0, i)).2.toBitVec = i.toBitVec >>> n := by
  induction n with
  | zero => exact ⟨by simp [Nat.repeat], (BitVec.ushiftRight_zero _).symm⟩
  | succ n ih =>
    obtain ⟨hmixed, hindex⟩ := ih
    rw [Nat.repeat, Function.iterate_succ_apply', ← hmixed, ← toBitVec_shifted]
    generalize Nat.repeat crcBit n (0, i) = s at hindex
    obtain ⟨crc, c⟩ := s
    replace hindex : c.toBitVec = i.toBitVec >>> n := hindex
    refine ⟨congrArg UInt32.toBitVec ?_, ?_⟩
    · show (if (crc ^^^ c) &&& 1 ≠ 0 then (crc >>> 1) ^^^ crcPolynomial else crc >>> 1) ^^^ (c >>> 1) =
        if (crc ^^^ c) &&& 1 ≠ 0 then ((crc ^^^ c) >>> 1) ^^^ crcPolynomial else (crc ^^^ c) >>> 1
      have hdown : (crc ^^^ c) >>> 1 = crc >>> 1 ^^^ c >>> 1 := UInt32.shiftRight_xor
      split_ifs
      · rw [hdown, UInt32.xor_assoc, UInt32.xor_comm crcPolynomial, ← UInt32.xor_assoc]
      · exact hdown.symm
    · show (c >>> 1).toBitVec = _
      rw [UInt32.toBitVec_shiftRight, hindex, BitVec.shiftRight_add]
      rfl

/-- **An entry of the table is eight shifts of its index.** -/
theorem toBitVec_crcTable {i : UInt32} (h : i.toBitVec >>> 8 = 0#32) :
    (crcTable i).toBitVec = crcShift^[8] i.toBitVec := by
  obtain ⟨hmixed, hindex⟩ := repeat_crcBit i 8
  rw [UInt32.toBitVec_xor, hindex, h, BitVec.xor_zero] at hmixed
  exact hmixed

/-- A byte from the table. -/
def crcStep (crc : UInt32) (byte : Byte) : UInt32 :=
  crcTable ((crc ^^^ byte.toUInt32) &&& 0xFF) ^^^ (crc >>> 8)

theorem toBitVec_crcStep (crc : UInt32) (byte : Byte) :
    (crcStep crc byte).toBitVec = crcShift^[8] (crc.toBitVec ^^^ byteWord byte) := by
  have hbyte : byte.toUInt32.toBitVec = byteWord byte := rfl
  have hlow : ∀ x : BitVec 32, (x &&& 0xFF#32) >>> 8 = 0#32 := by
    intro x
    refine BitVec.eq_of_getLsbD_eq fun i hi => ?_
    have hmask : (0xFF#32).getLsbD (8 + i) = false := by
      rw [BitVec.getLsbD_ofNat, show 0xFF = 2 ^ 8 - 1 from rfl, Nat.testBit_two_pow_sub_one]
      simp
    rw [BitVec.getLsbD_ushiftRight, BitVec.getLsbD_and, hmask, Bool.and_false, BitVec.getLsbD_zero]
  have hbits : ∀ (x : BitVec 32), ∀ i < 8, (x &&& 0xFF#32).getLsbD i = x.getLsbD i := by
    intro x i hi
    have hmask : (0xFF#32).getLsbD i = true := by
      rw [BitVec.getLsbD_ofNat, show 0xFF = 2 ^ 8 - 1 from rfl, Nat.testBit_two_pow_sub_one]
      simp [hi, Nat.lt_trans hi (show 8 < 32 by decide)]
    rw [BitVec.getLsbD_and, hmask, Bool.and_true]
  have hhigh : byteWord byte >>> 8 = 0#32 := by
    refine BitVec.eq_of_getLsbD_eq fun i hi => ?_
    rw [BitVec.getLsbD_ushiftRight, byteWord, BitVec.getLsbD_setWidth,
      BitVec.getLsbD_of_ge _ _ (Nat.le_add_right 8 i), Bool.and_false, BitVec.getLsbD_zero]
  have hindex : ((crc ^^^ byte.toUInt32) &&& 0xFF).toBitVec =
      (crc.toBitVec ^^^ byteWord byte) &&& 0xFF#32 := by
    rw [UInt32.toBitVec_and, UInt32.toBitVec_xor, hbyte]
    rfl
  have hdown : (crc >>> 8).toBitVec = (crc.toBitVec ^^^ byteWord byte) >>> 8 := by
    rw [BitVec.ushiftRight_xor_distrib, hhigh, BitVec.xor_zero, UInt32.toBitVec_shiftRight]
    rfl
  rw [crcStep, UInt32.toBitVec_xor, toBitVec_crcTable (by rw [hindex]; exact hlow _), hindex, hdown]
  exact (shifts_eq (hbits _) (hlow _)).symm

/-- A byte from the table is its eight bits. -/
theorem crcStep_eq (crc : UInt32) (byte : Byte) : crcStep crc byte = (bitsOf byte).foldl serialBit crc := by
  refine UInt32.toBitVec_inj.1 ?_
  rw [toBitVec_crcStep, toBitVec_foldl_serialBit, foldl_bitsOf]

theorem crcStep_xor (crc crc' : UInt32) (byte byte' : Byte) :
    crcStep (crc ^^^ crc') (byte ^^^ byte') = crcStep crc byte ^^^ crcStep crc' byte' := by
  have hword : byteWord (byte ^^^ byte') = byteWord byte ^^^ byteWord byte' := by
    rw [byteWord, UInt8.toBitVec_xor, BitVec.setWidth_xor]
    rfl
  refine UInt32.toBitVec_inj.1 ?_
  rw [UInt32.toBitVec_xor, toBitVec_crcStep, toBitVec_crcStep, toBitVec_crcStep, ← shifts_xor, hword,
    UInt32.toBitVec_xor]
  congr 1
  rw [BitVec.xor_assoc, BitVec.xor_assoc, ← BitVec.xor_assoc crc'.toBitVec,
    BitVec.xor_comm crc'.toBitVec, BitVec.xor_assoc (byteWord byte)]

/-! ### The CRC -/

theorem crc32_eq_foldl (data : Bytes) : crc32 data = data.foldl crcStep 0xFFFFFFFF ^^^ 0xFFFFFFFF := rfl

theorem crc32_eq_serial (data : Bytes) : crc32 data = serialCrc32 data := by
  have hfold : ∀ crc, data.foldl crcStep crc = (data.flatMap bitsOf).foldl serialBit crc := by
    induction data with
    | nil => exact fun _ => rfl
    | cons byte data ih =>
      intro crc
      rw [List.foldl_cons, ih, List.flatMap_cons, List.foldl_append, crcStep_eq]
  rw [crc32_eq_foldl, serialCrc32, hfold]

/-- The CRC is affine: that of the zeros stands for what the start and the end add. -/
theorem crc32_xor {data data' : Bytes} (hlength : data.length = data'.length) :
    crc32 (List.zipWith (· ^^^ ·) data data') =
      crc32 data ^^^ crc32 data' ^^^ crc32 (List.replicate data.length 0) := by
  have hlength' : (List.zipWith (· ^^^ ·) data data').length = (List.replicate data.length (0 : Byte)).length := by
    simp [hlength]
  have hzeros : List.zipWith (· ^^^ ·) (List.zipWith (· ^^^ ·) data data') (List.replicate data.length (0 : Byte)) =
      List.zipWith (· ^^^ ·) data data' := by
    refine List.ext_getElem (by simp [hlength]) fun i _ _ => ?_
    simp
  have hfirst := foldl_zipWith crcStep_xor hlength 0xFFFFFFFF 0xFFFFFFFF
  have hboth := foldl_zipWith crcStep_xor hlength' (0xFFFFFFFF ^^^ 0xFFFFFFFF) 0xFFFFFFFF
  rw [hzeros, hfirst] at hboth
  have hones : (0xFFFFFFFF : UInt32) ^^^ 0xFFFFFFFF ^^^ 0xFFFFFFFF = 0xFFFFFFFF := by decide
  rw [hones] at hboth
  rw [crc32_eq_foldl, crc32_eq_foldl, crc32_eq_foldl, crc32_eq_foldl, hboth]
  generalize data.foldl crcStep 0xFFFFFFFF = a
  generalize data'.foldl crcStep 0xFFFFFFFF = b
  generalize (List.replicate data.length (0 : Byte)).foldl crcStep 0xFFFFFFFF = c
  refine UInt32.toBitVec_inj.1 ?_
  simp only [UInt32.toBitVec_xor]
  refine BitVec.eq_of_getLsbD_eq fun i _ => ?_
  simp only [BitVec.getLsbD_xor]
  cases a.toBitVec.getLsbD i <;> cases b.toBitVec.getLsbD i <;> cases c.toBitVec.getLsbD i <;>
    cases (UInt32.toBitVec 0xFFFFFFFF).getLsbD i <;> rfl

/-- **The CRC from the table is the bit-serial one, and it is affine.** -/
theorem crc32_spec : (∀ data : Bytes, crc32 data = serialCrc32 data) ∧
    ∀ data data' : Bytes, data.length = data'.length →
      crc32 (List.zipWith (· ^^^ ·) data data') =
        crc32 data ^^^ crc32 data' ^^^ crc32 (List.replicate data.length 0) :=
  ⟨crc32_eq_serial, fun _ _ hlength => crc32_xor hlength⟩

theorem crc32_spec_bytes : crc32 [0x12, 0x34] = serialCrc32 [0x12, 0x34] ∧
    crc32 [0x12 ^^^ 0xF0, 0x34 ^^^ 0x0F] = crc32 [0x12, 0x34] ^^^ crc32 [0xF0, 0x0F] ^^^ crc32 [0, 0] :=
  ⟨crc32_spec.1 _, crc32_spec.2 [0x12, 0x34] [0xF0, 0x0F] rfl⟩

end FastEcu.Checksum
