import FastEcu.Checksum.Windows
import FastEcu.Cipher.Ssm
import FastEcu.Flash.Beef

/-!
# Kernels before they are uploaded

A flash kernel gets a balance at its end, so that the ECU finds the sum of its words right: a halfword for the
SH705x on K-line (`subaru_denso_sh705x_kline_executor.cpp`), a word for BEEF on CAN (`beef_can_kernel.cpp`), which
also pads the kernel to blocks and encrypts it.

* `balancedKernel`, `preparePayload` : what is uploaded.
* `balancedKernel_spec`, `preparePayload_spec` : the balance is right.
-/

namespace FastEcu.Flash.Beef

open Calibration (ErrorKind)
open Checksum Data Computation Ports Ssm

/-- `std::vector::resize` of bytes. -/
def resize (bytes : Bytes) (size : ℕ) : Bytes := bytes.take size ++ List.replicate (size - bytes.length) 0

/-- The size that is rounded up to whole units. -/
def roundUp (size unit : ℕ) : ℕ := (size + (unit - 1)) / unit * unit

theorem length_resize (bytes : Bytes) (size : ℕ) : (resize bytes size).length = size := by
  rw [resize, List.length_append, List.length_take, List.length_replicate]
  omega

theorem resize_of_le {bytes : Bytes} {size : ℕ} (h : bytes.length ≤ size) :
    resize bytes size = bytes ++ List.replicate (size - bytes.length) 0 := by
  rw [resize, List.take_of_length_le h]

/-- The bytes that are added read as the bytes past the end do. -/
theorem byteAt_resize {bytes : Bytes} {size : ℕ} (h : bytes.length ≤ size) (i : ℕ) :
    byteAt (resize bytes size) i = byteAt bytes i := by
  rw [byteAt, byteAt, List.getD_eq_getElem?_getD, List.getD_eq_getElem?_getD, resize_of_le h]
  by_cases hi : i < bytes.length
  · rw [List.getElem?_append_left hi]
  · rw [List.getElem?_append_right (Nat.le_of_not_lt hi), List.getElem?_replicate,
      List.getElem?_eq_none (Nat.le_of_not_lt hi)]
    split_ifs <;> rfl

/-! ### A halfword on K-line -/

/-- `DensoSh705xKlineBalancedKernel`: the words of the kernel are read past its end as zeros. -/
def balancedKernel (kernel : Bytes) : Bytes :=
  let out := kernel ++ [0x00, 0x00]
  let out := resize out (roundUp out.length 4)
  let out := resize out (out.length - 2)
  let sum := (List.range ((out.length + 3) / 4)).foldl (fun sum k =>
    sum + wordBe (byteAt out (4 * k)) (byteAt out (4 * k + 1)) (byteAt out (4 * k + 2)) (byteAt out (4 * k + 3))) 0
  let balance := (0x5AA5 - sum) &&& 0xFFFF
  out ++ [(balance >>> 8).toUInt8, (balance &&& 0xFF).toUInt8]

/-- The kernel with the halfword of zeros that the balance replaces. -/
def paddedKernel (kernel : Bytes) : Bytes := resize kernel (roundUp (kernel.length + 2) 4)

theorem resize_append_zeros {bytes : Bytes} {n size : ℕ} (h : bytes.length ≤ size) :
    resize (bytes ++ List.replicate n 0) size = resize bytes size := by
  rw [resize_of_le h, resize, List.take_append, List.take_of_length_le h, List.take_replicate, List.append_assoc,
    ← List.replicate_add]
  congr 2
  rw [List.length_append, List.length_replicate]
  omega

theorem resize_resize {bytes : Bytes} {size size' : ℕ} (h : bytes.length ≤ size') (hle : size' ≤ size) :
    resize (resize bytes size) size' = resize bytes size' := by
  rw [resize_of_le (h.trans hle), resize_append_zeros h]

/-- The buffer before the balance is appended. -/
theorem balanced_buffer (kernel : Bytes) :
    resize (resize (kernel ++ [0x00, 0x00]) (roundUp (kernel ++ [0x00, 0x00]).length 4))
        ((resize (kernel ++ [0x00, 0x00]) (roundUp (kernel ++ [0x00, 0x00]).length 4)).length - 2) =
      resize kernel (roundUp (kernel.length + 2) 4 - 2) := by
  have hround : kernel.length + 2 ≤ roundUp (kernel.length + 2) 4 := by
    unfold roundUp
    omega
  have hlength : (kernel ++ [0x00, 0x00]).length = kernel.length + 2 := by simp
  rw [hlength, length_resize]
  have hzeros : resize (kernel ++ [0x00, 0x00]) (roundUp (kernel.length + 2) 4) =
      resize kernel (roundUp (kernel.length + 2) 4) := @resize_append_zeros kernel 2 _ (by omega)
  rw [hzeros, resize_resize (by omega) (by omega)]

theorem byteAt_of_le {bytes : Bytes} {i : ℕ} (h : bytes.length ≤ i) : byteAt bytes i = 0 := by
  rw [byteAt, List.getD_eq_getElem?_getD, List.getElem?_eq_none h]
  rfl

/-- The sum over the buffer is the sum of the words of the padded kernel. -/
theorem sum_balanced_buffer (kernel : Bytes) :
    (List.range ((roundUp (kernel.length + 2) 4 - 2 + 3) / 4)).foldl (fun sum k =>
        let out := resize kernel (roundUp (kernel.length + 2) 4 - 2)
        sum + wordBe (byteAt out (4 * k)) (byteAt out (4 * k + 1)) (byteAt out (4 * k + 2))
          (byteAt out (4 * k + 3))) 0 =
      sumOf (paddedKernel kernel) (wordPlaces 0 (paddedKernel kernel).length) := by
  have hround : kernel.length + 2 ≤ roundUp (kernel.length + 2) 4 ∧ roundUp (kernel.length + 2) 4 % 4 = 0 := by
    unfold roundUp
    omega
  have hlength : (paddedKernel kernel).length = roundUp (kernel.length + 2) 4 := length_resize _ _
  have hcount : (roundUp (kernel.length + 2) 4 - 2 + 3) / 4 = roundUp (kernel.length + 2) 4 / 4 := by omega
  have hfold : ∀ value : ℕ → UInt32, ∀ places : List ℕ, places.foldl (fun sum k => sum + value k) 0 =
      tally (· + ·) 0 value places := fun value places =>
    (foldl_eq_op_tally places 0).trans (UInt32.zero_add _)
  rw [hcount, hfold, sumOf, wordPlaces, hlength, tally, tally, List.foldr_map, Nat.sub_zero]
  refine tally_congr fun k hk => ?_
  have hlt := List.mem_range.1 hk
  rw [Nat.zero_add, readU32Be, if_pos (fitsAt_iff.2 (by rw [hlength]; omega)), paddedKernel]
  simp only [byteAt_resize (show kernel.length ≤ roundUp (kernel.length + 2) 4 - 2 by omega),
    byteAt_resize (show kernel.length ≤ roundUp (kernel.length + 2) 4 by omega)]

/-- The balance in 32 bits is the balance in 16 bits. -/
theorem balance_bytes (sum : UInt32) :
    [(((0x5AA5 - sum) &&& 0xFFFF) >>> 8).toUInt8, (((0x5AA5 - sum) &&& 0xFFFF) &&& 0xFF).toUInt8] =
      [byteOf (0x5AA5 - sum.toUInt16 : UInt16).toUInt32 8, byteOf (0x5AA5 - sum.toUInt16 : UInt16).toUInt32 0] := by
  have hmask : ((0x5AA5 - sum) &&& 0xFFFF : UInt32) = (0x5AA5 - sum.toUInt16 : UInt16).toUInt32 := by
    have hsub : (0x5AA5 - sum).toUInt16 = 0x5AA5 - sum.toUInt16 := UInt32.toUInt16_sub 0x5AA5 sum
    rw [← hsub]
    apply UInt32.toNat_inj.1
    rw [UInt32.toNat_and, UInt16.toNat_toUInt32, UInt32.toNat_toUInt16,
      show (0xFFFF : UInt32).toNat = 2 ^ 16 - 1 from rfl, Nat.and_two_pow_sub_one_eq_mod]
  rw [hmask]
  generalize (0x5AA5 - sum.toUInt16 : UInt16) = balance
  have hhigh : (balance.toUInt32 >>> 8).toUInt8 = byteOf balance.toUInt32 8 := by
    apply UInt8.toNat_inj.1
    rw [toNat_byteOf _ _ (by decide), UInt32.toNat_toUInt8, UInt32.toNat_shiftRight, Nat.shiftRight_eq_div_pow]
    rfl
  have hlow : (balance.toUInt32 &&& 0xFF).toUInt8 = byteOf balance.toUInt32 0 := by
    rw [byteOf, UInt32.shiftRight_zero]
  rw [hhigh, hlow]

/-- The balance is a halfword that is rebalanced. -/
theorem balancedKernel_eq (kernel : Bytes) : balancedKernel kernel =
    rebalanceU16Be (paddedKernel kernel) ((paddedKernel kernel).length - 2)
      (sumOf (paddedKernel kernel) (wordPlaces 0 (paddedKernel kernel).length)).toUInt16 0x5AA5 := by
  have hround : kernel.length + 2 ≤ roundUp (kernel.length + 2) 4 := by
    unfold roundUp
    omega
  have hlength : (paddedKernel kernel).length = roundUp (kernel.length + 2) 4 := length_resize _ _
  unfold balancedKernel
  dsimp only
  rw [balanced_buffer, length_resize]
  have hsum := sum_balanced_buffer kernel
  dsimp only at hsum
  rw [hsum, balance_bytes]
  generalize sumOf (paddedKernel kernel) (wordPlaces 0 (paddedKernel kernel).length) = sum
  have hzero : readU16Be (paddedKernel kernel) ((paddedKernel kernel).length - 2) = 0 := by
    rw [readU16Be, if_pos (fitsAt_iff.2 (by omega)), hlength, paddedKernel, byteAt_resize (by omega),
      byteAt_resize (by omega), byteAt_of_le (by omega), byteAt_of_le (by omega)]
    rfl
  have hbuffer : resize kernel (roundUp (kernel.length + 2) 4 - 2) =
      (paddedKernel kernel).take ((paddedKernel kernel).length - 2) := by
    rw [hlength, paddedKernel, resize_of_le (by omega), resize_of_le (by omega), List.take_append,
      List.take_of_length_le (by omega), List.take_replicate]
    congr 2
    omega
  rw [rebalanceU16Be, hzero, UInt16.zero_add, writeU16Be, if_pos (fitsAt_iff.2 (by omega)), overwrite, hbuffer,
    List.drop_eq_nil_of_le (by simp only [List.length_cons, List.length_nil]; omega), List.append_nil]

/-- **The balanced kernel is the shortest whole number of words with room for the balance; it starts with the
kernel, which zeros follow up to the balance, and the lower half of the sum of its words is `0x5AA5`.** -/
theorem balancedKernel_spec (kernel : Bytes) :
    IsLeast {size | 4 ∣ size ∧ kernel.length + 2 ≤ size} (balancedKernel kernel).length ∧
      (∃ balance : Bytes, balance.length = 2 ∧ balancedKernel kernel =
        kernel ++ List.replicate ((balancedKernel kernel).length - 2 - kernel.length) 0 ++ balance) ∧
      (sumOf (balancedKernel kernel) (wordPlaces 0 (balancedKernel kernel).length)).toUInt16 = 0x5AA5 := by
  have hround : kernel.length + 2 ≤ roundUp (kernel.length + 2) 4 ∧ 4 ∣ roundUp (kernel.length + 2) 4 ∧
      roundUp (kernel.length + 2) 4 < kernel.length + 2 + 4 := by
    unfold roundUp
    omega
  obtain ⟨hroom, hwords, hleast⟩ := hround
  have hpadded : (paddedKernel kernel).length = roundUp (kernel.length + 2) 4 := length_resize _ _
  have hlength : (balancedKernel kernel).length = roundUp (kernel.length + 2) 4 := by
    rw [balancedKernel_eq, rebalanceU16Be, length_writeU16Be, hpadded]
  refine ⟨?_, ?_, ?_⟩
  · rw [hlength]
    refine ⟨⟨hwords, hroom⟩, ?_⟩
    rintro size ⟨hsize, hfits⟩
    omega
  · rw [hlength]
    unfold balancedKernel
    dsimp only
    rw [balanced_buffer, resize_of_le (by omega)]
    exact ⟨_, rfl, rfl⟩
  · rw [hlength, ← hpadded, balancedKernel_eq]
    have hmem : (paddedKernel kernel).length - 4 ∈ wordPlaces 0 (paddedKernel kernel).length :=
      mem_wordPlaces_of (Nat.zero_le _) (by omega) (by omega)
    have hplace : (paddedKernel kernel).length - 4 + 2 = (paddedKernel kernel).length - 2 := by omega
    rw [← hplace]
    exact sumOf_rebalanceU16Be (spaced_wordPlaces _ _) hmem (by omega) _

/-! ### A word on CAN -/

/-- `kUploadBlockSize`. -/
def uploadBlockSize : ℕ := 128

/-- `PreparePayload`. -/
def preparePayload (kernel : Bytes) (family : String) : Except LinkError Bytes :=
  let blockCount := (roundUp kernel.length 4 + (uploadBlockSize - 1)) / uploadBlockSize
  if blockCount = 0 ∨ blockCount > 0xFFFFFFFFFFFFFFFF / uploadBlockSize then
    .error (.of .invalidConfig (family ++ " kernel upload size is invalid"))
  else
    let plain := resize kernel (blockCount * uploadBlockSize - 4)
    let sum := (List.range ((plain.length + 3) / 4)).foldl (fun sum k => sum + readU32Be plain (4 * k)) 0
    let plain := appendU32Be plain (0x5AA5A55A - sum)
    let encrypted := densoEncryptRom plain
    if encrypted.length ≥ 0x1000000 then
      .error (.of .invalidConfig (family ++ " kernel upload exceeds the 24-bit wire length"))
    else .ok encrypted

/-- The size of a payload: whole blocks. -/
def uploadSize (kernel : Bytes) : ℕ := roundUp (roundUp kernel.length 4) uploadBlockSize

/-- What a payload is before it is encrypted. -/
def plainPayload (kernel : Bytes) : Bytes :=
  let plain := resize kernel (uploadSize kernel - 4)
  plain ++ beBytes (0x5AA5A55A - sumOf plain (wordPlaces 0 plain.length))

/-- What the ECU decrypts. -/
structure PlainKernel (kernel plain : Bytes) : Prop where
  /-- Whole blocks. -/
  length : plain.length = uploadSize kernel
  /-- The words sum to the target. -/
  sum : sumOf plain (wordPlaces 0 plain.length) = 0x5AA5A55A
  /-- Up to the last word the kernel, and then zeros. -/
  body : plain.take (plain.length - 4) =
    kernel.take (plain.length - 4) ++ List.replicate (plain.length - 4 - kernel.length) 0
  /-- A kernel whose words do not fill the last block is there as a whole. -/
  whole : roundUp kernel.length 4 % uploadBlockSize ≠ 0 → kernel <+: plain

section Payload

variable {kernel : Bytes}

theorem uploadSize_bounds (h : kernel ≠ []) : kernel.length ≤ uploadSize kernel ∧ uploadSize kernel % 128 = 0 ∧
    128 ≤ uploadSize kernel := by
  have hpos := List.length_pos_of_ne_nil h
  unfold uploadSize roundUp uploadBlockSize
  omega

theorem length_plainPayload (h : kernel ≠ []) : (plainPayload kernel).length = uploadSize kernel := by
  have hbounds := uploadSize_bounds h
  rw [plainPayload, List.length_append, length_resize, length_beBytes]
  omega

/-- The balance word completes the sum. -/
theorem sumOf_append_balance {plain : Bytes} (h : plain.length % 4 = 0) (target : UInt32) :
    sumOf (plain ++ beBytes (target - sumOf plain (wordPlaces 0 plain.length)))
      (wordPlaces 0 (plain.length + 4)) = target := by
  have hplaces : wordPlaces 0 (plain.length + 4) = wordPlaces 0 plain.length ++ [plain.length] := by
    rw [← wordPlaces_append (Nat.zero_le _) (Nat.le_add_right _ 4) (by omega)]
    congr 1
    simp [wordPlaces]
  have hbody : ∀ r, sumOf (plain ++ r) (wordPlaces 0 plain.length) = sumOf plain (wordPlaces 0 plain.length) :=
    fun r => tally_congr fun p hp => readU32Be_append_left (mem_wordPlaces hp).2 r
  have hlast : ∀ w, readU32Be (plain ++ beBytes w) plain.length = w := by
    intro w
    have hfits : (plain ++ beBytes w).length = plain.length + 4 := by rw [List.length_append, length_beBytes]
    rw [readU32Be_eq_iff hfits.ge]
    intro i hi
    rw [List.getElem?_append_right (Nat.le_add_right _ _), Nat.add_sub_cancel_left]
  have hsum : ∀ r, sumOf (plain ++ r) (wordPlaces 0 plain.length ++ [plain.length]) =
      sumOf (plain ++ r) (wordPlaces 0 plain.length) + (readU32Be (plain ++ r) plain.length + 0) :=
    fun r => tally_append _
  rw [hplaces, hsum, hbody, hlast, UInt32.add_zero, UInt32.add_comm, UInt32.sub_add_cancel]

theorem plainPayload_plainKernel (h : kernel ≠ []) : PlainKernel kernel (plainPayload kernel) := by
  have hlength := length_plainPayload h
  obtain ⟨hkernel, hblocks, hblock⟩ := uploadSize_bounds h
  have hbody : (resize kernel (uploadSize kernel - 4)).length = uploadSize kernel - 4 := length_resize _ _
  refine ⟨hlength, ?_, ?_, fun hroom => ?_⟩
  · have hsum := @sumOf_append_balance (resize kernel (uploadSize kernel - 4)) (by omega) 0x5AA5A55A
    have hplus : (resize kernel (uploadSize kernel - 4)).length + 4 = uploadSize kernel := by omega
    rw [hplus] at hsum
    rw [hlength]
    exact hsum
  · rw [hlength, plainPayload, List.take_append_of_le_length hbody.ge, List.take_of_length_le hbody.le, resize]
  · -- a word is left, so nothing of the kernel is cut off
    have hle : kernel.length ≤ uploadSize kernel - 4 := by
      unfold uploadSize roundUp uploadBlockSize at *
      omega
    rw [plainPayload, resize_of_le hle, List.append_assoc]
    exact List.prefix_append _ _

/-- What is done with a kernel that is not empty. -/
theorem preparePayload_eq (h : kernel ≠ []) (hsize : uploadSize kernel < 0x1000000) (family : String) :
    preparePayload kernel family = .ok (densoEncryptRom (plainPayload kernel)) := by
  obtain ⟨-, hblocks, hblock⟩ := uploadSize_bounds h
  have hcount : (roundUp kernel.length 4 + (uploadBlockSize - 1)) / uploadBlockSize * uploadBlockSize =
    uploadSize kernel := rfl
  have hvalid : ¬ ((roundUp kernel.length 4 + (uploadBlockSize - 1)) / uploadBlockSize = 0 ∨
      (roundUp kernel.length 4 + (uploadBlockSize - 1)) / uploadBlockSize > 0xFFFFFFFFFFFFFFFF / uploadBlockSize) := by
    unfold uploadSize roundUp uploadBlockSize at *
    omega
  have hbody : (resize kernel (uploadSize kernel - 4)).length = uploadSize kernel - 4 := length_resize _ _
  have hsum : (List.range (((resize kernel (uploadSize kernel - 4)).length + 3) / 4)).foldl
      (fun sum k => sum + readU32Be (resize kernel (uploadSize kernel - 4)) (4 * k)) 0 =
        sumOf (resize kernel (uploadSize kernel - 4))
          (wordPlaces 0 (resize kernel (uploadSize kernel - 4)).length) := by
    have hfold : ∀ value : ℕ → UInt32, ∀ places : List ℕ, places.foldl (fun sum k => sum + value k) 0 =
        tally (· + ·) 0 value places := fun value places =>
      (foldl_eq_op_tally places 0).trans (UInt32.zero_add _)
    have hwords : (uploadSize kernel - 4 + 3) / 4 = (uploadSize kernel - 4) / 4 := by omega
    rw [hfold, hbody, hwords, sumOf, wordPlaces, tally, tally, List.foldr_map, Nat.sub_zero]
    simp only [Nat.zero_add]
  have hencrypted : ¬ (densoEncryptRom (plainPayload kernel)).length ≥ 0x1000000 := by
    rw [densoEncryptRom, length_calculatePayload, length_plainPayload h]
    omega
  unfold preparePayload
  dsimp only
  rw [if_neg hvalid, hcount, hsum]
  exact if_neg hencrypted

/-- A kernel that is too large for the length on the wire is refused. -/
theorem preparePayload_large (hsize : 0x1000000 ≤ uploadSize kernel) (family : String) :
    ∃ e, preparePayload kernel family = .error e := by
  have hcount : (roundUp kernel.length 4 + (uploadBlockSize - 1)) / uploadBlockSize * uploadBlockSize =
    uploadSize kernel := rfl
  unfold preparePayload
  dsimp only
  split_ifs with hinvalid hlarge
  · exact ⟨_, rfl⟩
  · exact ⟨_, rfl⟩
  · refine absurd ?_ hlarge
    rw [densoEncryptRom, length_calculatePayload, appendU32Be, List.length_append, length_resize, hcount, length_beBytes]
    omega

/-- **What a payload decrypts to.** -/
theorem preparePayload_spec (h : kernel ≠ []) (hsize : uploadSize kernel < 0x1000000) (family : String) :
    ∃ payload, preparePayload kernel family = .ok payload ∧ payload.length = uploadSize kernel ∧
      PlainKernel kernel (densoDecryptPage payload) := by
  obtain ⟨-, hblocks, -⟩ := uploadSize_bounds h
  have hlength := length_plainPayload h
  refine ⟨_, preparePayload_eq h hsize family, ?_, ?_⟩
  · rw [densoEncryptRom, length_calculatePayload, hlength]
    omega
  · rw [densoDecryptPage_densoEncryptRom, List.take_of_length_le (by omega)]
    exact plainPayload_plainKernel h

end Payload

end FastEcu.Flash.Beef
