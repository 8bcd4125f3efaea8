import FastEcu.Checksum.DensoTable
import FastEcu.Memory.Image

/-!
# The checksum families

The corrections of `src/algorithms/checksum`, one namespace for each family, and the sums they are
made of (`checksum_primitives.cpp`).  A fixed-layout family takes the bytes of ECU addresses
`[0, romSize)`; its constants are offsets into them.

Every family gives back as many bytes as it was given: `length_calculateChecksumResult` in each
namespace.
-/

namespace FastEcu.Checksum

open Memory

/-! ### Sums -/

/-- The 32-bit sum and XOR of a run of words. -/
structure WordFold where
  /-- The sum. -/
  sum : UInt32 := 0
  /-- The XOR. -/
  xorAll : UInt32 := 0
deriving DecidableEq

/-- `FoldPieceU32Be`. -/
def foldPieceU32Be (fold : WordFold) (piece : Bytes) : WordFold :=
  (List.range (piece.length / 4)).foldl (fun fold k =>
    let word := readU32Be piece (4 * k)
    ⟨fold.sum + word, fold.xorAll ^^^ word⟩) fold

/-- `FoldU32Be`: the sum and XOR of the big-endian words of every piece. -/
def foldU32Be (pieces : List Bytes) : WordFold := pieces.foldl foldPieceU32Be {}

/-- `SumPieceU16Be`. -/
def sumPieceU16Be (sum : UInt16) (piece : Bytes) : UInt16 :=
  (List.range (piece.length / 2)).foldl (fun sum k => sum + readU16Be piece (2 * k)) sum

/-- `SumU16Be`: the sum of the big-endian halfwords of every piece. -/
def sumU16Be (pieces : List Bytes) : UInt16 := pieces.foldl sumPieceU16Be 0

/-- `RebalanceU16Be`. -/
def rebalanceU16Be (rom : Bytes) (offset : ℕ) (observed target : UInt16) : Bytes :=
  writeU16Be rom offset (readU16Be rom offset + target - observed)

/-- `RebalanceU32Be`. -/
def rebalanceU32Be (rom : Bytes) (offset : ℕ) (observed target : UInt32) : Bytes :=
  writeU32Be rom offset (readU32Be rom offset + target - observed)

/-- The 8-bit sum and XOR of every byte outside `[first, last]`. -/
def foldBytesOutside (rom : Bytes) (first last : ℕ) : Byte × Byte :=
  (List.range rom.length).foldl (fun fold i =>
    if i < first || i > last then (fold.1 + byteAt rom i, fold.2 ^^^ byteAt rom i) else fold) (0, 0)

/-- Stores a value that differs from the stored one, and then reports a difference. -/
def storeU32Be (state : Bytes × Bool) (address : ℕ) (calculated stored : UInt32) : Bytes × Bool :=
  if calculated ≠ stored then (writeU32Be state.1 address calculated, false) else state

/-- Rebalances a halfword when the sum is not the target, and then reports a difference. -/
def balanceU16Be (state : Bytes × Bool) (address : ℕ) (calculated target : UInt16) :
    Bytes × Bool :=
  if calculated ≠ target then (rebalanceU16Be state.1 address calculated target, false) else state

/-- Rebalances a word when the sum is not the target, and then reports a difference. -/
def balanceU32Be (state : Bytes × Bool) (address : ℕ) (calculated target : UInt32) :
    Bytes × Bool :=
  if calculated ≠ target then (rebalanceU32Be state.1 address calculated target, false) else state

/-- Stores a byte that differs from the stored one, and then reports a difference. -/
def storeByte (state : Bytes × Bool) (address : ℕ) (calculated stored : Byte) : Bytes × Bool :=
  if calculated ≠ stored then (state.1.set address calculated, false) else state

/-- The end of a family: the bytes, and whether any check failed. -/
def finish (state : Bytes × Bool) (message : String) : ChecksumResult :=
  if !state.2 then { status := .corrected, romData := state.1, message := message }
  else { status := .unchanged, romData := state.1 }

@[simp] theorem length_storeU32Be (state : Bytes × Bool) (address : ℕ) (c s : UInt32) :
    (storeU32Be state address c s).1.length = state.1.length := by
  unfold storeU32Be
  split_ifs <;> simp

@[simp] theorem length_balanceU16Be (state : Bytes × Bool) (address : ℕ) (c t : UInt16) :
    (balanceU16Be state address c t).1.length = state.1.length := by
  unfold balanceU16Be
  split_ifs <;> simp [rebalanceU16Be]

@[simp] theorem length_balanceU32Be (state : Bytes × Bool) (address : ℕ) (c t : UInt32) :
    (balanceU32Be state address c t).1.length = state.1.length := by
  unfold balanceU32Be
  split_ifs <;> simp [rebalanceU32Be]

@[simp] theorem length_storeByte (state : Bytes × Bool) (address : ℕ) (c s : Byte) :
    (storeByte state address c s).1.length = state.1.length := by
  unfold storeByte
  split_ifs <;> simp

@[simp] theorem romData_finish (state : Bytes × Bool) (message : String) :
    (finish state message).romData = state.1 := by
  unfold finish
  split_ifs <;> rfl

/-! ### Denso SH7xxx -/

namespace EcuSubaruDensoSH7xxx

/-- `CalculateChecksumResult`. -/
def calculateChecksumResult (rom : MemoryView) (tableAddress : FlashAddress)
    (tableLength : UInt32) : ChecksumResult :=
  let run := correctDensoTable rom.range.start rom.data
    { tableAddress := tableAddress, tableLength := tableLength }
  match failureOf run.1 with
  | some (status, message) => { status := status, romData := run.2, message := message }
  | none =>
    match run.1 with
    | .corrected =>
      { status := .corrected, romData := run.2, message := "Checksums corrected" }
    | .disabled =>
      { status := .disabled, romData := run.2, message := "ROM has all checksums disabled" }
    | _ => { status := .unchanged, romData := run.2, message := "Checksums OK" }

end EcuSubaruDensoSH7xxx

/-! ### Denso SH7055 TCU -/

namespace TcuSubaruDensoSH7055

/-- `kRomSize`. -/
def romSize : ℕ := 0x80000

/-- `kChecksumAreas`: the start of each area and its number of halfwords. -/
def checksumAreas : List (ℕ × ℕ) :=
  [(0x1000, 0x0800), (0x3000, 0x003a), (0x3080, 0x4c00), (0xc880, 0x83f6), (0x1d06c, 0x83f6),
    (0x2d858, 0x83f8), (0x3e048, 0x0fdc), (0x40000, 0x741c), (0x4e838, 0x83f6), (0x5f024, 0x83f8),
    (0x6f814, 0x8174), (0x7fb80, 0x0240)]

/-- `CalculateChecksumResult`. -/
def calculateChecksumResult (rom : Bytes) : ChecksumResult :=
  let checksum := sumU16Be (checksumAreas.map fun area => subspan rom area.1 (2 * area.2))
  finish (balanceU16Be (rom, true) 0x7fff4 checksum 0x5aa5) "Subaru Denso SH7055 TCU Checksum"

theorem length_calculateChecksumResult (rom : Bytes) :
    (calculateChecksumResult rom).romData.length = rom.length := by
  simp only [calculateChecksumResult, romData_finish, length_balanceU16Be]

end TcuSubaruDensoSH7055

/-! ### Mitsubishi M32R CAN -/

namespace EcuMitsuM32rCan

/-- `kTargetChecksum`. -/
def targetChecksum : UInt32 := 0x5AA55AA5

/-- `kCorrectionWords`. -/
def correctionWords : ℕ := 0x3FFCE

/-- `kCorrectionWordCount`. -/
def correctionWordCount : ℕ := 5

/-- `kBalanceSlot`. -/
def balanceSlot : ℕ := 0x3FFC0

/-- `kAreaCodeOffset`. -/
def areaCodeOffset : ℕ := 0x3FFCB

/-- `kAreaCodes`: the code of an area and its end. -/
def areaCodes : List (Byte × ℕ) :=
  [(0x40, 0x040000), (0x50, 0x080000), (0x60, 0x100000), (0x80, 0x140000), (0xC0, 0x050000),
    (0xC2, 0x060000), (0xC3, 0x0C0000)]

/-- `AreaEndFor`. -/
def areaEndFor (code : Byte) : Option ℕ := (areaCodes.find? fun a => a.1 == code).map (·.2)

/-- `kLayoutEnd`. -/
def layoutEnd : ℕ := correctionWords + 2 + correctionWordCount * 4

/-- The sum that the ECU's checker ends with. -/
def checksumOf (rom : Bytes) (areaEnd : ℕ) : UInt32 :=
  let sum := (foldU32Be [rom.take areaEnd]).sum - (readU16Be rom correctionWords).toUInt32
  (List.range correctionWordCount).foldl
    (fun sum index => sum - readU32Be rom (correctionWords + 2 + index * 4)) sum + 0xFFFF - 5

/-- `CalculateChecksumResult`. -/
def calculateChecksumResult (rom : Bytes) : ChecksumResult :=
  if rom.length < layoutEnd then
    { status := .invalidSize, romData := rom,
      message := "ROM is too small to carry the Mitsubishi M32R checksum layout" }
  else
    match areaEndFor (byteAt rom areaCodeOffset) with
    | none =>
      { status := .disabled, romData := rom,
        message := "Unrecognised checksum area code; checksums disabled" }
    | some areaEnd =>
      if areaEnd > rom.length then
        { status := .disabled, romData := rom,
          message := "Checksum area extends past the end of the ROM; checksums disabled" }
      else
        let checksum := checksumOf rom areaEnd
        if checksum = targetChecksum then { status := .unchanged, romData := rom }
        else
          { status := .corrected, romData := rebalanceU32Be rom balanceSlot checksum targetChecksum,
            message := "Mitsubishi M32R CAN ECU Checksum" }

theorem length_calculateChecksumResult (rom : Bytes) :
    (calculateChecksumResult rom).romData.length = rom.length := by
  unfold calculateChecksumResult
  split_ifs
  · rfl
  · split
    · rfl
    · simp only
      split_ifs <;> simp [rebalanceU32Be]

end EcuMitsuM32rCan

/-! ### Hitachi M32R CAN -/

namespace EcuSubaruHitachiM32rCan

/-- `kRomSize`. -/
def romSize : ℕ := 0x80000

/-- Checksums 1 and 2: the sum and XOR of `0x6000` to `0x7fff`. -/
def correct12 (rom : Bytes) : Bytes × Bool :=
  let fold := foldU32Be [subspan rom 0x6000 0x2000]
  let stored1 := readU32Be rom 0x7ffe8
  let stored2 := readU32Be rom 0x7ffec
  storeU32Be (storeU32Be (rom, true) 0x7ffe8 fold.sum stored1) 0x7ffec fold.xorAll stored2

/-- Checksums 3 and 4: the sum and XOR of `0` to `0x7ffef` without the word at `0x10000`. -/
def correct34 (state : Bytes × Bool) : Bytes × Bool :=
  let fold := foldU32Be [state.1.take 0x10000, subspan state.1 0x10004 0x6ffec]
  let stored3 := readU32Be state.1 0x7fff0
  let stored4 := readU32Be state.1 0x7fff4
  storeU32Be (storeU32Be state 0x7fff0 fold.sum stored3) 0x7fff4 fold.xorAll stored4

/-- Checksum 5: the 16-bit sum of `0x4000` to `0x7ffff` without the word at `0x10000`. -/
def correct5 (state : Bytes × Bool) : Bytes × Bool :=
  let sum := (foldU32Be [subspan state.1 0x4000 0xc000, state.1.drop 0x10004]).sum
  balanceU16Be state 0x7fffa sum.toUInt16 0x5aa5

/-- Checksum 6: the 8-bit sum and XOR of every byte outside the word at `0x10000`. -/
def checksum6 (rom : Bytes) : UInt16 :=
  let fold := foldBytesOutside rom 0x10000 0x10003
  (fold.1.toUInt16 <<< 8) + fold.2.toUInt16

/-- A wrong checksum 6 is reported but not written. -/
def check6 (state : Bytes × Bool) : Bytes × Bool :=
  if checksum6 state.1 ≠ readU16Be state.1 0x10000 then (state.1, false) else state

/-- `CalculateChecksumResult`. -/
def calculateChecksumResult (rom : Bytes) : ChecksumResult :=
  finish (check6 (correct5 (correct34 (correct12 rom)))) "Subaru Hitachi M32R CAN ECU Checksum"

theorem length_calculateChecksumResult (rom : Bytes) :
    (calculateChecksumResult rom).romData.length = rom.length := by
  have hcheck : ∀ state, (check6 state).1 = state.1 := fun state => by
    unfold check6
    split_ifs <;> rfl
  simp only [calculateChecksumResult, romData_finish, hcheck, correct5, correct34, correct12,
    length_balanceU16Be, length_storeU32Be]

end EcuSubaruHitachiM32rCan

/-! ### Hitachi M32R K-Line -/

namespace EcuSubaruHitachiM32rKline

/-- `kRomSize`. -/
def romSize : ℕ := 0x80000

/-- Checksums 1 and 2: the 8-bit sum and XOR of every byte outside their own. -/
def correct12 (rom : Bytes) : Bytes × Bool :=
  let fold := foldBytesOutside rom 0x8100 0x8101
  let stored1 := byteAt rom 0x8100
  let stored2 := byteAt rom 0x8101
  storeByte (storeByte (rom, true) 0x8100 fold.1 stored1) 0x8101 fold.2 stored2

/-- Checksum 3: the 16-bit sum of `0x4000` to `0x7ffff` without the word at `0x8100`. -/
def correct3 (state : Bytes × Bool) : Bytes × Bool :=
  let sum := (foldU32Be [subspan state.1 0x4000 0x4100, state.1.drop 0x8104]).sum
  balanceU16Be state 0x7fffa sum.toUInt16 0x5aa5

/-- `CalculateChecksumResult`. -/
def calculateChecksumResult (rom : Bytes) : ChecksumResult :=
  finish (correct3 (correct12 rom)) "Subaru Hitachi M32R K-Line ECU Checksum"

theorem length_calculateChecksumResult (rom : Bytes) :
    (calculateChecksumResult rom).romData.length = rom.length := by
  simp only [calculateChecksumResult, romData_finish, correct3, correct12, length_balanceU16Be,
    length_storeByte]

end EcuSubaruHitachiM32rKline

/-! ### Hitachi SH7058 -/

namespace EcuSubaruHitachiSH7058

/-- `kRomSize`. -/
def romSize : ℕ := 0x100000

/-- Checksums 1 and 2: the sum and XOR of `0x18400` to `0x1dfff`. -/
def correct12 (rom : Bytes) : Bytes × Bool :=
  let fold := foldU32Be [subspan rom 0x18400 0x5c00]
  let stored1 := readU32Be rom 0xfffe8
  let stored2 := readU32Be rom 0xfffec
  storeU32Be (storeU32Be (rom, true) 0xfffe8 fold.sum stored1) 0xfffec fold.xorAll stored2

/-- Checksum 5: the sum of `0x4000` to `0xfffff` without the slots of checksums 3 and 4.  A
rebalanced word alone is not reported. -/
def correct5 (state : Bytes × Bool) : Bytes × Bool :=
  let sum := (foldU32Be [subspan state.1 0x4000 0xfbff0, state.1.drop 0xffff8]).sum
  if sum ≠ 0x5aa5a55a then (rebalanceU32Be state.1 0xffff8 sum 0x5aa5a55a, state.2) else state

/-- Checksums 3 and 4: the sum and XOR of `0` to `0xfffff` without their own slots. -/
def correct34 (state : Bytes × Bool) : Bytes × Bool :=
  let fold := foldU32Be [state.1.take 0xffff0, state.1.drop 0xffff8]
  let stored3 := readU32Be state.1 0xffff0
  let stored4 := readU32Be state.1 0xffff4
  storeU32Be (storeU32Be state 0xffff0 fold.sum stored3) 0xffff4 fold.xorAll stored4

/-- `CalculateChecksumResult`. -/
def calculateChecksumResult (rom : Bytes) : ChecksumResult :=
  finish (correct34 (correct5 (correct12 rom))) "Subaru Hitachi SH7058 CAN ECU Checksum"

theorem length_calculateChecksumResult (rom : Bytes) :
    (calculateChecksumResult rom).romData.length = rom.length := by
  have h5 : ∀ state, (correct5 state).1.length = state.1.length := fun state => by
    unfold correct5
    simp only
    split_ifs <;> simp [rebalanceU32Be]
  simp only [calculateChecksumResult, romData_finish, correct34, length_storeU32Be, h5, correct12]

end EcuSubaruHitachiSH7058

/-! ### Hitachi SH72543R -/

namespace EcuSubaruHitachiSh72543r

/-- `kRomSize`. -/
def romSize : ℕ := 0x200000

/-- `CalculateChecksumResult`. -/
def calculateChecksumResult (rom : Bytes) : ChecksumResult :=
  let chksum := sumU16Be [rom.drop 0x6000]
  finish (balanceU16Be (rom, true) 0x1ffffe chksum 0x5aa5) "Subaru Hitachi SH72543r ECU Checksum"

theorem length_calculateChecksumResult (rom : Bytes) :
    (calculateChecksumResult rom).romData.length = rom.length := by
  simp only [calculateChecksumResult, romData_finish, length_balanceU16Be]

end EcuSubaruHitachiSh72543r

/-! ### Mitsubishi MH8104 TCU -/

namespace TcuMitsuMH8104Can

/-- `kRomSize`. -/
def romSize : ℕ := 0x80000

/-- `CalculateChecksumResult`. -/
def calculateChecksumResult (rom : Bytes) : ChecksumResult :=
  let checksum := (foldU32Be [rom.drop 0x8000]).sum - 0xffff + 5
  finish (balanceU32Be (rom, true) 0x81fc checksum 0x5aa45aab)
    "Subaru Hitachi M32R K-Line/CAN ECU Checksum"

theorem length_calculateChecksumResult (rom : Bytes) :
    (calculateChecksumResult rom).romData.length = rom.length := by
  simp only [calculateChecksumResult, romData_finish, length_balanceU32Be]

end TcuMitsuMH8104Can

/-! ### Hitachi M32R TCU -/

namespace TcuSubaruHitachiM32rCan

/-- The byte of `sum` from bit `shift` on, taken from `full`. -/
def fieldByte (full sum shift : UInt32) : Byte := (full - ((sum >>> shift) &&& 0xff)).toUInt8

/-- `Checksum2Field`: the sum of every word outside the two fields at `0x8000`, as it is stored. -/
def checksum2Field (rom : Bytes) : UInt32 :=
  let sum := (foldU32Be [rom.take 0x8000, rom.drop 0x8008]).sum
  readU32Le [fieldByte 0x100 sum 0, fieldByte 0xff sum 8, fieldByte 0xff sum 16,
    fieldByte 0xff sum 24] 0

/-- `CalculateChecksumResult`. -/
def calculateChecksumResult (rom : Bytes) : ChecksumResult :=
  if rom.length < 0x8024 || rom.length % 4 ≠ 0 then
    { status := .invalidSize, romData := rom,
      message := "ROM size does not match the checksum layout" }
  else
    let checksum1 := (foldU32Be [rom.drop 0x8020]).sum
    let checksum2 := checksum2Field rom
    let stored2 := readU32Be rom 0x8000
    let state := balanceU32Be (rom, true) 0x8020 checksum1 0x5aa5a55a
    let state :=
      if checksum2 ≠ stored2 then
        let field := checksum2Field state.1
        (writeU32Be (writeU32Be state.1 0x8000 field) (0x8000 + 4) field, false)
      else state
    finish state "Subaru Hitachi M32R K-Line/CAN ECU Checksum"

theorem length_calculateChecksumResult (rom : Bytes) :
    (calculateChecksumResult rom).romData.length = rom.length := by
  unfold calculateChecksumResult
  split_ifs
  · rfl
  · simp only [romData_finish]
    split_ifs <;> simp

end TcuSubaruHitachiM32rCan

end FastEcu.Checksum
