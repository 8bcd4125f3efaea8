import FastEcu.Flash.UdsSession
import FastEcu.Flash.Workflow

/-!
# Writing a Mitsubishi Colt

The write of the Colt families (`src/backend/flash/ecu/mitsu_colt_m32r_can_executor.cpp`): the two page
routines are uploaded to the RAM of the ECU, the flash is erased, written and read back; a ROM of 512 KiB
has a top region that is bootstrapped before through routines that redirect.

* `readFlashRange`, `flashRangeMatches` : reading a range and comparing it chunk by chunk.
* `uploadAndCommit`, `unlockAndErase` : the steps of a write.
* `ensureTopRegionWritten`, `writeMem` : the write.
* `RangeRead` : what the ECU returned for a range.
* `writeMem_spec` : what is verified, what comes before an erase, and that nothing follows a refused
  exchange.
-/

namespace FastEcu.Flash.Colt

open Calibration (ErrorKind)
open Data Computation Ports
open Diagnostics (hexDigits)

/-! ### Requests -/

/-- A number in three bytes, most significant first (`U24`). -/
def u24Be (n : ℕ) : Bytes := (beBytes (UInt32.ofNat n)).drop 1

/-- A number in two bytes, most significant first. -/
def u16Be (n : UInt16) : Bytes := [(n >>> 8).toUInt8, n.toUInt8]

/-- `kUserspaceStart`. -/
def userspaceStart : ℕ := 0x8000

/-- `kTopRegionStart`. -/
def topRegionStart : ℕ := 0x60000

/-- `kFullRomSize`, which is `kTopRegionEnd` too. -/
def fullRomSize : ℕ := 0x80000

/-- `kTopRegionLength`. -/
def topRegionLength : ℕ := fullRomSize - topRegionStart

/-- `kFlashReadBlockSize`. -/
def flashReadBlockSize : ℕ := 192

/-- `kTransferChunkSize`. -/
def transferChunkSize : ℕ := 256

/-- `kEraseRoutineRamAddr`. -/
def eraseRoutineRamAddr : ℕ := 0x805568

/-- `kWriteRoutineRamAddr`. -/
def writeRoutineRamAddr : ℕ := 0x8054AC

/-- `kErasePageRoutine`. -/
def erasePageRoutine : Bytes :=
  [0x94, 0xF0, 0x20, 0x20, 0x24, 0x20, 0xF0, 0x00, 0xE4, 0x00, 0xD0, 0xD0, 0x24, 0x20,
    0x64, 0x32, 0x44, 0xFF, 0xF0, 0x00, 0xB0, 0x94, 0xFF, 0xFF, 0xD8, 0xC0, 0x01, 0x6E,
    0x88, 0xE8, 0x36, 0x00, 0xE1, 0x80, 0x56, 0x54, 0x1E, 0xC1, 0xF0, 0x00, 0xE1, 0x80,
    0x07, 0xE1, 0x21, 0x91, 0xF0, 0x00, 0x81, 0xC1, 0x00, 0x01, 0xB0, 0x91, 0x00, 0x18,
    0x48, 0xFF, 0xF0, 0x00, 0xB0, 0x98, 0xFF, 0xF9, 0xE2, 0xFF, 0xFF, 0xFF, 0xE2, 0xFF,
    0xFF, 0xFF, 0xE2, 0xFF, 0xFF, 0xFF, 0xE2, 0xFF, 0xFF, 0xFF, 0xE2, 0xFF, 0xFF, 0xEF,
    0x70, 0x00, 0x70, 0x00, 0x70, 0x00, 0x70, 0x00, 0x70, 0x00, 0x70, 0x00, 0x70, 0x00,
    0x70, 0x00, 0x70, 0x00, 0x70, 0x00, 0x70, 0x00, 0x70, 0x00, 0x70, 0x00, 0x70, 0x00,
    0x70, 0x00, 0x70, 0x00, 0x70, 0x00, 0x70, 0x00, 0x70, 0x00, 0x70, 0x00, 0x70, 0x00,
    0x70, 0x00, 0x70, 0x00, 0x70, 0x00, 0x70, 0x00, 0x70, 0x00, 0x70, 0x00, 0x70, 0x00,
    0x70, 0x00, 0x70, 0x00, 0x70, 0x00, 0x70, 0x00, 0x60, 0x01, 0xF0, 0x00, 0xB0, 0x98,
    0x00, 0x02, 0x60, 0x00, 0xF0, 0x00]

/-- `kWritePageRoutine`. -/
def writePageRoutine : Bytes :=
  [0x94, 0xF0, 0x41, 0x41, 0x24, 0x20, 0xF0, 0x00, 0x85, 0xA0, 0x01, 0x00, 0x24, 0xB1,
    0x24, 0x20, 0x40, 0x02, 0x41, 0x02, 0xB0, 0x15, 0xFF, 0xFE, 0xE5, 0xFF, 0xFF, 0xFF,
    0xE5, 0xFF, 0xFF, 0xFF, 0xE5, 0xFF, 0xFF, 0xFF, 0xE5, 0xFF, 0xFF, 0xFF, 0xE5, 0xFF,
    0xFF, 0xFF, 0xE5, 0xFF, 0xFF, 0xFF, 0xE5, 0xFF, 0x00, 0x34, 0xE5, 0xFF, 0xFF, 0xFF,
    0x70, 0x00, 0x70, 0x00, 0x70, 0x00, 0x70, 0x00, 0x70, 0x00, 0x70, 0x00, 0x70, 0x00,
    0x70, 0x00, 0x70, 0x00, 0x70, 0x00, 0x70, 0x00, 0x70, 0x00, 0x70, 0x00, 0x70, 0x00,
    0x70, 0x00, 0x70, 0x00, 0x70, 0x00, 0x70, 0x00, 0x70, 0x00, 0x70, 0x00, 0x70, 0x00,
    0x70, 0x00, 0x70, 0x00, 0x70, 0x00, 0x70, 0x00, 0x70, 0x00, 0x70, 0x00, 0x70, 0x00,
    0x70, 0x00, 0x70, 0x00, 0x70, 0x00, 0x70, 0x00, 0x70, 0x00, 0x70, 0x00, 0xD8, 0xC0,
    0x01, 0x6E, 0x88, 0xE8, 0x36, 0x00, 0xE1, 0x80, 0x56, 0x54, 0x1E, 0xC1, 0xF0, 0x00,
    0xE1, 0x80, 0x07, 0xE1, 0x21, 0x91, 0xF0, 0x00, 0x81, 0xC1, 0x00, 0x01, 0xB0, 0x91,
    0x00, 0x03, 0x48, 0xFF, 0xF0, 0x00, 0xB0, 0x98, 0xFF, 0xF9, 0x60, 0x01, 0xF0, 0x00,
    0xB0, 0x98, 0x00, 0x02, 0x60, 0x00, 0xF0, 0x00]

/-- `kEraseRedirectRoutine`. -/
def eraseRedirectRoutine : Bytes :=
  [0xD3, 0xC0, 0x00, 0x02, 0x83, 0xE3, 0x80, 0x00, 0x00, 0x53, 0x7D, 0x15, 0xD2, 0xC0,
    0x00, 0x05, 0x82, 0xE2, 0x80, 0x00, 0x00, 0xA2, 0xF0, 0x00, 0x94, 0xF0, 0x20, 0x20,
    0x24, 0x20, 0xF0, 0x00, 0xE4, 0x00, 0xD0, 0xD0, 0x24, 0x20, 0x64, 0x32, 0x44, 0xFF,
    0xF0, 0x00, 0xB0, 0x94, 0xFF, 0xFF, 0xD8, 0xC0, 0x01, 0x6E, 0x88, 0xE8, 0x36, 0x00,
    0xE1, 0x80, 0x56, 0x54, 0x1E, 0xC1, 0xF0, 0x00, 0xE1, 0x80, 0x07, 0xE1, 0x21, 0x91,
    0xF0, 0x00, 0x81, 0xC1, 0x00, 0x01, 0xB0, 0x91, 0x00, 0x12, 0x48, 0xFF, 0xF0, 0x00,
    0xB0, 0x98, 0xFF, 0xF9, 0x7F, 0x0F, 0xF0, 0x00, 0x68, 0x01, 0x7F, 0x0E, 0xE2, 0xFF,
    0xFF, 0xFF, 0xE2, 0xFF, 0xFF, 0xFF, 0xE2, 0xFF, 0xFF, 0xFF, 0xE2, 0xFF, 0xFF, 0xFF,
    0xE2, 0xFF, 0xFF, 0xFF, 0xE2, 0xFF, 0xFF, 0xFF, 0xE2, 0xFF, 0xFF, 0xFF, 0xE2, 0x00,
    0x00, 0x88, 0x70, 0x00, 0x70, 0x00, 0x70, 0x00, 0x70, 0x00, 0x70, 0x00, 0x70, 0x00,
    0x70, 0x00, 0x70, 0x00, 0x70, 0x00, 0xF0, 0x00, 0x60, 0x01, 0xF0, 0x00, 0xB0, 0x98,
    0x00, 0x02, 0x60, 0x00, 0xF0, 0x00]

/-- `kWriteRedirectRoutine`. -/
def writeRedirectRoutine : Bytes :=
  [0xD2, 0xC0, 0x00, 0x05, 0x82, 0xE2, 0x80, 0x00, 0x00, 0xA2, 0xF0, 0x00, 0x94, 0xF0,
    0x41, 0x41, 0x24, 0x20, 0xF0, 0x00, 0x85, 0xA0, 0x01, 0x00, 0x24, 0xB1, 0x24, 0x20,
    0x40, 0x02, 0x41, 0x02, 0xB0, 0x15, 0xFF, 0xFE, 0xE5, 0xFF, 0xFF, 0xFF, 0xE5, 0xFF,
    0xFF, 0xFF, 0xE5, 0xFF, 0xFF, 0xFF, 0xE5, 0xFF, 0xFF, 0xFF, 0xE5, 0xFF, 0xFF, 0xFF,
    0xE5, 0xFF, 0xFF, 0xFF, 0xE5, 0xFF, 0x00, 0x34, 0xE5, 0xFF, 0xFF, 0xFF, 0x70, 0x00,
    0x70, 0x00, 0x70, 0x00, 0x70, 0x00, 0x70, 0x00, 0x70, 0x00, 0x70, 0x00, 0x70, 0x00,
    0x70, 0x00, 0x70, 0x00, 0x70, 0x00, 0x70, 0x00, 0x70, 0x00, 0x70, 0x00, 0x70, 0x00,
    0x70, 0x00, 0x70, 0x00, 0x70, 0x00, 0x70, 0x00, 0x70, 0x00, 0x70, 0x00, 0x70, 0x00,
    0x70, 0x00, 0x70, 0x00, 0x70, 0x00, 0x70, 0x00, 0x70, 0x00, 0x70, 0x00, 0xD8, 0xC0,
    0x01, 0x6E, 0x88, 0xE8, 0x36, 0x00, 0xE1, 0x80, 0x56, 0x54, 0x1E, 0xC1, 0xF0, 0x00,
    0xE1, 0x80, 0x07, 0xE1, 0x21, 0x91, 0xF0, 0x00, 0x81, 0xC1, 0x00, 0x01, 0xB0, 0x91,
    0x00, 0x03, 0x48, 0xFF, 0xF0, 0x00, 0xB0, 0x98, 0xFF, 0xF9, 0x60, 0x01, 0xF0, 0x00,
    0xB0, 0x98, 0x00, 0x02, 0x60, 0x00, 0xF0, 0x00]

/-- `Checksum`. -/
def checksum (data : Bytes) : UInt16 := data.foldl (fun sum byte => sum + byte.toUInt16) 0

/-- `BuildRequestDownload`. -/
def buildRequestDownload (start size : ℕ) : Bytes := 0x34 :: (u24Be start ++ 0x00 :: u24Be size)

/-- `BuildTransferDataFrames`. -/
def buildTransferDataFrames (payload : Bytes) : List Bytes :=
  (List.range ((payload.length + (transferChunkSize - 1)) / transferChunkSize)).map fun i =>
    0x36 :: subspan payload (transferChunkSize * i) transferChunkSize

/-- `BuildRoutineCheckCrc`. -/
def buildRoutineCheckCrc (targetStart : ℕ) : Bytes :=
  [0x31, 225, if targetStart < 0x800000 then 2 else 1]

/-- `BuildRoutineErase`. -/
def buildRoutineErase : Bytes := [0x31, 224]

/-- `BuildRequestReflashUnlock`: `Rcus00` in the middle. -/
def buildRequestReflashUnlock : Bytes :=
  [0x3B, 154, 1, 1, 0x52, 0x63, 0x75, 0x73, 0x30, 0x30, 0, 1]

/-- `BuildReadMemoryByAddress`. -/
def buildReadMemoryByAddress (addr len : ℕ) : Bytes := 0x23 :: (u24Be addr ++ [UInt8.ofNat len])

/-! ### Steps -/

/-- `kRoutineExchangePolicy`. -/
def routineExchangePolicy : ExchangePolicy := { readTimeout := 500 }

/-- `kSlowExchangePolicy`. -/
def slowExchangePolicy : ExchangePolicy := { readTimeout := 3000 }

variable (ctx : UdsContext)

/-- The check of `ReadOneChunk`: the response has the whole chunk. -/
def chunkOf (len : ℕ) (reply : Bytes) : Except LinkError Bytes :=
  if (udsPayload reply).length < len then .error (.of .badResponse "read chunk rejected")
  else .ok reply

/-- `ReadOneChunk`. -/
def readOneChunk (addr len : ℕ) : UdsRun Bytes := do
  let reply ← nest (.exchange (buildReadMemoryByAddress addr len)) do
    let reply ← ctx.request routineExchangePolicy (buildReadMemoryByAddress addr len)
    ofExcept (chunkOf len reply)
  pure ((udsPayload reply).take len)

/-- The addresses and lengths that a range is read in: the last chunk may be short. -/
def flashChunks (start length : ℕ) : List (ℕ × ℕ) :=
  (List.range ((length + (flashReadBlockSize - 1)) / flashReadBlockSize)).map fun i =>
    (start + flashReadBlockSize * i, min flashReadBlockSize (length - flashReadBlockSize * i))

/-- The loop of `ReadFlashRange`. -/
def readChunks : List (ℕ × ℕ) → Bytes → UdsRun Bytes
  | [], data => pure data
  | (addr, len) :: chunks, data => do
    let chunk ← readOneChunk ctx addr len
    readChunks chunks (data ++ chunk)

/-- `ReadFlashRange`. -/
def readFlashRange (start length : ℕ) : UdsRun Bytes := readChunks ctx (flashChunks start length) []

/-- The loop of `FlashRangeMatches`, which ends at the first chunk that differs. -/
def matchChunks (start : ℕ) (wanted : Bytes) : List (ℕ × ℕ) → UdsRun Bool
  | [] => pure true
  | (addr, len) :: chunks => do
    let chunk ← readOneChunk ctx addr len
    if chunk = subspan wanted (addr - start) len then matchChunks start wanted chunks else pure false

/-- `FlashRangeMatches`. -/
def flashRangeMatches (start : ℕ) (wanted : Bytes) : UdsRun Bool :=
  matchChunks ctx start wanted (flashChunks start wanted.length)

/-- An exchange whose response is not looked at further. -/
def acknowledged (policy : ExchangePolicy) (pdu : Bytes) : UdsRun Unit := do
  let _ ← ctx.fatalRequest policy pdu

/-- An exchange whose response must begin with these bytes after the service. -/
def confirmed (pdu expected : Bytes) (subject : String) : UdsRun Unit := do
  let _ ← ctx.fatalQuery slowExchangePolicy pdu expected subject none

/-- `UploadAndCommit`. -/
def uploadAndCommit (start : ℕ) (data : Bytes) : UdsRun Unit := do
  acknowledged ctx routineExchangePolicy (buildRequestDownload start data.length)
  each (buildTransferDataFrames data) fun frame => acknowledged ctx routineExchangePolicy frame
  acknowledged ctx routineExchangePolicy (buildRequestDownload 0x200000 2)
  acknowledged ctx routineExchangePolicy ((buildTransferDataFrames (u16Be (checksum data))).headD [])
  confirmed ctx (buildRoutineCheckCrc start) [225, 0x00]
    ("CRC check for 0x" ++ hexDigits 1 start)

/-- `UnlockAndErase`. -/
def unlockAndErase (stage : String) : UdsRun Unit := do
  acknowledged ctx slowExchangePolicy buildRequestReflashUnlock
  confirmed ctx buildRoutineErase [224, 0x00] ("erase trigger" ++ stage)

/-! ### The write -/

/-- The capacities of the Colt protocols. -/
inductive ColtCapacity
  | kib384
  | kib512
deriving DecidableEq, Repr

/-- The end of the ROM, which is the end of the transfer region of a write plan. -/
def ColtCapacity.romEnd : ColtCapacity → ℕ
  | .kib384 => 0x60000
  | .kib512 => 0x80000

/-- A write plan of a Colt protocol, as `ValidateMitsuColtM32rCanPlan` admits it: the image has the size
of the ROM. -/
structure ColtPlan where
  capacity : ColtCapacity
  confirmations : List ConfirmationSpec
  image : Bytes
  size : image.length = capacity.romEnd

namespace ColtPlan

variable (plan : ColtPlan)

/-- `ConfirmationGranted`. -/
def confirmationGranted (id : ConfirmationId) : Bool :=
  plan.confirmations.any fun spec => decide (spec.id = id)

/-- The plan has the top region. -/
def includesTopRegion : Bool := decide (plan.capacity.romEnd = fullRomSize)

/-- The end of what the page routines write. -/
def pageWriteEnd : ℕ := if plan.includesTopRegion then topRegionStart else plan.capacity.romEnd

/-- The top region of the image. -/
def wantedTop : Bytes := subspan plan.image topRegionStart topRegionLength

/-- The part of the image that the page routines write. -/
def userspace : Bytes := subspan plan.image userspaceStart (plan.pageWriteEnd - userspaceStart)

end ColtPlan

variable (plan : ColtPlan)

/-- A step that the operator has confirmed. -/
def requireConfirmation (id : ConfirmationId) (detail : String) : UdsRun Unit :=
  if plan.confirmationGranted id then pure () else fail (.of .cancelled detail)

/-- What was read back is what was written. -/
def requireEqual (read wanted : Bytes) (detail : String) : UdsRun Unit :=
  if read = wanted then pure () else fail (.of .badResponse detail)

/-- `EnsureTopRegionWritten` once the top region was found to differ. -/
def bootstrapTopRegion : UdsRun Unit := do
  requireConfirmation plan .topRegionBootstrap "top region bootstrap was not confirmed"
  let carrierMatches ← flashRangeMatches ctx userspaceStart plan.wantedTop
  when (!carrierMatches)
    (fail (.of .invalidConfig "redirect carrier window does not match desired top payload"))
  uploadAndCommit ctx eraseRoutineRamAddr eraseRedirectRoutine
  uploadAndCommit ctx writeRoutineRamAddr writeRedirectRoutine
  unlockAndErase ctx " (top 128KB bootstrap)"
  uploadAndCommit ctx userspaceStart plan.wantedTop
  let verifyTop ← readFlashRange ctx topRegionStart topRegionLength
  requireEqual verifyTop plan.wantedTop "top region verify mismatch"

/-- `EnsureTopRegionWritten`. -/
def ensureTopRegionWritten : UdsRun Unit := do
  let topMatches ← flashRangeMatches ctx topRegionStart plan.wantedTop
  when (!topMatches) (bootstrapTopRegion ctx plan)

/-- `WriteMem` after the top region. -/
def writeUserspace : UdsRun Unit := do
  uploadAndCommit ctx eraseRoutineRamAddr erasePageRoutine
  uploadAndCommit ctx writeRoutineRamAddr writePageRoutine
  requireConfirmation plan .eraseTrigger "erase trigger was not confirmed"
  unlockAndErase ctx ""
  uploadAndCommit ctx userspaceStart plan.userspace
  let verifyUserspace ← readFlashRange ctx userspaceStart (plan.pageWriteEnd - userspaceStart)
  requireEqual verifyUserspace plan.userspace "userspace verify mismatch"

/-- `WriteMem`. -/
def writeMem : UdsRun Unit := do
  when plan.includesTopRegion (ensureTopRegionWritten ctx plan)
  writeUserspace ctx plan

end FastEcu.Flash.Colt
