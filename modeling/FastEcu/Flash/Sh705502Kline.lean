import FastEcu.Flash.BeefKline
import FastEcu.Flash.FlashDevices
import FastEcu.Flash.Workflow

/-!
# The SH7055_02 executor

A session of `src/backend/flash/ecu/subaru_denso_sh7055_02_executor.cpp`: the kernel is found or uploaded
through the bootloader, and the flash is read or written.

* `connectBootloader`, `uploadKernel`, `readMem`, `writeMem`, `run` : the session.
* `run_harmless` : a test never enables, commits or erases the flash.
-/

namespace FastEcu.Flash.Beef.Sh705502

open Calibration (ErrorKind)
open Data Computation Ports
open DensoKline

/-- The data of `SubaruDensoSh7055_02Plan`. -/
structure FamilyPlan where
  testerId : Byte
  targetId : Byte
  readEcuId : Bool

/-- What a session takes from its plan. -/
structure Plan where
  family : FamilyPlan
  operation : FlashOperation
  kernel : Option KernelImage
  image : Option Bytes
  transferRegion : MemoryRegion
  device : FlashDevice

/-! ### The bootloader -/

/-- What `ReadEcuId` makes of the reply: the five bytes of the id. -/
def ecuIdOf : Option Bytes → Except LinkError Bytes
  | none => .error (.of .timeout "no response from ECU during ID read")
  | some response =>
    if response.length < 5 ∨ byteAt response 4 ≠ 0xFF then
      .error (.of .badResponse "wrong response from ECU during ID read")
    else if response.length < 13 then .error (.of .badResponse "ECU ID response is too short")
    else .ok (subspan response 8 5)

/-- `ReadEcuId`. -/
def readEcuId (family : FamilyPlan) : KlineRun Bytes := do
  changeBaud 4800
  let received ← outside (exchangeOptional
    (Logging.addHeader [0xBF] family.testerId family.targetId) 0 2000)
  ofExcept (ecuIdOf received)

/-- `EnterBootMode`. -/
def enterBootMode : KlineRun Unit := do
  outside (Kline.guarded "disabling LEC lines" Kline.disableLecLines)
  outside (Kline.drain 10 "pre-countdown drain")
  each [3, 2, 1] fun _ => outside (Kline.sleep 1000)
  outside (Kline.sleep 250)
  outside (Kline.guarded "LEC pulse" (Kline.pulseLec2Line 200))
  outside (Kline.drain 10 "post-pulse drain")
  outside (Kline.sleep 190)

/-- The attempts of `InitBootloader` that are left. -/
def initAttempts : ℕ → KlineRun Bool
  | 0 => pure false
  | attempts + 1 => do
    DensoKline.checkCancelled "cancelled during WRX init"
    let received ← outside (exchangeOptional [0x4D, 0xFF, 0xB4] 0 10)
    if received = some [0x4D, 0x00, 0xB3] then pure true else initAttempts attempts

/-- `InitBootloader`. -/
def initBootloader : KlineRun Bool := initAttempts 20

/-- The id of the ECU, if the plan wants it. -/
def wantedEcuId (family : FamilyPlan) : KlineRun (Option Bytes) :=
  if family.readEcuId then do
    let id ← readEcuId family
    pure (some id)
  else pure none

/-- `ConnectBootloader`: whether the kernel is alive, and the id of the ECU. -/
def connectBootloader (family : FamilyPlan) : KlineRun (Bool × Option Bytes) := do
  DensoKline.checkCancelled "cancelled before connect"
  let probe ← requestKernelId
  if responseOk probe (BeefOp.kernelId.byte ||| 0x40) then pure (true, none)
  else do
    let ecuId ← wantedEcuId family
    changeBaud 9600
    enterBootMode
    let connected ← initBootloader
    outside (Kline.sleep 100)
    if connected then do
      outside (Kline.drain 10 "post-connect drain")
      pure (false, ecuId)
    else do
      outside (Kline.drain 100 "exhausted WRX drain")
      fail (.of .timeout "no response from bootloader")

/-! ### The kernel -/

/-- The bytes of the kernel as they are uploaded. -/
def encrypted (bytes : Bytes) : Bytes := (padded 4 bytes).map fun byte => (byte ^^^ 0x55) + 0x10

/-- The request of `UploadKernel`: the header has a sum of its own in its eighth byte. -/
def uploadRequest (kernel : KernelImage) : Bytes :=
  let payload := encrypted kernel.bytes
  let header : Byte → Bytes := fun sum => 0x53 :: (beBytes16 (kernel.loadAddress >>> 8).toUInt16 ++
    (beBytes24 (UInt32.ofNat (payload.length + 4)) ++ [(0x00 ^^^ 0x55) + 0x10, sum, 0x31, 0x61]))
  let request := header (negatedSum8 (header 0)) ++ payload
  request ++ [negatedSum8 request]

/-- `UploadKernel`.  The delay is the one of an adapter that needs a quiet time after the upload. -/
def uploadKernel (postUploadDelay : ℤ) (kernel : KernelImage) : KlineRun Unit := do
  DensoKline.checkCancelled "cancelled before kernel upload"
  if kernel.bytes = [] then fail (.of .invalidConfig "kernel image is empty")
  else do
    let response ← outside (exchangeOptional (uploadRequest kernel) postUploadDelay 200)
    if response.getD [] ≠ [] then fail (.of .badResponse "error on kernel upload")
    else do
      changeBaud 62500
      outside (Kline.sleep 100)
      let id ← requestKernelId
      if id.length ≤ 4 then fail (.of .badResponse "no valid response from ECU after kernel upload")
      else if ¬ responseOk id (BeefOp.kernelId.byte ||| 0x40) then
        fail (.of .badResponse "wrong response from ECU after kernel upload")
      else pure ()

/-! ### Reading -/

/-- What `ReadMem` makes of the reply to a request for a page: the page. -/
def pageOf : Option Bytes → Except LinkError Bytes
  | none => .error (.of .badResponse "Wrong response from ECU during read")
  | some received =>
    if ¬ responseOk received (BeefOp.readArea.byte ||| 0x40) ∨ received.length ≠ readPageSize + 6 then
      .error (.of .badResponse "Wrong response from ECU during read")
    else .ok (subspan received 5 readPageSize)

/-- The pages of `ReadMem` that are left. -/
def readPages : ℕ → UInt32 → KlineRun Bytes
  | 0, _ => pure []
  | pages + 1, address => do
    DensoKline.checkCancelled "cancelled during read"
    let page ← nest (.exchange (readRequest address)) do
      let response ← exchangeOptional (klineFrame (readRequest address)) 10 3000
      ofExcept (pageOf response)
    outside (Kline.sleep 1)
    let rest ← readPages pages (address + 0x400)
    pure (page ++ rest)

/-- `ReadMem`. -/
def readMem (region : MemoryRegion) : KlineRun Bytes := do
  let mapdata ← readPages ((region.length.toNat + readPageSize - 1) / readPageSize) region.start
  pure (mapdata.take region.length.toNat)

/-! ### Writing -/

/-- `DeclaredCrcFrameSize`. -/
def declaredCrcFrameSize (response : Bytes) : Option ℕ :=
  if response.length < 4 then none
  else if (readU16Be response 2).toNat ≤ 6 then some ((readU16Be response 2).toNat + 5)
  else some 0

/-- The reads of `ReadCrcContinuation` that are left. -/
def crcReads : ℕ → Bytes → KlineCalls Bytes
  | 0, response => pure response
  | tries + 1, response =>
    if declaredCrcFrameSize response = some 0 then
      fail (.of .badResponse "Oversized CRC response from ECU")
    else if (declaredCrcFrameSize response).any (· ≤ response.length) then pure response
    else do
      Kline.checkCancelled "cancelled before CRC continuation read"
      let more ← Kline.read 50
      Kline.checkCancelled "cancelled after CRC continuation read"
      Kline.sleep 100
      crcReads tries (response ++ more.getD [])

/-- `ReadCrcContinuation`. -/
def readCrcContinuation (response : Bytes) : KlineCalls Bytes := crcReads 20 response

/-- `UnwrapCrc`: the payload, with its prefix. -/
def unwrapCrc (response : Bytes) : Except LinkError Bytes :=
  if (declaredCrcFrameSize response).getD 0 = 0 ∨ some response.length ≠ declaredCrcFrameSize response ∨
      response.length < 7 ∨ ¬ responseOk response (BeefOp.crc.byte ||| 0x40) ∨
      byteAt response (response.length - 1) ≠ Logging.sum8 (response.take (response.length - 1)) then
    .error (.of .badResponse "Wrong or incomplete response from ECU during CRC check")
  else
    let payload := subspan response 5 (response.length - 6)
    if payload = [] then .error (.of .badResponse "Missing CRC response prefix")
    else if byteAt payload 0 = 0x7F then .error (.of .badResponse "ECU marked CRC response failed")
    else if payload.length ≠ 5 then .error (.of .badResponse "Truncated CRC response from ECU")
    else .ok payload

/-- `ReadBlockCrc`. -/
def readBlockCrc (block : MemoryRegion) : KlineRun UInt32 :=
  readBlockCrcWith readCrcContinuation unwrapCrc (readU32Be · 1) block

/-- The error of an exchange without a reply. -/
def missing (phase : String) : String := "no response from ECU during " ++ phase

/-- `InitFlashWrite`. -/
def initFlashWrite (testWrite : Bool) : KlineRun Unit := initFlashWriteWith missing testWrite

/-- `FlashBlock`. -/
def flashBlock (image : Bytes) (testWrite : Bool) (block : MemoryRegion) : KlineRun Unit :=
  flashBlockWith image missing testWrite 50 2000 block

/-- `WriteMem`. -/
def writeMem (device : FlashDevice) (image : Bytes) (testWrite : Bool) : KlineRun Unit :=
  if image.length ≠ device.romsize ∨ device.fblocks.any (fun block =>
      decide (image.length < block.start.toNat + block.length.toNat)) then
    fail (.of .invalidConfig "ROM image does not match the flash device")
  else writeChangedBlocks image device.fblocks readBlockCrc (initFlashWrite testWrite)
    (flashBlock image testWrite)

/-! ### Sessions -/

/-- `Run`: what was read, and the id of the ECU. -/
def run (postUploadDelay : ℤ) (plan : Plan) : KlineRun (Option Bytes × Option Bytes) := do
  outside Kline.disableLecLines
  DensoKline.checkCancelled "cancelled after disabling LEC lines"
  outside (Kline.drain 10 "initial drain")
  let (kernelAlive, ecuId) ← connectBootloader plan.family
  when (!kernelAlive) <|
    match plan.kernel with
    | none => fail (.of .invalidConfig "SH7055_02 requires a kernel image")
    | some kernel => uploadKernel postUploadDelay kernel
  match plan.operation with
  | .read => do
    let mapdata ← readMem plan.transferRegion
    pure (some mapdata, ecuId)
  | operation =>
    match plan.image with
    | none => fail (.of .invalidConfig "SH7055_02 write requires a ROM image")
    | some image => do
      writeMem plan.device image (operation == .testWrite)
      pure (none, none)

/-! ### Tests -/

section Harmless

theorem readEcuId_harmless (family : FamilyPlan) : Emits Harmless Bytes (readEcuId family) := by
  refine Emits.compositional.bind (changeBaud_harmless _) fun _ =>
    Emits.compositional.bind (exchangeOptional_harmless ?_ _ _) fun _ => ofExcept_harmless _
  exact (show (0x80 : Byte) ≠ 0xBE by decide)

theorem wantedEcuId_harmless (family : FamilyPlan) :
    Emits Harmless (Option Bytes) (wantedEcuId family) :=
  Compositional.ite (Emits.compositional.bind (readEcuId_harmless family) fun _ =>
    Emits.compositional.pure _) (Emits.compositional.pure none)

theorem enterBootMode_harmless : Emits Harmless Unit enterBootMode :=
  Emits.compositional.bind (outside_harmless (guarded_silent disableLecLines_silent _)) fun _ =>
    Emits.compositional.bind (drain_harmless _ _) fun _ =>
    Emits.compositional.bind (Emits.compositional.each fun _ _ => sleep_harmless _) fun _ =>
    Emits.compositional.bind (sleep_harmless _) fun _ =>
    Emits.compositional.bind (outside_harmless (guarded_silent (pulseLec2Line_silent _) _)) fun _ =>
    Emits.compositional.bind (drain_harmless _ _) fun _ => sleep_harmless _

theorem initAttempts_harmless (attempts : ℕ) : Emits Harmless Bool (initAttempts attempts) := by
  induction attempts with
  | zero => exact Emits.compositional.pure false
  | succ attempts ih =>
    exact Emits.compositional.bind (checkCancelled_harmless _) fun _ =>
      Emits.compositional.bind (exchangeOptional_harmless (by decide) _ _) fun _ =>
      Compositional.ite (Emits.compositional.pure true) ih

theorem connectBootloader_harmless (family : FamilyPlan) :
    Emits Harmless (Bool × Option Bytes) (connectBootloader family) := by
  refine Emits.compositional.bind (checkCancelled_harmless _) fun _ =>
    Emits.compositional.bind requestKernelId_harmless fun probe =>
    Compositional.ite (Emits.compositional.pure _) ?_
  refine Emits.compositional.bind (wantedEcuId_harmless family) fun ecuId =>
    Emits.compositional.bind (changeBaud_harmless _) fun _ =>
    Emits.compositional.bind enterBootMode_harmless fun _ =>
    Emits.compositional.bind (initAttempts_harmless 20) fun connected =>
    Emits.compositional.bind (sleep_harmless _) fun _ => Compositional.ite ?_ ?_
  · exact Emits.compositional.bind (drain_harmless _ _) fun _ => Emits.compositional.pure _
  · exact Emits.compositional.bind (drain_harmless _ _) fun _ => Emits.compositional.fail _

theorem uploadKernel_harmless (postUploadDelay : ℤ) (kernel : KernelImage) :
    Emits Harmless Unit (uploadKernel postUploadDelay kernel) := by
  refine Emits.compositional.bind (checkCancelled_harmless _) fun _ =>
    Compositional.ite (Emits.compositional.fail _) ?_
  refine Emits.compositional.bind (exchangeOptional_harmless ?_ _ _) fun _ =>
    Compositional.ite (Emits.compositional.fail _) ?_
  · exact (show (0x53 : Byte) ≠ 0xBE by decide)
  · exact Emits.compositional.bind (changeBaud_harmless _) fun _ =>
      Emits.compositional.bind (sleep_harmless _) fun _ =>
      Emits.compositional.bind requestKernelId_harmless fun _ =>
      Compositional.ite (Emits.compositional.fail _)
        (Compositional.ite (Emits.compositional.fail _) (Emits.compositional.pure ()))

theorem readCrcContinuation_silent (response : Bytes) :
    Silent KlineEvent.data? Bytes (readCrcContinuation response) := by
  have hreads : ∀ tries response, Silent KlineEvent.data? Bytes (crcReads tries response) := by
    intro tries
    induction tries with
    | zero => exact fun response => Emits.compositional.pure response
    | succ tries ih =>
      intro response
      unfold crcReads
      refine Compositional.ite (Emits.compositional.fail _)
        (Compositional.ite (Emits.compositional.pure response) ?_)
      exact Emits.compositional.bind (checkCancelled_silent _) fun _ =>
        Emits.compositional.bind (read_silent _) fun _ =>
        Emits.compositional.bind (checkCancelled_silent _) fun _ =>
        Emits.compositional.bind (sleep_silent _) fun _ => ih _
  exact hreads 20 response

theorem writeMem_harmless (device : FlashDevice) (image : Bytes) :
    Emits Harmless Unit (writeMem device image true) :=
  Compositional.ite (Emits.compositional.fail _)
    (writeChangedBlocks_harmless readCrcContinuation_silent unwrapCrc (readU32Be · 1) image missing
      device.fblocks 50 2000)

/-- **A session that tests a write never enables, commits or erases the flash.** -/
theorem run_harmless (postUploadDelay : ℤ) {plan : Plan} (h : plan.operation = .testWrite) :
    Emits Harmless (Option Bytes × Option Bytes) (run postUploadDelay plan) := by
  unfold run
  rw [h]
  refine Emits.compositional.bind (outside_harmless disableLecLines_silent) fun _ =>
    Emits.compositional.bind (checkCancelled_harmless _) fun _ =>
    Emits.compositional.bind (drain_harmless _ _) fun _ =>
    Emits.compositional.bind (connectBootloader_harmless _) fun connected =>
    Emits.compositional.bind (Emits.compositional.when _ ?_) fun _ => ?_
  · cases plan.kernel with
    | none => exact Emits.compositional.fail _
    | some kernel => exact uploadKernel_harmless _ kernel
  · cases plan.image with
    | none => exact Emits.compositional.fail _
    | some image =>
      exact Emits.compositional.bind (writeMem_harmless _ image) fun _ => Emits.compositional.pure _

end Harmless

end FastEcu.Flash.Beef.Sh705502
