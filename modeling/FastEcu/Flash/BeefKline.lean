import FastEcu.Flash.BeefEcu
import FastEcu.Flash.KlineTransport

/-!
# The BEEF kernel of the early Denso ECUs on K-line

What the executors of MC68HC16Y5_02 and SH7055_02 share
(`src/backend/flash/ecu/denso_beef_kline_common.h`), with their `FlashBlock`, which differs only in times
and in the wording of an error.

* `exchangeAckWith` : a request whose reply must acknowledge it.
* `writeChangedBlocks` : the blocks are compared, those that differ are flashed and all are compared again.
* `flashBlockWith` : a block is erased, unless this is a test, and sent.
* `writeChangedBlocks_meets` : what is exchanged, whatever the answers are.
* `Harmless`, `writeChangedBlocks_harmless` : a test never enables, commits or erases the flash.
-/

namespace FastEcu.Flash.Beef.DensoKline

open Calibration (ErrorKind)
open Data Computation Ports

/-! ### Exchanges -/

/-- `DensoBeefKlineResponseOk`. -/
def responseOk (received : Bytes) (ack : Byte) : Bool :=
  decide (5 < received.length) && readU16Be received 0 == 0xBEEF && byteAt received 4 == ack

/-- `DensoBeefKlineCheckAck`, which gives the reply. -/
def checkAck (op : BeefOp) (phase : String) (moreThan : ℕ) (response : Bytes) : Except LinkError Bytes :=
  if response.length ≤ moreThan ∨ ¬ responseOk response (op.byte ||| 0x40) then
    .error (.of .badResponse ("Wrong response from ECU during " ++ phase))
  else .ok response

/-- `DensoBeefKlineExchangeOptional`; a settle time of zero stands for an exchange without a clock. -/
def exchangeOptional (request : Bytes) (settle timeout : ℤ) : KlineCalls (Option Bytes) :=
  Kline.exchangeWith (Kline.checkCancelled "cancelled after write") request settle timeout

/-- An exchange whose reply must acknowledge the request, with the error of the family for no reply. -/
def exchangeAckWith (missing : String → String) (request : BeefRequest) (settle timeout : ℤ)
    (phase : String) (moreThan : ℕ) : KlineRun Bytes :=
  nest (.exchange request) do
    match ← exchangeOptional (klineFrame request) settle timeout with
    | none => fail (.of .timeout (missing phase))
    | some received => ofExcept (checkAck request.op phase moreThan received)

/-- `DensoBeefKlineExchangeAck`. -/
def exchangeAck (request : BeefRequest) (settle timeout : ℤ) (phase : String) (moreThan : ℕ) :
    KlineRun Bytes :=
  exchangeAckWith (fun phase => "no response from ECU during " ++ phase) request settle timeout phase
    moreThan

/-- `CheckCancelled`. -/
def checkCancelled (detail : String) : KlineRun Unit := outside (Kline.checkCancelled detail)

/-- `ReadBlockCrc` of a family: the reply to `DensoBeefKlineRequestBlockCrc` is completed and checked as
the family does. -/
def readBlockCrcWith (continuation : Bytes → KlineCalls Bytes) (check : Bytes → Except LinkError Bytes)
    (crc : Bytes → UInt32) (block : MemoryRegion) : KlineRun UInt32 := do
  let reply ← nest (.exchange (crcRequest block)) do
    let first ← exchangeOptional (klineFrame (crcRequest block)) 0 3000
    let response ← continuation (first.getD [])
    ofExcept (check response)
  outside (Kline.drain 200 "CRC response drain")
  pure (crc reply)

/-- `DensoBeefKlineEnableProgrammingVoltage`. -/
def enableProgrammingVoltage : KlineRun Unit :=
  outside (Kline.guarded "programming line state" Kline.enableProgrammingVoltageLine)

/-! ### Kernels -/

/-- `KernelImage`. -/
structure KernelImage where
  loadAddress : UInt32
  bytes : Bytes

/-- `NegatedSum8`. -/
def negatedSum8 (data : Bytes) : Byte := 0 - Logging.sum8 data

/-- `RequestKernelId`. -/
def requestKernelId : KlineRun Bytes :=
  nest (.exchange ⟨.kernelId, []⟩) do
    let received ← exchangeOptional (klineFrame ⟨.kernelId, []⟩) 200 2000
    pure (received.getD [])

/-- `ChangeBaud`. -/
def changeBaud (baud : ℤ) : KlineRun Unit :=
  outside (Kline.guarded "changing baud" (Kline.setBaud baud))

/-- The bytes with zeros up to a multiple of a size. -/
def padded (size : ℕ) (bytes : Bytes) : Bytes :=
  bytes ++ List.replicate ((size - bytes.length % size) % size) 0

/-! ### Pages -/

/-- `kReadPageSize`. -/
def readPageSize : ℕ := 0x400

/-- The request for a page. -/
def readRequest (address : UInt32) : BeefRequest :=
  ⟨.readArea, 0x00 :: (beBytes24 address ++ beBytes16 0x400)⟩

/-! ### The write -/

section Write

variable (image : Bytes)

/-- The bytes of the image for a block, which is indexed by flash address. -/
def slice (block : MemoryRegion) : Bytes := subspan image block.start.toNat block.length.toNat

/-- The comparison of one block in `DensoBeefKlineCompareBlocks`. -/
def compareBlock (readCrc : MemoryRegion → KlineRun UInt32) (block : MemoryRegion) : KlineRun Bool := do
  checkCancelled "cancelled during ROM compare"
  let ecuCrc ← readCrc block
  pure (decide (ecuCrc ≠ crc32 (slice image block)))

/-- `DensoBeefKlineCompareBlocks`: the blocks that differ. -/
def compareBlocks (blocks : List MemoryRegion) (readCrc : MemoryRegion → KlineRun UInt32) :
    KlineRun (List MemoryRegion) :=
  compareLoop (compareBlock image readCrc) blocks

/-- `DensoBeefKlineWriteChangedBlocks`.  What the last comparison finds is only logged. -/
def writeChangedBlocks (blocks : List MemoryRegion) (readCrc : MemoryRegion → KlineRun UInt32)
    (initFlashWrite : KlineRun Unit) (flashBlock : MemoryRegion → KlineRun Unit) : KlineRun Unit :=
  writeChanged (compareBlocks image blocks readCrc) enableProgrammingVoltage
    (fun changed => do
      initFlashWrite
      each changed fun block => do
        let _ ← exchangeAck ⟨.progVolt, []⟩ 0 200 "prog-volt query" 7
        flashBlock block)
    fun _ => pure ()

variable (missing : String → String) (testWrite : Bool)

/-- `InitFlashWrite` of a family, without the sizes that are only logged. -/
def initFlashWriteWith : KlineRun Unit := do
  let _ ← exchangeAckWith missing ⟨.getMaxMsgSize, []⟩ 200 200 "flash init" 9
  let _ ← exchangeAckWith missing ⟨.getMaxBlockSize, []⟩ 200 200 "flash init" 9
  let _ ← exchangeAckWith missing (modeRequest testWrite) 200 200 "flash init" 0

/-- The check of `FlashBlock`. -/
def represented (block : MemoryRegion) : Bool :=
  decide (block.start.toNat ≤ image.length) && decide (block.length.toNat ≤ image.length - block.start.toNat) &&
    decide (block.length.toNat % chunkSize = 0) && decide (block.length.toNat % commitSize = 0)

/-- The chunk of `FlashBlock` at an offset. -/
def writeChunk (chunkSettle chunkTimeout : ℤ) (block : MemoryRegion) (offset : ℕ) : KlineRun Unit := do
  checkCancelled "cancelled during block write"
  let address := block.start + UInt32.ofNat offset
  let _ ← exchangeAckWith missing (chunkRequest address (subspan image address.toNat chunkSize))
    chunkSettle chunkTimeout "write" 0

/-- The commit of `FlashBlock` for the window at an offset. -/
def commitWindow (block : MemoryRegion) (offset : ℕ) : KlineRun Unit := do
  let address := block.start + UInt32.ofNat offset
  let _ ← exchangeAckWith missing (commitRequest testWrite address
    (crc32 (subspan image address.toNat commitSize))) 200 3000 "commit" 0

/-- `FlashBlock` of a family, which has its own times for a chunk. -/
def flashBlockWith (chunkSettle chunkTimeout : ℤ) (block : MemoryRegion) : KlineRun Unit :=
  if represented image block then do
    when (!testWrite) do
      let _ ← exchangeAckWith missing (eraseRequest block.start) 500 3000 "erase" 0
    chunkLoop block.length.toNat (writeChunk image missing chunkSettle chunkTimeout block)
      (commitWindow image missing testWrite block)
    outside (Kline.drain 200 "flash block drain")
  else fail (.of .invalidConfig "flash block is not represented by the image")

end Write

/-! ### What is exchanged -/

section Exchanged

variable {image : Bytes} {missing : String → String} {testWrite : Bool}

theorem exchangeAckWith_sends (request : BeefRequest) (settle timeout : ℤ) (phase : String)
    (moreThan : ℕ) : Sends BeefEvent.request? [request]
      (exchangeAckWith missing request settle timeout phase moreThan) := nest_sends

theorem checkCancelled_quiet (detail : String) : Quiet Unit (checkCancelled detail) := outside_quiet _

theorem enableProgrammingVoltage_quiet : Quiet Unit enableProgrammingVoltage := outside_quiet _

theorem compareBlock_asks (continuation : Bytes → KlineCalls Bytes)
    (check : Bytes → Except LinkError Bytes) (crc : Bytes → UInt32) (block : MemoryRegion) :
    Meets (Asks (crcRequest block) (crcDiffers crc (slice image) block))
      (compareBlock image (readBlockCrcWith continuation check crc) block) := by
  have hread : Meets (Asks (crcRequest block) crc) (readBlockCrcWith continuation check crc block) :=
    Asks.bind_gives (g := crc) (asks_nest _) fun reply =>
      .quiet_bind (outside_quiet _) fun _ => .pure _
  refine Asks.quiet_bind (checkCancelled_quiet _) fun _ => ?_
  exact Asks.bind_gives (g := fun value => decide (value ≠ crc32 (slice image block))) hread
    fun _ => .pure _

theorem initFlashWriteWith_sends :
    Sends BeefEvent.request? (initProgram testWrite) (initFlashWriteWith missing testWrite) :=
  (exchangeAckWith_sends _ _ _ _ _).bind fun _ => (exchangeAckWith_sends _ _ _ _ _).bind fun _ =>
    (exchangeAckWith_sends _ _ _ _ _).map fun _ => ()

/-- What is sent for the chunks and the windows of a block. -/
def chunks (image : Bytes) (testWrite : Bool) (block : MemoryRegion) : List BeefRequest :=
  chunkProgram block.length.toNat
    (fun offset => chunkRequest (block.start + UInt32.ofNat offset)
      (subspan image (block.start + UInt32.ofNat offset).toNat chunkSize))
    fun offset => commitRequest testWrite (block.start + UInt32.ofNat offset)
      (crc32 (subspan image (block.start + UInt32.ofNat offset).toNat commitSize))

/-- What is sent for a block. -/
def program (image : Bytes) (testWrite : Bool) (block : MemoryRegion) : List BeefRequest :=
  ⟨.progVolt, []⟩ :: if represented image block then
    (if testWrite then [] else [eraseRequest block.start]) ++ chunks image testWrite block else []

theorem flashBlockWith_sends (chunkSettle chunkTimeout : ℤ) (block : MemoryRegion) :
    Sends BeefEvent.request?
      (if represented image block then
        (if testWrite then [] else [eraseRequest block.start]) ++ chunks image testWrite block else [])
      (flashBlockWith image missing testWrite chunkSettle chunkTimeout block) := by
  unfold flashBlockWith
  by_cases hrepresented : represented image block = true
  · rw [if_pos hrepresented, if_pos hrepresented]
    refine Sends.bind ?_ fun _ => ?_
    · cases testWrite with
      | true => exact .pure ()
      | false => exact (exchangeAckWith_sends _ _ _ _ _).map fun _ => ()
    · rw [← List.append_nil (chunks image testWrite block)]
      refine Sends.bind (chunkLoop_sends (fun offset _ => ?_) fun offset _ => ?_) fun _ =>
        (outside_quiet _).sends
      · rw [← List.nil_append [_]]
        exact (checkCancelled_quiet _).sends.bind fun _ =>
          (exchangeAckWith_sends _ _ _ _ _).map fun _ => ()
      · exact (exchangeAckWith_sends _ _ _ _ _).map fun _ => ()
  · rw [if_neg hrepresented, if_neg hrepresented]
    exact .fail [] _

/-- **What a write exchanges, whatever the answers are.** -/
theorem writeChangedBlocks_meets (blocks : List MemoryRegion) (continuation : Bytes → KlineCalls Bytes)
    (check : Bytes → Except LinkError Bytes) (crc : Bytes → UInt32) (chunkSettle chunkTimeout : ℤ) :
    Meets (fun result events => Writes (crcDiffers crc (slice image)) blocks (initProgram testWrite)
        (program image testWrite) (fun _ => True) result (exchanges events))
      (writeChangedBlocks image blocks (readBlockCrcWith continuation check crc)
        (initFlashWriteWith missing testWrite)
        (flashBlockWith image missing testWrite chunkSettle chunkTimeout)) := by
  refine writeChanged_meets (compareLoop_meets fun block _ => compareBlock_asks _ _ _ block)
    enableProgrammingVoltage_quiet.sends (fun changed _ _ => ?_) fun _ => .pure ⟨rfl, fun _ => trivial⟩
  refine initFlashWriteWith_sends.bind fun _ => .each fun block _ => ?_
  rw [program, ← List.singleton_append]
  exact nest_sends.bind fun _ => flashBlockWith_sends _ _ block

end Exchanged

/-! ### Tests -/

/-- The requests that a test may send: the others enable, commit or erase the flash. -/
def Allowed (testWrite : Bool) (op : BeefOp) : Prop :=
  testWrite = true → op ≠ .flashEnable ∧ op ≠ .commitFlashBuffer ∧ op ≠ .blankPage

instance (testWrite : Bool) (op : BeefOp) : Decidable (Allowed testWrite op) :=
  inferInstanceAs (Decidable (_ → _))

theorem allowed_init {testWrite : Bool} {request : BeefRequest} (h : request ∈ initProgram testWrite) :
    Allowed testWrite request.op := by
  rintro rfl
  revert h
  revert request
  decide

theorem allowed_chunk (testWrite : Bool) (address : UInt32) (chunk : Bytes) :
    Allowed testWrite (chunkRequest address chunk).op := by
  have hallowed : ∀ t, Allowed t .writeFlashBuffer := by decide
  exact hallowed testWrite

theorem allowed_commit (testWrite : Bool) (address crc : UInt32) :
    Allowed testWrite (commitRequest testWrite address crc).op := by
  have hallowed : ∀ t, Allowed t (if t then .validateFlashBuffer else .commitFlashBuffer) := by decide
  exact hallowed testWrite

/-! ### Parts -/

section Parts

variable {image : Bytes} {missing : String → String} {testWrite : Bool}
  {Q : ∀ α : Type, KlineRun α → Prop} (hQ : Compositional Q)
  (houtside : ∀ m : KlineCalls Unit, Silent KlineEvent.data? Unit m → Q Unit (outside m))
  (hexchange : ∀ request, Allowed testWrite request.op → ∀ settle timeout phase moreThan,
    Q Bytes (exchangeAckWith missing request settle timeout phase moreThan))

include hQ

/-- A property of every part is one of the write. -/
theorem writeChangedBlocks_parts {blocks : List MemoryRegion} {readCrc : MemoryRegion → KlineRun UInt32}
    {initFlashWrite : KlineRun Unit} {flashBlock : MemoryRegion → KlineRun Unit}
    (houtside : ∀ m : KlineCalls Unit, Silent KlineEvent.data? Unit m → Q Unit (outside m))
    (hreadCrc : ∀ block, Q UInt32 (readCrc block)) (hinit : Q Unit initFlashWrite)
    (hvolt : Q Bytes (exchangeAck ⟨.progVolt, []⟩ 0 200 "prog-volt query" 7))
    (hflash : ∀ block, Q Unit (flashBlock block)) :
    Q Unit (writeChangedBlocks image blocks readCrc initFlashWrite flashBlock) := by
  refine writeChanged_parts hQ (compareLoop_parts hQ (fun block => ?_) _)
    (houtside _ (guarded_silent enableProgrammingVoltageLine_silent _)) (fun changed => ?_)
    fun _ => hQ.pure ()
  · exact hQ.bind (houtside _ (checkCancelled_silent _)) fun _ => hQ.bind (hreadCrc block) fun _ =>
      hQ.pure _
  · exact hQ.bind hinit fun _ => hQ.each fun block _ => hQ.bind hvolt fun _ => hflash block

include hexchange

theorem initFlashWriteWith_parts : Q Unit (initFlashWriteWith missing testWrite) :=
  hQ.bind (hexchange _ (allowed_init (by simp [initProgram])) _ _ _ _) fun _ =>
    hQ.bind (hexchange _ (allowed_init (by simp [initProgram])) _ _ _ _) fun _ =>
    hQ.bind (hexchange _ (allowed_init (by simp [initProgram])) _ _ _ _) fun _ => hQ.pure ()

include houtside

theorem flashBlockWith_parts (chunkSettle chunkTimeout : ℤ) (block : MemoryRegion) :
    Q Unit (flashBlockWith image missing testWrite chunkSettle chunkTimeout block) := by
  unfold flashBlockWith
  refine Compositional.ite (hQ.bind ?_ fun _ => hQ.bind (chunkLoop_parts hQ _ (fun offset => ?_)
    fun offset => ?_) fun _ => houtside _ (drain_silent _ _)) (hQ.fail _)
  · cases testWrite with
    | true => exact hQ.pure ()
    | false => exact hQ.bind (hexchange _ (fun h => (nomatch h)) _ _ _ _) fun _ => hQ.pure ()
  · exact hQ.bind (houtside _ (checkCancelled_silent _)) fun _ =>
      hQ.bind (hexchange _ (allowed_chunk _ _ _) _ _ _ _) fun _ => hQ.pure ()
  · exact hQ.bind (hexchange _ (allowed_commit _ _ _) _ _ _ _) fun _ => hQ.pure ()

end Parts

/-! ### Frames -/

theorem exchangeOptional_writesFrame (frame : Bytes) (settle timeout : ℤ) :
    Meets (WritesFrame KlineEvent.data? frame (.write frame (.ok frame.length)))
      (exchangeOptional frame settle timeout) :=
  exchangeWith_writesFrame (checkCancelled_silent _) frame settle timeout

theorem exchangeAckWith_writesFrame (missing : String → String) (request : BeefRequest)
    (settle timeout : ℤ) (phase : String) (moreThan : ℕ) :
    Meets (WritesFrame KlineEvent.data? (klineFrame request) (klineTaken request)) (do
      match ← exchangeOptional (klineFrame request) settle timeout with
      | none => fail (.of .timeout (missing phase))
      | some received => ofExcept (checkAck request.op phase moreThan received) : KlineCalls Bytes) := by
  refine WritesFrame.bind (exchangeOptional_writesFrame _ _ _) ?_
  rintro (_ | received)
  · exact Emits.compositional.fail _
  · exact silent_ofExcept _

/-! ### Bytes on the line -/

section Harmless

variable {α : Type}

/-- The bytes are a frame that enables, commits or erases the flash. -/
def ChangesFlash (data : Bytes) : Prop :=
  byteAt data 0 = 0xBE ∧ byteAt data 1 = 0xEF ∧
    byteAt data 4 ∈ [BeefOp.flashEnable.byte, BeefOp.commitFlashBuffer.byte, BeefOp.blankPage.byte]

/-- Nothing that an event writes changes the flash. -/
def Harmless : BeefEvent KlineEvent → Prop
  | .exchange _ calls _ => ∀ call ∈ calls, ∀ data, call.data? = some data → ¬ ChangesFlash data
  | .call event => ∀ data, event.data? = some data → ¬ ChangesFlash data
  | .progress _ _ => True

/-- The opcode is the fifth byte of a frame. -/
theorem allowed_not_changesFlash {request : BeefRequest} (h : Allowed true request.op) :
    ¬ ChangesFlash (klineFrame request) := by
  rintro ⟨-, -, hop⟩
  have hbyte : byteAt (klineFrame request) 4 = request.op.byte := rfl
  have hop' : ∀ op : BeefOp,
      op.byte ∈ [BeefOp.flashEnable.byte, BeefOp.commitFlashBuffer.byte, BeefOp.blankPage.byte] →
      op = .flashEnable ∨ op = .commitFlashBuffer ∨ op = .blankPage := by
    intro op
    cases op <;> decide
  obtain ⟨henable, hcommit, herase⟩ := h rfl
  rw [hbyte] at hop
  rcases hop' _ hop with heq | heq | heq
  · exact henable heq
  · exact hcommit heq
  · exact herase heq

/-- What is not a frame of the kernel changes nothing. -/
theorem not_changesFlash {data : Bytes} (h : byteAt data 0 ≠ 0xBE) : ¬ ChangesFlash data :=
  fun hdata => h hdata.1

theorem outside_harmless {m : KlineCalls α} (h : Silent KlineEvent.data? α m) :
    Emits Harmless α (outside m) := by
  intro script event hmem
  obtain ⟨call, hcall, rfl⟩ := List.mem_map.1 hmem
  intro data hdata
  rw [h script call hcall] at hdata
  cases hdata

/-- A frame that is not one of the kernel. -/
theorem outside_frame_harmless {m : KlineCalls α} {frame : Bytes} {taken : KlineEvent}
    (h : Meets (WritesFrame KlineEvent.data? frame taken) m) (hframe : ¬ ChangesFlash frame) :
    Emits Harmless α (outside m) := by
  intro script event hmem
  obtain ⟨call, hcall, rfl⟩ := List.mem_map.1 hmem
  intro data hdata
  rw [(h script).1 call hcall data hdata]
  exact hframe

theorem nest_harmless {m : KlineCalls Bytes} {request : BeefRequest}
    (h : Meets (WritesFrame KlineEvent.data? (klineFrame request) (klineTaken request)) m)
    (hop : Allowed true request.op) : Emits Harmless Bytes (nest (.exchange request) m) := by
  intro script event hmem
  rw [List.mem_singleton.1 hmem]
  intro call hcall data hdata
  rw [(h script).1 call hcall data hdata]
  exact allowed_not_changesFlash hop

theorem exchangeAckWith_harmless {missing : String → String} {request : BeefRequest}
    (hop : Allowed true request.op) (settle timeout : ℤ) (phase : String) (moreThan : ℕ) :
    Emits Harmless Bytes (exchangeAckWith missing request settle timeout phase moreThan) :=
  nest_harmless (exchangeAckWith_writesFrame missing request settle timeout phase moreThan) hop

theorem readBlockCrcWith_harmless {continuation : Bytes → KlineCalls Bytes}
    (h : ∀ response, Silent KlineEvent.data? Bytes (continuation response))
    (check : Bytes → Except LinkError Bytes) (crc : Bytes → UInt32) (block : MemoryRegion) :
    Emits Harmless UInt32 (readBlockCrcWith continuation check crc block) := by
  refine Emits.compositional.bind (nest_harmless (WritesFrame.bind (exchangeOptional_writesFrame _ _ _)
    fun first => ?_) ?_) fun _ => Emits.compositional.bind (outside_harmless (drain_silent _ _))
    fun _ => Emits.compositional.pure _
  · exact Emits.compositional.bind (h _) fun _ => silent_ofExcept _
  · exact (show Allowed true .crc by decide)

theorem requestKernelId_harmless : Emits Harmless Bytes requestKernelId :=
  nest_harmless (WritesFrame.bind (exchangeOptional_writesFrame _ _ _) fun _ =>
    Emits.compositional.pure _) (show Allowed true .kernelId by decide)

theorem changeBaud_harmless (baud : ℤ) : Emits Harmless Unit (changeBaud baud) :=
  outside_harmless (guarded_silent (setBaud_silent baud) _)

/-- An exchange with the bootloader or with the ECU itself. -/
theorem exchangeOptional_harmless {frame : Bytes} (h : byteAt frame 0 ≠ 0xBE) (settle timeout : ℤ) :
    Emits Harmless (Option Bytes) (outside (exchangeOptional frame settle timeout)) :=
  outside_frame_harmless (exchangeOptional_writesFrame frame settle timeout) (not_changesFlash h)

theorem ofExcept_harmless {α : Type} (r : Except LinkError α) :
    Emits Harmless α (ofExcept r : KlineRun α) := by
  cases r with
  | ok a => exact Emits.compositional.pure a
  | error e => exact Emits.compositional.fail e

theorem checkCancelled_harmless (detail : String) : Emits Harmless Unit (checkCancelled detail) :=
  outside_harmless (checkCancelled_silent detail)

theorem drain_harmless (timeout : ℤ) (detail : String) :
    Emits Harmless Unit (outside (Kline.drain timeout detail)) :=
  outside_harmless (drain_silent timeout detail)

theorem sleep_harmless (duration : ℤ) : Emits Harmless Unit (outside (Kline.sleep duration)) :=
  outside_harmless (sleep_silent duration)

/-- **A test never enables, commits or erases the flash.** -/
theorem writeChangedBlocks_harmless {continuation : Bytes → KlineCalls Bytes}
    (h : ∀ response, Silent KlineEvent.data? Bytes (continuation response))
    (check : Bytes → Except LinkError Bytes) (crc : Bytes → UInt32) (image : Bytes)
    (missing : String → String) (blocks : List MemoryRegion) (chunkSettle chunkTimeout : ℤ) :
    Emits Harmless Unit (writeChangedBlocks image blocks (readBlockCrcWith continuation check crc)
      (initFlashWriteWith missing true)
      (flashBlockWith image missing true chunkSettle chunkTimeout)) := by
  have hexchange : ∀ request : BeefRequest, Allowed true request.op → ∀ settle timeout phase moreThan,
      Emits Harmless Bytes (exchangeAckWith missing request settle timeout phase moreThan) :=
    fun request hop => exchangeAckWith_harmless hop
  refine writeChangedBlocks_parts Emits.compositional (fun m hm => outside_harmless hm)
    (readBlockCrcWith_harmless h check crc) (initFlashWriteWith_parts Emits.compositional hexchange) ?_
    (flashBlockWith_parts Emits.compositional (fun m hm => outside_harmless hm) hexchange _ _)
  exact exchangeAckWith_harmless (show Allowed true .progVolt by decide) _ _ _ _

end Harmless

end FastEcu.Flash.Beef.DensoKline
