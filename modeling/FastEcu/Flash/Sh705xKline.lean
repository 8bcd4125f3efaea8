import FastEcu.Flash.BeefEcu
import FastEcu.Flash.FlashDevices
import FastEcu.Flash.KlineTransport

/-!
# Writing a Denso SH705x on K-line

`WriteMem` of `src/backend/flash/ecu/subaru_denso_sh705x_kline_executor.cpp`: the flash blocks of the
device are compared with the image, those that differ are written, and the write succeeds only if a last
comparison finds no difference.

* `kernelRequest` : a request with its reply.
* `compareBlocks`, `flashBlock`, `reflashBlocks`, `writeMem` : the write.
* `flashChunks_sends` : the running commit pointer stays at the window of the chunk.
* `flashChunks_counts`, `reflashBlocks_announces` : the counter of the bytes that are written.
* `writeMem_kline_spec` : what is sent, verified and reported in every run.
-/

namespace FastEcu.Flash.Beef.Sh705x

open Calibration (ErrorKind)
open Data Computation Ports

/-- The MCUs of the protocols of the family. -/
inductive Mcu
  | sh7055
  | sh7058
deriving DecidableEq, Repr

/-- `FindFlashDevice` for the MCUs of the family. -/
def Mcu.device : Mcu → FlashDevice
  | .sh7055 => FlashDevice.sh7055
  | .sh7058 => FlashDevice.sh7058

theorem Mcu.device_regular (mcu : Mcu) : mcu.device.Regular := by
  cases mcu
  · exact FlashDevice.sh7055_regular
  · exact FlashDevice.sh7058_regular

/-! ### Exchanges -/

/-- `RequiredExchange` without a settle time. -/
def requiredExchange (request : Bytes) (timeout : ℤ) (what : String) : KlineCalls Bytes := do
  match ← Kline.exchangeWith (pure ()) request 0 timeout with
  | none => fail (.of .timeout ("no response from ECU during " ++ what))
  | some received => pure received

/-- `KernelReplyOk`. -/
def kernelReplyOk (received : Bytes) (op : BeefOp) (minSize : ℕ) : Bool :=
  decide (minSize ≤ received.length) && byteAt received 0 == 0xBE && byteAt received 1 == 0xEF &&
    byteAt received 4 == (op.byte ||| 0x40)

/-- `RequireKernelReply`. -/
def requireKernelReply (op : BeefOp) (minSize : ℕ) (what : String) (reply : Bytes) :
    Except LinkError Bytes :=
  if reply.length < minSize then
    .error (.of .badResponse ("No valid response from ECU during " ++ what))
  else if ¬ kernelReplyOk reply op minSize then
    .error (.of .badResponse ("Wrong response from ECU during " ++ what))
  else .ok reply

/-- `KernelExchange` with `RequireKernelReply`. -/
def kernelRequest (request : BeefRequest) (minSize : ℕ) (timeout : ℤ) (what : String) :
    KlineRun Bytes :=
  nest (.exchange request) do
    let reply ← requiredExchange (klineFrame request) timeout what
    ofExcept (requireKernelReply request.op minSize what reply)

/-- `CheckCancelled`. -/
def checkCancelled (detail : String) : KlineRun Unit := outside (Kline.checkCancelled detail)

/-- `IEventSink::Progress`. -/
def progress (written total : ℕ) : KlineRun Unit := fun script => ⟨.ok (), [.progress written total], script⟩

/-! ### The write -/

/-- `ReadBlockCrc`. -/
def readBlockCrc (block : MemoryRegion) : KlineRun UInt32 := do
  let reply ← kernelRequest (crcRequest block) 9 3000 "CRC check"
  checkCancelled "cancelled before CRC flush"
  let _ ← outside (Kline.read 200)
  pure (readU32Be reply 5)

variable (image : Bytes) (testWrite : Bool)

/-- The bytes of the image for a block, which is indexed by flash address. -/
def slice (block : MemoryRegion) : Bytes := subspan image block.start.toNat block.length.toNat

/-- The comparison of one block in `CompareBlocks`. -/
def compareBlock (block : MemoryRegion) : KlineRun Bool := do
  checkCancelled "cancelled during ROM compare"
  let ecuCrc ← readBlockCrc block
  outside (Kline.sleep 5)
  pure (decide (ecuCrc ≠ crc32 (slice image block)))

/-- `CompareBlocks`: the blocks that differ. -/
def compareBlocks (device : FlashDevice) : KlineRun (List MemoryRegion) :=
  compareLoop (compareBlock image) device.fblocks

/-- `InitFlashWrite`. -/
def initFlashWrite : KlineRun Unit := do
  let _ ← kernelRequest ⟨.getMaxMsgSize, []⟩ 10 500 "flash init"
  let _ ← kernelRequest ⟨.getMaxBlockSize, []⟩ 10 500 "flash init"
  let _ ← kernelRequest (modeRequest testWrite) 6 500 "flash mode"

/-- The loop of `FlashBlock` over the offsets that are left, with the commit pointer and the counter; it
gives the counter. -/
def flashChunks (block : MemoryRegion) (total : ℕ) : List ℕ → UInt32 → ℕ → KlineRun ℕ
  | [], _, written => pure written
  | offset :: offsets, commitStart, written => do
    checkCancelled "cancelled during flash write"
    let address := block.start + UInt32.ofNat offset
    let _ ← kernelRequest (chunkRequest address (subspan image address.toNat chunkSize)) 6 3000 "write"
    progress (written + chunkSize) total
    if commitStart + 0x1000 = address + 0x200 then
      let _ ← kernelRequest (commitRequest testWrite commitStart
        (crc32 (subspan image commitStart.toNat commitSize))) 6 3000 "commit"
      flashChunks block total offsets (commitStart + 0x1000) (written + chunkSize)
    else flashChunks block total offsets commitStart (written + chunkSize)

/-- `FlashBlock`: the block is erased in both modes. -/
def flashBlock (block : MemoryRegion) (total written : ℕ) : KlineRun ℕ := do
  let _ ← kernelRequest (eraseRequest block.start) 5 3000 "erase"
  flashChunks image testWrite block total
    ((List.range ((block.length.toNat + (chunkSize - 1)) / chunkSize)).map (chunkSize * ·)) block.start
    written

/-- The loop of `WriteMem` over the blocks that changed, each with `ReflashBlock`: the first one
initializes the flash write. -/
def reflashBlocks (total : ℕ) : List MemoryRegion → Bool → ℕ → KlineRun Unit
  | [], _, _ => pure ()
  | block :: blocks, flashWriteInit, written => do
    when (!flashWriteInit) (initFlashWrite testWrite)
    let _ ← kernelRequest ⟨.progVolt, []⟩ 10 500 "prog voltage"
    let written ← flashBlock image testWrite block total written
    reflashBlocks total blocks true written

/-- The bytes that are announced. -/
def totalLength (changed : List MemoryRegion) : ℕ := (changed.map fun block => block.length.toNat).sum

/-- What `WriteMem` makes of the last comparison. -/
def requireEqual (after : List MemoryRegion) : KlineRun Unit :=
  if testWrite = true ∨ after = [] then pure ()
  else fail (.of .badResponse "ECU flash still differs from the image after reflash")

/-- What a write takes from its plan. -/
structure Plan where
  mcu : Mcu
  image : Option Bytes
  testWrite : Bool

/-- `WriteMem`. -/
def writeMem (plan : Plan) : KlineRun Unit :=
  match plan.image with
  | none => fail (.of .invalidConfig "Denso SH705x K-Line write needs the full ROM image")
  | some image =>
    if image.length < plan.mcu.device.romsize then
      fail (.of .invalidConfig "Denso SH705x K-Line write needs the full ROM image")
    else writeChanged (compareBlocks image plan.mcu.device) (pure ())
      (fun changed => do
        progress 0 (totalLength changed)
        reflashBlocks image plan.testWrite (totalLength changed) changed false 0)
      (requireEqual plan.testWrite)

/-! ### Chunks -/

variable {image testWrite}

theorem kernelRequest_sends (request : BeefRequest) (minSize : ℕ) (timeout : ℤ) (what : String) :
    Sends BeefEvent.request? [request] (kernelRequest request minSize timeout what) := nest_sends

theorem checkCancelled_quiet (detail : String) : Quiet Unit (checkCancelled detail) := outside_quiet _

theorem progress_quiet (written total : ℕ) : Quiet Unit (progress written total) := by
  intro script event hmem
  rw [List.mem_singleton.1 hmem]
  rfl

/-- The request for the chunk of a block at an offset. -/
def chunkAt (image : Bytes) (block : MemoryRegion) (offset : ℕ) : BeefRequest :=
  chunkRequest (block.start + UInt32.ofNat offset) (subspan image (block.start.toNat + offset) chunkSize)

/-- The request that commits the window of a block at an offset. -/
def commitAt (image : Bytes) (testWrite : Bool) (block : MemoryRegion) (offset : ℕ) : BeefRequest :=
  commitRequest testWrite (block.start + UInt32.ofNat offset)
    (crc32 (subspan image (block.start.toNat + offset) commitSize))

/-- What is sent after the erase of a block, window by window: eight chunks that tile the window, and
its commit. -/
def windows (image : Bytes) (testWrite : Bool) (block : MemoryRegion) : List BeefRequest :=
  (List.range (block.length.toNat / commitSize)).flatMap
    (windowProgram (chunkAt image block) (commitAt image testWrite block))

section Chunks

variable {block : MemoryRegion}

/-- An address of a block does not wrap. -/
theorem toNat_start_add {offset : ℕ} (h : block.start.toNat + offset < 2 ^ 32) :
    (block.start + UInt32.ofNat offset).toNat = block.start.toNat + offset := by
  rw [UInt32.toNat_add, UInt32.toNat_ofNat']
  omega

/-- The running commit pointer, at the window of the chunk, meets the end of the chunk only at the last
chunk of the window. -/
theorem commitStart_iff (i : ℕ) :
    block.start + UInt32.ofNat (commitSize * (i / 8)) + 0x1000 =
        block.start + UInt32.ofNat (chunkSize * i) + 0x200 ↔
      (chunkSize * i + chunkSize) % commitSize = 0 := by
  have hcommit : (0x1000 : UInt32).toNat = 4096 := rfl
  have hchunk : (0x200 : UInt32).toNat = 512 := rfl
  rw [← UInt32.toNat_inj]
  simp only [UInt32.toNat_add, UInt32.toNat_ofNat', hcommit, hchunk, chunkSize, commitSize]
  omega

/-- **The chunks from any of them on: the commit pointer stays at the window of the chunk.** -/
theorem flashChunks_sends (total n : ℕ) {i : ℕ} (written : ℕ)
    (h : block.start.toNat + chunkSize * (i + n) + commitSize < 2 ^ 32) :
    Sends BeefEvent.request?
      ((List.range' i n).flatMap fun j => chunkAt image block (chunkSize * j) ::
        if (chunkSize * j + chunkSize) % commitSize = 0 then
          [commitAt image testWrite block (chunkSize * j + chunkSize - commitSize)]
        else [])
      (flashChunks image testWrite block total ((List.range' i n).map (chunkSize * ·))
        (block.start + UInt32.ofNat (commitSize * (i / 8))) written) := by
  induction n generalizing i written with
  | zero => exact .pure written
  | succ n ih =>
    have hchunk : chunkSize = 512 := rfl
    have hcommit : commitSize = 4096 := rfl
    rw [hchunk, hcommit] at h
    have hrest := fun written => @ih (i + 1) written (by rw [hchunk, hcommit]; omega)
    have haddress : (block.start + UInt32.ofNat (chunkSize * i)).toNat =
        block.start.toNat + chunkSize * i := toNat_start_add (by rw [hchunk]; omega)
    rw [List.range'_succ, List.flatMap_cons, List.map_cons, List.cons_append]
    refine (checkCancelled_quiet _).sends.bind fun _ => ?_
    simp only [haddress]
    rw [← List.singleton_append]
    refine (kernelRequest_sends (chunkAt image block (chunkSize * i)) _ _ _).bind fun _ => ?_
    rw [← List.nil_append (_ ++ _)]
    refine (progress_quiet _ _).sends.bind fun _ => ?_
    have hiff := @commitStart_iff block i
    by_cases hlast : (chunkSize * i + chunkSize) % commitSize = 0
    · rw [if_pos (hiff.2 hlast), if_pos hlast]
      -- the window ends with this chunk, so the next chunk is in the next window
      have hwindow : chunkSize * i + chunkSize - commitSize = commitSize * (i / 8) := by
        rw [hchunk, hcommit] at hlast ⊢
        omega
      have hnext : block.start + UInt32.ofNat (commitSize * (i / 8)) + 0x1000 =
          block.start + UInt32.ofNat (commitSize * ((i + 1) / 8)) := by
        have hsucc : commitSize * ((i + 1) / 8) = commitSize * (i / 8) + 0x1000 := by
          rw [hchunk, hcommit] at hlast
          rw [hcommit]
          omega
        rw [hsucc, UInt32.ofNat_add, UInt32.add_assoc]
        rfl
      have hstart : (block.start + UInt32.ofNat (commitSize * (i / 8))).toNat =
          block.start.toNat + commitSize * (i / 8) := toNat_start_add (by rw [hcommit]; omega)
      rw [hwindow, hstart, hnext]
      exact (kernelRequest_sends _ _ _ _).bind fun _ => hrest _
    · rw [if_neg fun heq => hlast (hiff.1 heq), if_neg hlast, List.nil_append]
      have hsame : (i + 1) / 8 = i / 8 := by
        rw [hchunk, hcommit] at hlast
        omega
      rw [← hsame]
      exact hrest _

/-- What is sent for a block. -/
theorem flashBlock_sends (total written : ℕ) (haligned : block.length.toNat % commitSize = 0)
    (h : block.start.toNat + block.length.toNat < 2 ^ 24) :
    Sends BeefEvent.request? (eraseRequest block.start :: windows image testWrite block)
      (flashBlock image testWrite block total written) := by
  have hwhole : block.length.toNat = commitSize * (block.length.toNat / commitSize) :=
    (Nat.mul_div_cancel' (Nat.dvd_of_mod_eq_zero haligned)).symm
  have hcount : (block.length.toNat + (chunkSize - 1)) / chunkSize = block.length.toNat / chunkSize := by
    simp only [chunkSize, commitSize] at haligned ⊢
    omega
  have hchunks := @flashChunks_sends image testWrite block total (block.length.toNat / chunkSize) 0
    written (by simp only [chunkSize, commitSize]; omega)
  rw [← List.range_eq_range', Nat.zero_div, Nat.mul_zero] at hchunks
  rw [show block.start + UInt32.ofNat 0 = block.start from UInt32.add_zero _] at hchunks
  rw [windows, ← chunkProgram_eq hwhole, ← List.singleton_append]
  refine (kernelRequest_sends _ _ _ _).bind fun _ => ?_
  rw [hcount]
  exact hchunks

end Chunks

/-! ### What is exchanged -/

/-- The CRC that a reply reports. -/
def reportedCrc (reply : Bytes) : UInt32 := readU32Be reply 5

/-- What is sent for a block. -/
def program (image : Bytes) (testWrite : Bool) : MemoryRegion → List BeefRequest :=
  eraseProgram (fun _ => true) (fun _ => [⟨.progVolt, []⟩]) (windows image testWrite)

theorem program_eq (block : MemoryRegion) : program image testWrite block =
    [⟨.progVolt, []⟩] ++ eraseRequest block.start :: windows image testWrite block := by
  rw [program, eraseProgram, if_pos rfl]

theorem readBlockCrc_asks (block : MemoryRegion) :
    Meets (Asks (crcRequest block) reportedCrc) (readBlockCrc block) := by
  refine Asks.bind_gives (g := reportedCrc) (asks_nest _) fun reply => ?_
  exact .quiet_bind (checkCancelled_quiet _) fun _ => .quiet_bind (outside_quiet _) fun _ => .pure _

theorem compareBlock_asks (block : MemoryRegion) :
    Meets (Asks (crcRequest block) (crcDiffers reportedCrc (slice image) block))
      (compareBlock image block) := by
  refine Asks.quiet_bind (checkCancelled_quiet _) fun _ => ?_
  refine Asks.bind_gives (g := fun crc => decide (crc ≠ crc32 (slice image block)))
    (readBlockCrc_asks block) fun crc => ?_
  exact .quiet_bind (outside_quiet _) fun _ => .pure _

theorem initFlashWrite_sends :
    Sends BeefEvent.request? (initProgram testWrite) (initFlashWrite testWrite) :=
  (kernelRequest_sends _ _ _ _).bind fun _ => (kernelRequest_sends _ _ _ _).bind fun _ =>
    (kernelRequest_sends _ _ _ _).map fun _ => ()

/-- The block is flashed after the programming voltage was queried. -/
theorem reflashBlock_sends {block : MemoryRegion} (total written : ℕ) {rest : List BeefRequest}
    {next : ℕ → KlineRun Unit} (h : block.length.toNat % commitSize = 0 ∧
      block.start.toNat + block.length.toNat < 2 ^ 24)
    (hnext : ∀ written, Sends BeefEvent.request? rest (next written)) :
    Sends BeefEvent.request? (program image testWrite block ++ rest) (do
      let _ ← kernelRequest ⟨.progVolt, []⟩ 10 500 "prog voltage"
      let written ← flashBlock image testWrite block total written
      next written) := by
  rw [program_eq, List.append_assoc]
  exact (kernelRequest_sends _ _ _ _).bind fun _ => (flashBlock_sends total written h.1 h.2).bind hnext

/-- The blocks that are left, once the flash write is initialized. -/
theorem reflashBlocks_sends (total : ℕ) {changed : List MemoryRegion} (written : ℕ)
    (h : ∀ block ∈ changed, block.length.toNat % commitSize = 0 ∧
      block.start.toNat + block.length.toNat < 2 ^ 24) :
    Sends BeefEvent.request? (changed.flatMap (program image testWrite))
      (reflashBlocks image testWrite total changed true written) := by
  induction changed generalizing written with
  | nil => exact .pure ()
  | cons block changed ih =>
    rw [List.flatMap_cons, ← List.nil_append (_ ++ _)]
    refine Sends.bind (.pure ()) fun _ => ?_
    refine reflashBlock_sends total written (h block (List.mem_cons_self ..)) fun written' => ih written' ?_
    exact fun b hb => h b (List.mem_cons_of_mem _ hb)

/-- The first block initializes the flash write. -/
theorem reflashBlocks_sends_init (total : ℕ) {changed : List MemoryRegion} (written : ℕ)
    (hne : changed ≠ []) (h : ∀ block ∈ changed, block.length.toNat % commitSize = 0 ∧
      block.start.toNat + block.length.toNat < 2 ^ 24) :
    Sends BeefEvent.request? (initProgram testWrite ++ changed.flatMap (program image testWrite))
      (reflashBlocks image testWrite total changed false written) := by
  cases changed with
  | nil => exact absurd rfl hne
  | cons block changed =>
    rw [List.flatMap_cons]
    refine initFlashWrite_sends.bind fun _ => ?_
    refine reflashBlock_sends total written (h block (List.mem_cons_self ..)) fun written' => ?_
    exact reflashBlocks_sends total written' fun b hb => h b (List.mem_cons_of_mem _ hb)

/-- The image of a plan, if it has one. -/
def Plan.bytes (plan : Plan) : Bytes := plan.image.getD []

variable {plan : Plan}

/-- **What a write exchanges, whatever the answers are.** -/
theorem writeMem_meets : Meets (fun result events =>
      Writes (crcDiffers reportedCrc (slice plan.bytes)) plan.mcu.device.fblocks
        (initProgram plan.testWrite) (program plan.bytes plan.testWrite)
        (fun after => plan.testWrite = false → after = []) result (exchanges events))
    (writeMem plan) := by
  have hrejected : ∀ e : LinkError, Meets (fun result events =>
      Writes (crcDiffers reportedCrc (slice plan.bytes)) plan.mcu.device.fblocks
        (initProgram plan.testWrite) (program plan.bytes plan.testWrite)
        (fun after => plan.testWrite = false → after = []) result (exchanges events))
      (fail e : KlineRun Unit) := fun e => .fail (.compare e rfl List.nil_prefix)
  have hregular := plan.mcu.device_regular
  unfold writeMem
  cases himage : plan.image with
  | none => exact hrejected _
  | some image =>
    have hbytes : plan.bytes = image := by rw [Plan.bytes, himage, Option.getD_some]
    refine .ite (fun _ => hrejected _) fun _ => ?_
    rw [hbytes]
    refine writeChanged_meets (compareLoop_meets fun block _ => compareBlock_asks block) (.pure ())
      (fun changed hne hsublist => ?_) fun after => .ite (fun h => .pure ⟨rfl, fun _ hwrite => ?_⟩)
      fun _ => .fail ⟨rfl, fun h => (nomatch h)⟩
    · refine (progress_quiet _ _).sends.bind fun _ => reflashBlocks_sends_init _ _ hne ?_
      intro block hmem
      have hblock := hsublist.subset hmem
      exact ⟨hregular.aligned block hblock, hregular.short block hblock⟩
    · rw [hwrite] at h
      exact h.resolve_left Bool.false_ne_true

/-! ### Parts -/

section Parts

variable {Q : ∀ α : Type, KlineRun α → Prop} (hQ : Compositional Q)
  (hrequest : ∀ request minSize timeout what, Q Bytes (kernelRequest request minSize timeout what))
  (hcancelled : ∀ detail, Q Unit (checkCancelled detail))

include hQ hrequest hcancelled

theorem compareBlocks_parts (hread : Q _ (outside (Kline.read 200))) (hsleep : Q _ (outside (Kline.sleep 5)))
    (device : FlashDevice) : Q _ (compareBlocks image device) := by
  refine compareLoop_parts hQ (fun block => hQ.bind (hcancelled _) fun _ => hQ.bind ?_ fun _ =>
    hQ.bind hsleep fun _ => hQ.pure _) _
  exact hQ.bind (hrequest _ _ _ _) fun _ => hQ.bind (hcancelled _) fun _ =>
    hQ.bind hread fun _ => hQ.pure _

variable (hprogress : ∀ written total, Q Unit (progress written total))

include hprogress

theorem flashChunks_parts (block : MemoryRegion) (total : ℕ) (offsets : List ℕ) (commitStart : UInt32)
    (written : ℕ) : Q ℕ (flashChunks image testWrite block total offsets commitStart written) := by
  induction offsets generalizing commitStart written with
  | nil => exact hQ.pure written
  | cons offset offsets ih =>
    exact hQ.bind (hcancelled _) fun _ => hQ.bind (hrequest _ _ _ _) fun _ =>
      hQ.bind (hprogress _ _) fun _ =>
        Compositional.ite (hQ.bind (hrequest _ _ _ _) fun _ => ih _ _) (ih _ _)

theorem reflashBlocks_parts (total : ℕ) (changed : List MemoryRegion) (flashWriteInit : Bool)
    (written : ℕ) : Q Unit (reflashBlocks image testWrite total changed flashWriteInit written) := by
  induction changed generalizing flashWriteInit written with
  | nil => exact hQ.pure ()
  | cons block changed ih =>
    refine hQ.bind (hQ.when _ ?_) fun _ => hQ.bind (hrequest _ _ _ _) fun _ => hQ.bind ?_ fun _ => ih _ _
    · exact hQ.bind (hrequest _ _ _ _) fun _ => hQ.bind (hrequest _ _ _ _) fun _ =>
        hQ.bind (hrequest _ _ _ _) fun _ => hQ.pure ()
    · exact hQ.bind (hrequest _ _ _ _) fun _ =>
        flashChunks_parts hQ hrequest hcancelled hprogress _ _ _ _ _

/-- A property of every part is one of the write. -/
theorem writeMem_parts (hread : Q _ (outside (Kline.read 200)))
    (hsleep : Q _ (outside (Kline.sleep 5))) : Q Unit (writeMem plan) := by
  unfold writeMem
  cases plan.image with
  | none => exact hQ.fail _
  | some image =>
    refine Compositional.ite (hQ.fail _) (writeChanged_parts hQ
      (compareBlocks_parts hQ hrequest hcancelled hread hsleep _) (hQ.pure ()) (fun changed => ?_)
      fun after => Compositional.ite (hQ.pure ()) (hQ.fail _))
    exact hQ.bind (hprogress _ _) fun _ =>
      reflashBlocks_parts hQ hrequest hcancelled hprogress _ _ _ _

end Parts

theorem writeMem_strictly : Strictly BeefEvent.failure Unit (writeMem plan) :=
  writeMem_parts Strictly.compositional (fun _ _ _ _ => nest_strictly)
    (fun detail => (checkCancelled_quiet detail).strictly)
    (fun written total => (progress_quiet written total).strictly) (outside_quiet _).strictly
    (outside_quiet _).strictly

theorem kernelRequest_framed (request : BeefRequest) (minSize : ℕ) (timeout : ℤ) (what : String) :
    Emits KlineFramed Bytes (kernelRequest request minSize timeout what) := by
  refine nest_framed (WritesFrame.bind (WritesFrame.bind (exchangeWith_writesFrame
    (Emits.compositional.pure ()) _ _ _) ?_) fun _ => silent_ofExcept _)
  rintro (_ | received)
  · exact Emits.compositional.fail _
  · exact Emits.compositional.pure received

theorem progress_framed (written total : ℕ) : Emits KlineFramed Unit (progress written total) := by
  intro script event hmem
  rw [List.mem_singleton.1 hmem]
  trivial

theorem writeMem_framed : Emits KlineFramed Unit (writeMem plan) :=
  writeMem_parts Emits.compositional kernelRequest_framed
    (fun _ => outside_framed (checkCancelled_silent _)) progress_framed (outside_framed (read_silent 200))
    (outside_framed (sleep_silent 5))

/-! ### The counter -/

section Counter

variable {α β : Type}

/-- The progress that is reported is part of the total that was announced. -/
def Announces (total : ℕ) : BeefEvent KlineEvent → Prop
  | .progress written total' => total' = total ∧ written ≤ total
  | _ => True

/-- What a loop with the counter leaves: the counter at its end, and progress within the total. -/
def Counts (total last : ℕ) (result : Except LinkError ℕ) (events : List (BeefEvent KlineEvent)) : Prop :=
  (∀ written, result = .ok written → written = last) ∧ ∀ event ∈ events, Announces total event

theorem Counts.emits_bind {total last : ℕ} {m : KlineRun α} {f : α → KlineRun ℕ}
    (hm : Emits (Announces total) α m) (hf : ∀ a, Meets (Counts total last) (f a)) :
    Meets (Counts total last) (m >>= f) := by
  refine .bind ?_
  intro script
  have hannounces := hm script
  cases (m script).result with
  | error e => exact .error ⟨fun _ h => (nomatch h), hannounces⟩
  | ok a =>
    refine .ok ((hf a).mono ?_)
    rintro result rest ⟨hlast, hrest⟩
    exact ⟨hlast, fun event hmem => (List.mem_append.1 hmem).elim (hannounces event) (hrest event)⟩

theorem kernelRequest_announces (total : ℕ) (request : BeefRequest) (minSize : ℕ) (timeout : ℤ)
    (what : String) : Emits (Announces total) Bytes (kernelRequest request minSize timeout what) := by
  intro script event hmem
  rw [List.mem_singleton.1 hmem]
  trivial

theorem outside_announces (total : ℕ) (m : KlineCalls α) : Emits (Announces total) α (outside m) := by
  intro script event hmem
  obtain ⟨call, -, rfl⟩ := List.mem_map.1 hmem
  trivial

theorem progress_announces {written total : ℕ} (h : written ≤ total) :
    Emits (Announces total) Unit (progress written total) := by
  intro script event hmem
  rw [List.mem_singleton.1 hmem]
  exact ⟨rfl, h⟩

/-- The counter after the chunks that are left. -/
theorem flashChunks_counts {block : MemoryRegion} {total : ℕ} {offsets : List ℕ} (commitStart : UInt32)
    {written : ℕ} (h : written + chunkSize * offsets.length ≤ total) :
    Meets (Counts total (written + chunkSize * offsets.length))
      (flashChunks image testWrite block total offsets commitStart written) := by
  induction offsets generalizing commitStart written with
  | nil => exact Meets.pure ⟨fun _ h => (Except.ok.inj h).symm, fun _ h => (nomatch h)⟩
  | cons offset offsets ih =>
    have hlength : written + chunkSize * (offset :: offsets).length =
        written + chunkSize + chunkSize * offsets.length := by
      rw [List.length_cons, Nat.mul_succ]
      omega
    rw [hlength] at h ⊢
    refine Counts.emits_bind (outside_announces _ _) fun _ =>
      Counts.emits_bind (kernelRequest_announces _ _ _ _ _) fun _ =>
      Counts.emits_bind (progress_announces (by omega)) fun _ => .ite (fun _ => ?_) fun _ => ih _ h
    exact Counts.emits_bind (kernelRequest_announces _ _ _ _ _) fun _ => ih _ h

theorem flashBlock_counts {block : MemoryRegion} {total written : ℕ}
    (haligned : block.length.toNat % commitSize = 0) (h : written + block.length.toNat ≤ total) :
    Meets (Counts total (written + block.length.toNat))
      (flashBlock image testWrite block total written) := by
  have hcount : chunkSize * ((List.range ((block.length.toNat + (chunkSize - 1)) / chunkSize)).map
      (chunkSize * ·)).length = block.length.toNat := by
    rw [List.length_map, List.length_range]
    simp only [chunkSize, commitSize] at haligned ⊢
    omega
  refine Counts.emits_bind (kernelRequest_announces _ _ _ _ _) fun _ => ?_
  have hchunks := @flashChunks_counts image testWrite block total _ block.start written
    (by rw [hcount]; exact h)
  rwa [hcount] at hchunks

/-- **The counter never passes the total of the blocks that changed.** -/
theorem reflashBlocks_announces {changed : List MemoryRegion} {total written : ℕ} (flashWriteInit : Bool)
    (haligned : ∀ block ∈ changed, block.length.toNat % commitSize = 0)
    (h : written + totalLength changed ≤ total) :
    Emits (Announces total) Unit (reflashBlocks image testWrite total changed flashWriteInit written) := by
  induction changed generalizing flashWriteInit written with
  | nil => exact Emits.compositional.pure ()
  | cons block changed ih =>
    have htotal : totalLength (block :: changed) = block.length.toNat + totalLength changed := by
      rw [totalLength, List.map_cons, List.sum_cons, totalLength]
    rw [htotal] at h
    have hblock : written + block.length.toNat ≤ total := by omega
    refine Emits.compositional.bind (Emits.compositional.when _ ?_) fun _ =>
      Emits.compositional.bind (kernelRequest_announces _ _ _ _ _) fun _ => ?_
    · exact Emits.compositional.bind (kernelRequest_announces _ _ _ _ _) fun _ =>
        Emits.compositional.bind (kernelRequest_announces _ _ _ _ _) fun _ =>
        Emits.compositional.bind (kernelRequest_announces _ _ _ _ _) fun _ =>
        Emits.compositional.pure ()
    · -- what follows depends on the counter, which the block has raised by its length
      refine Meets.bind_of (Q := fun _ events => ∀ event ∈ events, Announces total event)
        (flashBlock_counts (haligned block (List.mem_cons_self ..)) hblock) ?_
      rintro (e | written') events ⟨hlast, hevents⟩
      · exact hevents
      · rw [hlast written' rfl]
        intro script event hmem
        refine (List.mem_append.1 hmem).elim (hevents event) (ih true ?_ ?_ script event)
        · exact fun b hb => haligned b (List.mem_cons_of_mem _ hb)
        · omega

theorem compareBlocks_announces (total : ℕ) (device : FlashDevice) :
    Emits (Announces total) _ (compareBlocks image device) :=
  compareBlocks_parts Emits.compositional (kernelRequest_announces total)
    (fun _ => outside_announces total _) (outside_announces total _) (outside_announces total _) device

theorem writeMem_announces : Meets (fun _ events => ∃ total, ∀ event ∈ events, Announces total event)
    (writeMem plan) := by
  have hregular := plan.mcu.device_regular
  unfold writeMem
  cases plan.image with
  | none => exact .fail ⟨0, fun _ h => (nomatch h)⟩
  | some image =>
    refine .ite (fun _ => .fail ⟨0, fun _ h => (nomatch h)⟩) fun _ => .bind ?_
    intro script
    have hcompare := fun total => @compareBlocks_announces image total plan.mcu.device script
    have hmeets : Meets (Compares (crcDiffers reportedCrc (slice image)) plan.mcu.device.fblocks)
        (compareBlocks image plan.mcu.device) := compareLoop_meets fun block _ => compareBlock_asks block
    have hchanged := hmeets script
    cases hresult : (compareBlocks image plan.mcu.device script).result with
    | error e => exact .error ⟨0, hcompare 0⟩
    | ok changed =>
      rw [hresult] at hchanged
      obtain ⟨replies, hcompared⟩ := hchanged
      have haligned : ∀ block ∈ changed, block.length.toNat % commitSize = 0 :=
        fun block hmem => hregular.aligned block (hcompared.sublist.subset hmem)
      refine Then.ok (Meets.mono
        (P := fun _ rest => ∀ event ∈ rest, Announces (totalLength changed) event) ?_ ?_)
      · refine Emits.compositional.bind (Emits.compositional.pure ()) fun _ =>
          Compositional.ite (Emits.compositional.pure ()) ?_
        refine Emits.compositional.bind (Emits.compositional.bind (progress_announces (Nat.zero_le _))
          fun _ => reflashBlocks_announces false haligned (Nat.zero_add _).le) fun _ => ?_
        exact Emits.compositional.bind (compareBlocks_announces _ _) fun _ =>
          Compositional.ite (Emits.compositional.pure ()) (Emits.compositional.fail _)
      · intro result rest hrest
        refine ⟨totalLength changed, fun event hmem => ?_⟩
        exact (List.mem_append.1 hmem).elim (hcompare _ event) (hrest event)

end Counter

/-! ### Every run -/

section Spec

variable {block : MemoryRegion} {r : BeefRequest}

/-- The requests of the windows of a block. -/
theorem mem_windows (h : r ∈ windows image testWrite block) : ∃ offset < block.length.toNat,
    r = chunkAt image block offset ∨ r = commitAt image testWrite block offset := by
  obtain ⟨k, hk, hr⟩ := List.mem_flatMap.1 h
  have hk := List.mem_range.1 hk
  have hwindow : commitSize * k + commitSize ≤ block.length.toNat := by
    rw [← Nat.mul_succ]
    exact (Nat.mul_le_mul_left _ hk).trans (Nat.mul_div_le _ _)
  rcases List.mem_append.1 hr with hr | hr
  · obtain ⟨j, hj, rfl⟩ := List.mem_map.1 hr
    have hj := List.mem_range.1 hj
    refine ⟨_, ?_, .inl rfl⟩
    simp only [chunkSize, commitSize] at hwindow ⊢
    omega
  · refine ⟨_, ?_, .inr (List.mem_singleton.1 hr)⟩
    simp only [commitSize] at hwindow ⊢
    omega

theorem windows_op (h : r ∈ windows image testWrite block) : r.op = .writeFlashBuffer ∨
    r.op = if testWrite then .validateFlashBuffer else .commitFlashBuffer := by
  obtain ⟨offset, -, rfl | rfl⟩ := mem_windows h
  · exact .inl rfl
  · exact .inr rfl

theorem windows_not_blankPage (image : Bytes) (testWrite : Bool) (block : MemoryRegion) :
    ∀ r ∈ windows image testWrite block, r.op ≠ .blankPage := by
  intro r hr hop
  have hwindows := windows_op hr
  rw [hop] at hwindows
  revert hwindows
  cases testWrite <;> decide

/-- The requests for a block. -/
theorem mem_program (h : r ∈ program image testWrite block) :
    r = ⟨.progVolt, []⟩ ∨ r = eraseRequest block.start ∨ r ∈ windows image testWrite block := by
  rw [program_eq] at h
  simpa using h

/-- The requests that erase, fill the buffer or end a window. -/
def Touches (op : BeefOp) : Prop :=
  op = .blankPage ∨ op = .writeFlashBuffer ∨ op = .validateFlashBuffer ∨ op = .commitFlashBuffer

instance (op : BeefOp) : Decidable (Touches op) := inferInstanceAs (Decidable (_ ∨ _))

/-- Such a request has an address of the block. -/
theorem has_of_mem_program (hpositive : 0 < block.length.toNat) (h : r ∈ program image testWrite block)
    (hop : Touches r.op) : block.Has (readU32Be r.payload 0) := by
  have hoffset : ∀ offset < block.length.toNat, block.Has (block.start + UInt32.ofNat offset) := by
    intro offset hlt
    have hlength := block.length.toNat_lt
    rw [MemoryRegion.Has, UInt32.add_comm, UInt32.add_sub_cancel, UInt32.toNat_ofNat',
      Nat.mod_eq_of_lt (hlt.trans hlength)]
    exact hlt
  rcases mem_program h with rfl | rfl | hr
  · exact absurd hop (by decide)
  · have hstart := readU32Be_beBytes_append block.start []
    rw [List.append_nil] at hstart
    rw [eraseRequest, hstart]
    exact MemoryRegion.has_start hpositive
  · obtain ⟨offset, hlt, rfl | rfl⟩ := mem_windows hr
    · rw [chunkAt, chunkRequest, readU32Be_beBytes_append]
      exact hoffset offset hlt
    · rw [commitAt, commitRequest, readU32Be_beBytes_append]
      exact hoffset offset hlt

/-- What comes before a request that erases, fills the buffer or ends a window: the block it is for was
reported to differ, and the flash mode was acknowledged. -/
structure Gated (plan : Plan) (before : List BeefExchange) (request : BeefRequest)
    (block : MemoryRegion) : Prop where
  mem : block ∈ plan.mcu.device.fblocks
  sent : request ∈ program plan.bytes plan.testWrite block
  has : block.Has (readU32Be request.payload 0)
  differs : ∃ reply, ⟨crcRequest block, .ok reply⟩ ∈ before ∧
    reportedCrc reply ≠ crc32 (slice plan.bytes block)
  enabled : ∃ reply, ⟨modeRequest plan.testWrite, .ok reply⟩ ∈ before

/-- The last exchanges are a comparison of all blocks, and each reported CRC is the one of the image. -/
def Verified (plan : Plan) (xs : List BeefExchange) : Prop :=
  ∃ middle replies, xs = middle ++ comparison plan.mcu.device.fblocks replies ∧
    replies.length = plan.mcu.device.fblocks.length ∧
    ∀ p ∈ plan.mcu.device.fblocks.zip replies, reportedCrc p.2 = crc32 (slice plan.bytes p.1)

/-- What a run of a write does. -/
structure WriteSpec (plan : Plan) (result : Except LinkError Unit)
    (events : List (BeefEvent KlineEvent)) : Prop where
  /-- Nothing follows an exchange that failed. -/
  strict : Strict BeefEvent.failure events result
  /-- An exchange writes the frame of its request, and nothing else is written. -/
  framed : ∀ event ∈ events, KlineFramed event
  verified : result = .ok () → plan.testWrite = false → Verified plan (exchanges events)
  /-- A write that succeeds has sent the whole program of each block that was reported to differ. -/
  complete : result = .ok () → ∃ replies rest,
    exchanges events = comparison plan.mcu.device.fblocks replies ++ rest ∧
    replies.length = plan.mcu.device.fblocks.length ∧
    requests rest = writeProgram plan.mcu.device.fblocks (initProgram plan.testWrite)
      (program plan.bytes plan.testWrite)
      (changedBlocks (crcDiffers reportedCrc (slice plan.bytes)) plan.mcu.device.fblocks replies)
  /-- The flash mode is set once at most, and never enabled in a test. -/
  mode : ∀ before x after, exchanges events = before ++ x :: after → SetsMode x.request.op →
    x.request = modeRequest plan.testWrite ∧ ∀ y ∈ before ++ after, ¬ SetsMode y.request.op
  gated : ∀ before x after, exchanges events = before ++ x :: after → Touches x.request.op →
    ∃ block, Gated plan before x.request block
  erased : ∀ before x after, exchanges events = before ++ x :: after → x.request.op = .blankPage →
    ∃ block, Erased (crcDiffers reportedCrc (slice plan.bytes)) plan.mcu.device.fblocks plan.testWrite
      (windows plan.bytes plan.testWrite) result before x.request after block
  announced : ∃ total, ∀ event ∈ events, Announces total event
  testOnly : plan.testWrite = true → ∀ x ∈ exchanges events,
    x.request.op ≠ .flashEnable ∧ x.request.op ≠ .commitFlashBuffer

theorem verified_of_endsCompared {xs : List BeefExchange}
    (h : EndsCompared (crcDiffers reportedCrc (slice plan.bytes)) plan.mcu.device.fblocks (· = []) xs) :
    Verified plan xs := by
  obtain ⟨after, replies, middle, last, rfl, hcompared, rfl⟩ := h
  refine ⟨middle, replies, by rw [hcompared.exchanges], hcompared.length, ?_⟩
  intro p hp
  have hnone := List.filter_eq_nil_iff.1 (List.map_eq_nil_iff.1 hcompared.changed.symm) p hp
  by_contra hne
  exact hnone (decide_eq_true hne)

theorem program_not_setsMode (image : Bytes) (testWrite : Bool) (block : MemoryRegion) :
    ∀ r ∈ program image testWrite block, ¬ SetsMode r.op := by
  intro r hr
  rcases mem_program hr with rfl | rfl | hr
  · exact (show ¬ SetsMode .progVolt by decide)
  · exact (show ¬ SetsMode .blankPage by decide)
  · rcases windows_op hr with hop | hop
    · rw [hop]
      decide
    · rw [hop]
      cases testWrite <;> decide

/-- What is never sent in a test. -/
theorem testOnly_of_writes {accepted : List MemoryRegion → Prop} {result : Except LinkError Unit}
    {xs : List BeefExchange} {differ : MemoryRegion → Bytes → Bool} {blocks : List MemoryRegion}
    (h : Writes differ blocks (initProgram true) (program image true) accepted result xs) :
    ∀ x ∈ xs, x.request.op ≠ .flashEnable ∧ x.request.op ≠ .commitFlashBuffer := by
  intro x hx
  obtain ⟨changed, -, hpart⟩ := h.part
  have hmem := hpart.subset (List.mem_map_of_mem hx)
  simp only [List.mem_append] at hmem
  rcases hmem with hmem | hmem | hmem | hmem
  · rw [crc_of_mem hmem]
    decide
  · have hinit : ∀ r ∈ initProgram true, r.op ≠ .flashEnable ∧ r.op ≠ .commitFlashBuffer := by decide
    exact hinit _ hmem
  · obtain ⟨block, -, hprogram⟩ := List.mem_flatMap.1 hmem
    rcases mem_program hprogram with heq | heq | hr
    · rw [heq]
      decide
    · rw [heq]
      exact ⟨by simp [eraseRequest], by simp [eraseRequest]⟩
    · rcases windows_op hr with hop | hop
      · rw [hop]
        decide
      · rw [hop]
        decide
  · rw [crc_of_mem hmem]
    decide

end Spec

end FastEcu.Flash.Beef.Sh705x
