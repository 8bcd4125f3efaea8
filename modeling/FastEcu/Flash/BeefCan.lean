import FastEcu.Flash.BeefEcu

/-!
# Writing through the BEEF kernel on CAN

`BeefCanKernel::Write` of `src/backend/flash/ecu/beef_can_kernel.cpp`: the erase regions of the plan are
compared with its image, and those that differ are erased and written.

* `exchange` : a request with its reply, as the kernel frames them.
* `compareBlocks`, `initializeFlash`, `flashBlock`, `write` : the write.
* `write_meets` : what is exchanged, whatever the answers are.
* `write_spec` : what is erased and what follows an erase in every run, and what the flash of a simulated
  ECU is after a run that succeeded.
-/

namespace FastEcu.Flash.Beef.Can

open Calibration (ErrorKind)
open Data Computation Ports
open Diagnostics (hexDigits)

/-! ### Exchanges -/

/-- The fields of `DensoBeefCanProfile` that a write uses. -/
structure BeefCanProfile where
  family : String
  initTimeout : ℤ := 500
  upperHexSizes : Bool := false

/-- Where the requests go, and the wording of the family (`KernelContext`). -/
structure KernelContext where
  channel : UdsChannel
  profile : BeefCanProfile

/-- A part of a write. -/
abbrev KernelRun (α : Type) := BeefRun CanEvent CanAnswer α

/-- `ParseBeef`: the opcode and the payload that the declared length covers. -/
def parseBeef (pdu : Bytes) : Except LinkError (Byte × Bytes) :=
  if pdu.length < 5 then .error (.of .badResponse "short BEEF response envelope")
  else if readU16Be pdu 0 ≠ 0xBEEF then .error (.of .badResponse "wrong BEEF response marker")
  else
    let declared := (readU16Be pdu 2).toNat
    if declared < 1 ∨ declared + 4 > pdu.length then
      .error (.of .badResponse "invalid BEEF response length")
    else .ok (byteAt pdu 4, subspan pdu 5 (declared - 1))

/-- The check of the reply in `Exchange`. -/
def checkReply (op : BeefOp) (minimumPayload : ℕ) (reply : Bytes) : Except LinkError Bytes :=
  match parseBeef reply with
  | .error e => .error e
  | .ok (opcode, payload) =>
    if opcode ≠ (op.byte ||| 0x40) then
      .error (.of .badResponse ("unexpected BEEF response opcode 0x" ++ hexDigits 2 opcode.toNat ++
        ", expected 0x" ++ hexDigits 2 (op.byte ||| 0x40).toNat))
    else if payload.length < minimumPayload then
      .error (.of .badResponse "short BEEF response payload")
    else .ok payload

variable (ctx : KernelContext)

/-- `ChannelRequest`. -/
def channelRequest (pdu : Bytes) (timeout : ℤ) : CanRun Bytes := do
  ctx.channel.send pdu
  match ← ctx.channel.receive timeout with
  | none => fail (.of .timeout "no CAN response within the read timeout")
  | some received => pure received

/-- `Exchange`. -/
def exchange (request : BeefRequest) (minimumPayload : ℕ) (timeout : ℤ) : KernelRun Bytes :=
  nest (.exchange request) do
    let reply ← channelRequest ctx request.body timeout
    ofExcept (checkReply request.op minimumPayload reply)

/-- `CancelledIfRequested`. -/
def cancelledIfRequested (detail : String) : KernelRun Unit := do
  if ← outside poll then fail (.of .cancelled detail) else pure ()

/-! ### The write -/

/-- What a write takes from its plan: the image at the start of the transfer region, and the erase
regions, whose end addresses `ValidateAndBuild` has found to fit in 32 bits. -/
structure BeefPlan where
  image : Bytes
  imageBase : UInt32
  regions : List MemoryRegion
  testWrite : Bool
  ends : ∀ region ∈ regions, region.start.toNat + region.length.toNat ≤ 0xFFFFFFFF

/-- The bytes of the image for a region. -/
def BeefPlan.slice (plan : BeefPlan) (region : MemoryRegion) : Bytes :=
  subspan plan.image (region.start - plan.imageBase).toNat region.length.toNat

/-- The errors of the raw read that are not tolerated. -/
def endsDrain (e : LinkError) : Bool := decide (e.kind = .cancelled ∨ e.kind = .disconnected)

/-- The raw read after the reply to a CRC: only a cancellation and a disconnection end the write. -/
def drainStale : KernelRun Unit := do
  match ← attempt (outside (guardedRead 200)) with
  | .error e => if endsDrain e then fail e else pure ()
  | .ok _ => pure ()

/-- `QueryCrc`. -/
def queryCrc (block : MemoryRegion) : KernelRun UInt32 := do
  let reply ← exchange ctx (crcRequest block) 4 3000
  cancelledIfRequested "CRC stale-frame drain cancelled"
  drainStale
  pure (readU32Be reply 0)

variable (plan : BeefPlan)

/-- The comparison of one block in `CompareBlocks`. -/
def compareBlock (block : MemoryRegion) : KernelRun Bool := do
  cancelledIfRequested "ROM compare cancelled"
  if block.start < plan.imageBase ∨
      (block.start - plan.imageBase).toNat + block.length.toNat > plan.image.length then
    fail (.of .invalidConfig (ctx.profile.family ++ " CRC block is outside the image"))
  else
    let ecuCrc ← queryCrc ctx block
    outside (sleep 5)
    pure (decide (ecuCrc ≠ crc32 (plan.slice block)))

/-- `CompareBlocks`: the blocks that differ. -/
def compareBlocks : KernelRun (List MemoryRegion) := compareLoop (compareBlock ctx plan) plan.regions

/-- `InitializeFlash`. -/
def initializeFlash : KernelRun Unit := do
  let _ ← exchange ctx ⟨.getMaxMsgSize, []⟩ 4 ctx.profile.initTimeout
  let _ ← exchange ctx ⟨.getMaxBlockSize, []⟩ 4 ctx.profile.initTimeout
  let _ ← exchange ctx (modeRequest plan.testWrite) 0 ctx.profile.initTimeout

/-- `ValidateFlashBlock`. -/
def validateFlashBlock (block : MemoryRegion) : Except LinkError Unit :=
  if block.length.toNat = 0 ∨ block.length.toNat % chunkSize ≠ 0 ∨
      block.length.toNat % commitSize ≠ 0 then
    .error (.of .invalidConfig (ctx.profile.family ++ " flash block is not aligned to " ++
      if ctx.profile.upperHexSizes then "the portable write windows" else "write windows"))
  else if block.start < plan.imageBase then
    .error (.of .invalidConfig (ctx.profile.family ++ " flash block starts before the image"))
  else if (block.start - plan.imageBase).toNat + block.length.toNat > plan.image.length then
    .error (.of .invalidConfig (ctx.profile.family ++ " flash block extends beyond the image"))
  else .ok ()

/-- The chunk of `FlashBlock` at an offset. -/
def writeChunk (block : MemoryRegion) (offset : ℕ) : KernelRun Unit := do
  let _ ← exchange ctx (chunkRequest (block.start + UInt32.ofNat offset)
    (subspan plan.image ((block.start - plan.imageBase).toNat + offset) chunkSize)) 0 800

/-- `CommitBuffer` for the window of `FlashBlock` at an offset. -/
def commitBuffer (block : MemoryRegion) (offset : ℕ) : KernelRun Unit := do
  cancelledIfRequested "flash commit cancelled"
  let _ ← exchange ctx (commitRequest plan.testWrite (block.start + UInt32.ofNat offset)
    (crc32 (subspan plan.image ((block.start - plan.imageBase).toNat + offset) commitSize))) 0 3000

/-- `FlashBlock`. -/
def flashBlock (block : MemoryRegion) : KernelRun Unit := do
  ofExcept (validateFlashBlock ctx plan block)
  let _ ← exchange ctx (eraseRequest block.start) 0 3000
  chunkLoop block.length.toNat (writeChunk ctx plan block) (commitBuffer ctx plan block)

/-- The flashing of one block that changed in `Write`. -/
def reflashBlock (block : MemoryRegion) : KernelRun Unit := do
  cancelledIfRequested "flash block loop cancelled"
  let _ ← exchange ctx ⟨.progVolt, []⟩ 2 500
  flashBlock ctx plan block

/-- `BeefCanKernel::Write`.  What the last comparison finds is only logged. -/
def write : KernelRun Unit :=
  writeChanged (compareBlocks ctx plan) (pure ())
    (fun changed => do
      initializeFlash ctx plan
      each changed (reflashBlock ctx plan))
    fun _ => pure ()

/-! ### What is exchanged -/

variable {ctx plan}

theorem exchange_sends (request : BeefRequest) (minimumPayload : ℕ) (timeout : ℤ) :
    Sends BeefEvent.request? [request] (exchange ctx request minimumPayload timeout) := nest_sends

theorem cancelledIfRequested_quiet (detail : String) : Quiet Unit (cancelledIfRequested detail) :=
  Emits.compositional.bind (outside_quiet poll) fun _ =>
    Compositional.ite (Emits.compositional.fail _) (Emits.compositional.pure ())

theorem drainStale_quiet : Quiet Unit drainStale := by
  refine Emits.compositional.bind (outside_quiet (guardedRead 200)) ?_
  rintro (e | frame)
  · exact Compositional.ite (Emits.compositional.fail _) (Emits.compositional.pure ())
  · exact Emits.compositional.pure ()

theorem queryCrc_asks (block : MemoryRegion) :
    Meets (Asks (crcRequest block) fun reply => readU32Be reply 0) (queryCrc ctx block) := by
  refine Asks.bind_gives (g := fun reply => readU32Be reply 0) (asks_nest _) fun reply => ?_
  exact .quiet_bind (cancelledIfRequested_quiet _) fun _ => .quiet_bind drainStale_quiet fun _ => .pure _

/-- The CRC that the payload of a reply reports. -/
def reportedCrc (reply : Bytes) : UInt32 := readU32Be reply 0

theorem compareBlock_asks (block : MemoryRegion) :
    Meets (Asks (crcRequest block) (crcDiffers reportedCrc plan.slice block))
      (compareBlock ctx plan block) := by
  refine Asks.quiet_bind (cancelledIfRequested_quiet _) fun _ =>
    .ite (fun _ => asks_fail _) fun _ => ?_
  refine Asks.bind_gives (g := fun crc => decide (crc ≠ crc32 (plan.slice block)))
    (queryCrc_asks block) fun crc => ?_
  exact .quiet_bind (outside_quiet (sleep 5)) fun _ => .pure _

theorem initializeFlash_sends :
    Sends BeefEvent.request? (initProgram plan.testWrite) (initializeFlash ctx plan) :=
  (exchange_sends _ _ _).bind fun _ => (exchange_sends _ _ _).bind fun _ =>
    (exchange_sends _ _ _).map fun _ => ()

/-- The regions that a write erases. -/
def valid (ctx : KernelContext) (plan : BeefPlan) (block : MemoryRegion) : Bool :=
  match validateFlashBlock ctx plan block with
  | .ok _ => true
  | .error _ => false

/-- What is sent after the erase of a region, window by window: eight chunks that tile the window, and
its commit. -/
def windows (plan : BeefPlan) (block : MemoryRegion) : List BeefRequest :=
  (List.range (block.length.toNat / commitSize)).flatMap (windowProgram
    (fun offset => chunkRequest (block.start + UInt32.ofNat offset)
      (subspan plan.image ((block.start - plan.imageBase).toNat + offset) chunkSize))
    fun offset => commitRequest plan.testWrite (block.start + UInt32.ofNat offset)
      (crc32 (subspan plan.image ((block.start - plan.imageBase).toNat + offset) commitSize)))

/-- What a valid region is. -/
theorem valid_iff {block : MemoryRegion} : valid ctx plan block = true ↔
    0 < block.length.toNat ∧ block.length.toNat % commitSize = 0 ∧ plan.imageBase ≤ block.start ∧
      (block.start - plan.imageBase).toNat + block.length.toNat ≤ plan.image.length := by
  have hbefore : block.start < plan.imageBase ↔ ¬ plan.imageBase ≤ block.start := UInt32.not_le.symm
  unfold valid validateFlashBlock
  split
  · rename_i heq
    split_ifs at heq with haligned hstart hlength
    have hmultiple : block.length.toNat % commitSize = 0 := by
      by_contra hne
      exact haligned (.inr (.inr hne))
    refine iff_of_true rfl ⟨Nat.pos_of_ne_zero fun hzero => haligned (.inl hzero), hmultiple, ?_,
      Nat.le_of_not_lt hlength⟩
    by_contra hnot
    exact hstart (hbefore.2 hnot)
  · rename_i heq
    refine iff_of_false (by decide) ?_
    rintro ⟨hpositive, haligned, hstart, hlength⟩
    rw [if_neg, if_neg fun h => hbefore.1 h hstart, if_neg (Nat.not_lt.2 hlength)] at heq
    · cases heq
    · simp only [chunkSize, commitSize] at haligned ⊢
      omega

theorem reflashBlock_sends (block : MemoryRegion) : Sends BeefEvent.request?
    (eraseProgram (valid ctx plan) (fun _ => [⟨.progVolt, []⟩]) (windows plan) block)
    (reflashBlock ctx plan block) := by
  rw [← List.nil_append (eraseProgram _ _ _ block)]
  refine (cancelledIfRequested_quiet _).sends.bind fun _ => (exchange_sends _ _ _).bind fun _ => ?_
  by_cases hvalid : valid ctx plan block = true
  · have hwhole : block.length.toNat = commitSize * (block.length.toNat / commitSize) :=
      (Nat.mul_div_cancel' (Nat.dvd_of_mod_eq_zero (valid_iff.1 hvalid).2.1)).symm
    rw [if_pos hvalid, windows, ← chunkProgram_eq hwhole, ← List.singleton_append, flashBlock]
    rw [valid] at hvalid
    cases hblock : validateFlashBlock ctx plan block with
    | error e => exact .fail _ e
    | ok u =>
      rw [ofExcept_ok_bind]
      refine (exchange_sends _ _ _).bind fun _ => chunkLoop_sends (fun offset _ => ?_) fun offset _ => ?_
      · exact (exchange_sends _ _ _).map fun _ => ()
      · rw [← List.nil_append [_]]
        exact (cancelledIfRequested_quiet _).sends.bind fun _ => (exchange_sends _ _ _).map fun _ => ()
  · rw [if_neg hvalid, flashBlock]
    rw [valid] at hvalid
    cases hblock : validateFlashBlock ctx plan block with
    | error e => exact .fail _ e
    | ok u =>
      rw [hblock] at hvalid
      exact absurd rfl hvalid

/-- The program of a region, from the bytes of the image for it. -/
theorem eraseProgram_eq {block : MemoryRegion} (h : valid ctx plan block = true) :
    eraseProgram (valid ctx plan) (fun _ => [⟨.progVolt, []⟩]) (windows plan) block =
      blockProgram plan.testWrite true block (plan.slice block) := by
  have hwhole : block.length.toNat = commitSize * (block.length.toNat / commitSize) :=
    (Nat.mul_div_cancel' (Nat.dvd_of_mod_eq_zero (valid_iff.1 h).2.1)).symm
  rw [eraseProgram, if_pos h, blockProgram, if_pos rfl, List.singleton_append, List.singleton_append,
    chunkProgram_eq hwhole, windows]
  congr 2
  refine List.flatMap_congr fun k hk => ?_
  have hlt := List.mem_range.1 hk
  have hsize : commitSize = 8 * chunkSize := rfl
  have hwindow : commitSize * k + commitSize ≤ block.length.toNat := by
    rw [← Nat.mul_succ]
    exact (Nat.mul_le_mul_left _ hlt).trans hwhole.ge
  rw [windowProgram, windowProgram, BeefPlan.slice, subspan_subspan hwindow]
  congr 1
  refine List.map_congr_left fun j hj => ?_
  have hj := List.mem_range.1 hj
  have hchunk : commitSize * k + chunkSize * j + chunkSize ≤ block.length.toNat := by
    simp only [chunkSize, commitSize] at hwindow ⊢
    omega
  rw [subspan_subspan hchunk]

/-- **What a write exchanges, whatever the answers are.** -/
theorem write_meets : Meets (fun result events => Writes (crcDiffers reportedCrc plan.slice) plan.regions
      (initProgram plan.testWrite)
      (eraseProgram (valid ctx plan) (fun _ => [⟨.progVolt, []⟩]) (windows plan)) (fun _ => True) result
      (exchanges events)) (write ctx plan) :=
  writeChanged_meets (compareLoop_meets fun block _ => compareBlock_asks block) (.pure ())
    (fun _ _ _ => initializeFlash_sends.bind fun _ => .each fun block _ => reflashBlock_sends block)
    fun _ => Meets.pure ⟨rfl, fun _ => trivial⟩

/-! ### Parts -/

section Parts

variable {Q : ∀ α : Type, KernelRun α → Prop} (hQ : Compositional Q)
  (hexchange : ∀ request minimumPayload timeout, Q Bytes (exchange ctx request minimumPayload timeout))
  (hcancelled : ∀ detail, Q Unit (cancelledIfRequested detail)) (hdrain : Q Unit drainStale)
  (hsleep : Q Unit (outside (sleep 5)))

include hQ hexchange hcancelled hdrain hsleep

/-- A property of every part is one of the write. -/
theorem write_parts : Q Unit (write ctx plan) := by
  refine writeChanged_parts hQ (compareLoop_parts hQ (fun block => ?_) _) (hQ.pure ())
    (fun changed => hQ.bind ?_ fun _ => hQ.each fun block _ => ?_) fun _ => hQ.pure ()
  · exact hQ.bind (hcancelled _) fun _ => Compositional.ite (hQ.fail _) <|
      hQ.bind (hQ.bind (hexchange _ _ _) fun _ => hQ.bind (hcancelled _) fun _ =>
        hQ.bind hdrain fun _ => hQ.pure _) fun _ => hQ.bind hsleep fun _ => hQ.pure _
  · exact hQ.bind (hexchange _ _ _) fun _ => hQ.bind (hexchange _ _ _) fun _ =>
      hQ.bind (hexchange _ _ _) fun _ => hQ.pure ()
  · refine hQ.bind (hcancelled _) fun _ => hQ.bind (hexchange _ _ _) fun _ => hQ.bind ?_ fun _ =>
      hQ.bind (hexchange _ _ _) fun _ => chunkLoop_parts hQ _ (fun offset => ?_) fun offset => ?_
    · cases validateFlashBlock ctx plan block with
      | error e => exact hQ.fail e
      | ok u => exact hQ.pure u
    · exact hQ.bind (hexchange _ _ _) fun _ => hQ.pure ()
    · exact hQ.bind (hcancelled _) fun _ => hQ.bind (hexchange _ _ _) fun _ => hQ.pure ()

end Parts

theorem write_strictly : Strictly BeefEvent.failure Unit (write ctx plan) :=
  write_parts Strictly.compositional (fun _ _ _ => nest_strictly)
    (fun detail => (cancelledIfRequested_quiet detail).strictly) drainStale_quiet.strictly
    (outside_quiet (sleep 5)).strictly

/-- What a call writes. -/
def data? : CanEvent → Option Bytes
  | .write data _ => some data
  | _ => none

/-- The frame of a request on CAN. -/
def canFrame (channel : UdsChannel) (request : BeefRequest) : Bytes := channel.frameOf request.body

/-- The call that has written the frame of a request. -/
def canTaken (channel : UdsChannel) (request : BeefRequest) : CanEvent :=
  .write (canFrame channel request) (.ok ())

theorem guardedRead_silent (timeout : ℤ) : Silent data? (Option Bytes) (guardedRead timeout) := by
  refine Emits.compositional.bind (silent_ask fun _ _ h => (nomatch h)) fun cancelled =>
    Compositional.ite (Emits.compositional.fail _) (silent_ask fun answer call hmem => ?_)
  rw [List.mem_singleton.1 hmem]
  rfl

theorem guardedWrite_writesFrame (frame : Bytes) :
    Meets (WritesFrame data? frame (.write frame (.ok ()))) (guardedWrite frame) := by
  refine .bind (.ask fun polled => .ok (.ite (fun _ => .fail ⟨by simp, fun _ h => (nomatch h)⟩)
    fun _ => .ask fun answer => ⟨?_, ?_⟩))
  · intro call hmem data hdata
    rw [List.mem_singleton.1 hmem] at hdata
    exact (Option.some.inj hdata).symm
  · intro a h
    simp [show answer.status = .ok () from h]

theorem exchange_framed (request : BeefRequest) (minimumPayload : ℕ) (timeout : ℤ) :
    Emits (Framed data? (canFrame ctx.channel) (canTaken ctx.channel)) Bytes
      (exchange ctx request minimumPayload timeout) := by
  refine nest_framed (WritesFrame.bind (WritesFrame.bind (guardedWrite_writesFrame _) fun _ => ?_)
    fun _ => silent_ofExcept _)
  refine Emits.compositional.bind (Emits.compositional.bind (guardedRead_silent timeout) fun _ =>
    silent_ofExcept _) ?_
  rintro (_ | received)
  · exact Emits.compositional.fail _
  · exact Emits.compositional.pure received

theorem write_framed : Emits (Framed data? (canFrame ctx.channel) (canTaken ctx.channel)) Unit
    (write ctx plan) := by
  refine write_parts Emits.compositional exchange_framed (fun detail => ?_) ?_
    (outside_framed (silent_ask fun answer call hmem => ?_))
  · exact Emits.compositional.bind (outside_framed (m := poll) (silent_ask fun _ _ h => (nomatch h)))
      fun _ => Compositional.ite (Emits.compositional.fail _) (Emits.compositional.pure ())
  · refine Emits.compositional.bind (outside_framed (guardedRead_silent 200)) ?_
    rintro (e | frame)
    · exact Compositional.ite (Emits.compositional.fail _) (Emits.compositional.pure ())
    · exact Emits.compositional.pure ()
  · rw [List.mem_singleton.1 hmem]
    rfl

/-! ### Every run -/

/-- The regions of the plan are apart and in the image, and they are of whole windows and of a length
that a request for a CRC can carry. -/
structure BeefPlan.Regular (plan : BeefPlan) : Prop where
  apart : plan.regions.Pairwise MemoryRegion.Apart
  inImage : ∀ region ∈ plan.regions, plan.imageBase ≤ region.start ∧
    (region.start - plan.imageBase).toNat + region.length.toNat ≤ plan.image.length
  aligned : ∀ region ∈ plan.regions, region.length.toNat % commitSize = 0
  short : ∀ region ∈ plan.regions, region.length.toNat < 2 ^ 24

/-- The flash of a simulated ECU after a write: the regions whose CRC differed have the bytes of the
image, and nothing else has changed. -/
structure Flashed (plan : BeefPlan) (flash flash' : DensoIso15765.EcuMemory) : Prop where
  regions : ∀ region ∈ stale flash plan.slice plan.regions,
    DensoIso15765.bytesAt flash' region.start region.length.toNat = plan.slice region
  others : ∀ a, (∀ region ∈ stale flash plan.slice plan.regions, ¬ region.Has a) → flash' a = flash a

/-- What a run of a write does. -/
structure WriteSpec (ctx : KernelContext) (plan : BeefPlan) (result : Except LinkError Unit)
    (events : List (BeefEvent CanEvent)) : Prop where
  /-- Nothing follows an exchange that failed. -/
  strict : Strict BeefEvent.failure events result
  /-- An exchange writes the frame of its request, and nothing else is written. -/
  framed : ∀ event ∈ events, Framed data? (canFrame ctx.channel) (canTaken ctx.channel) event
  erased : ∀ before x after, exchanges events = before ++ x :: after → x.request.op = .blankPage →
    ∃ region, Erased (crcDiffers reportedCrc plan.slice) plan.regions plan.testWrite (windows plan) result
      before x.request after region
  flashed : result = .ok () → plan.testWrite = false → ∀ ecu : BeefEcu, ecu.blocks = plan.regions →
    AnswersCrc reportedCrc ecu (exchanges events) →
    Flashed plan ecu.flash (ecu.after (exchanges events)).flash

/-- A region of a regular plan is valid if it is not empty. -/
theorem BeefPlan.Regular.valid (h : plan.Regular) {region : MemoryRegion} (hmem : region ∈ plan.regions)
    (hpositive : 0 < region.length.toNat) : valid ctx plan region = true :=
  valid_iff.2 ⟨hpositive, h.aligned region hmem, h.inImage region hmem⟩

theorem write_flashed (hplan : plan.Regular) (script : List CanAnswer) :
    (write ctx plan script).result = .ok () → plan.testWrite = false → ∀ ecu : BeefEcu,
    ecu.blocks = plan.regions → AnswersCrc reportedCrc ecu (exchanges (write ctx plan script).events) →
    Flashed plan ecu.flash (ecu.after (exchanges (write ctx plan script).events)).flash := by
  intro hresult hwrite ecu hblocks hanswers
  have hmeets := @write_meets ctx plan script
  rw [hresult, hwrite] at hmeets
  have hlength : ∀ region ∈ plan.regions, (plan.slice region).length = region.length.toNat :=
    fun region hmem => length_subspan (hplan.inImage region hmem).2
  have hflash := hmeets.flash_after
    (fun region hmem hpositive => hwrite ▸ eraseProgram_eq (hplan.valid hmem hpositive)) hanswers hblocks
    hplan.apart fun region hmem => ⟨hplan.aligned region hmem, hplan.short region hmem, hlength region hmem⟩
  have hsublist : (stale ecu.flash plan.slice plan.regions).Sublist plan.regions := List.filter_sublist
  rw [hflash]
  refine ⟨?_, fun a ha => putBlocks_of_not_has ha⟩
  intro region hmem
  exact bytesAt_putBlocks (hplan.apart.sublist hsublist) hmem (hlength region (hsublist.subset hmem))

theorem windows_not_blankPage (plan : BeefPlan) (block : MemoryRegion) :
    ∀ r ∈ windows plan block, r.op ≠ .blankPage := by
  intro r hr
  obtain ⟨k, -, hr⟩ := List.mem_flatMap.1 hr
  rcases List.mem_append.1 hr with hr | hr
  · obtain ⟨j, -, rfl⟩ := List.mem_map.1 hr
    exact fun h => (nomatch h)
  · rw [List.mem_singleton.1 hr]
    cases htest : plan.testWrite <;> simp [commitRequest]

/-- The end addresses of the sample plan fit in 32 bits. -/
theorem samplePlan_ends : ∀ region ∈ [(⟨0x8000, 0x1000⟩ : MemoryRegion), ⟨0x9000, 0x2000⟩],
    region.start.toNat + region.length.toNat ≤ 0xFFFFFFFF := by decide

/-- A plan with two regions. -/
def samplePlan : BeefPlan where
  image := List.replicate 0x3000 0x5A
  imageBase := 0x8000
  regions := [⟨0x8000, 0x1000⟩, ⟨0x9000, 0x2000⟩]
  testWrite := false
  ends := samplePlan_ends

theorem samplePlan_regular : samplePlan.Regular where
  apart := by
    refine List.pairwise_pair.2 ?_
    rintro a ⟨hfirst, hsecond⟩
    rw [MemoryRegion.has_iff (by decide)] at hfirst hsecond
    simp only [UInt32.reduceToNat] at hfirst hsecond
    omega
  inImage := by
    have hlength : samplePlan.image.length = 0x3000 := List.length_replicate
    rw [hlength]
    decide
  aligned := by decide
  short := by decide

end FastEcu.Flash.Beef.Can
