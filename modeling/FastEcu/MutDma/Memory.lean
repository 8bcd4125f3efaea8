import FastEcu.Data.Script
import FastEcu.MutDma.Frames
import FastEcu.Ports.LinkError

/-!
# MUT/DMA memory access

`WriteMemory` and `ReadMemory` of `src/backend/protocol/mut_memory.cpp`, with the driver of
`mut_dma_driver.cpp`, over any transport, and an ECU that executes the commands and streams the bytes that
it is asked for.

* `Transport`, `Driver`, `Call` : a transport, the driver over it, and its calls.
* `writeMemory`, `readMemory` : the accesses.
* `Ecu`, `Ecu.transport` : an ECU at the other end of the line.
* `mut_memory_access` : what the accesses do.
-/

namespace FastEcu.MutDma

open Calibration (ErrorKind)
open Data Computation Ports

/-! ### The driver -/

/-- `IKlineTransport` with a state; the cancellation token is a part of it.  Times are in milliseconds. -/
structure Transport (σ : Type) where
  setBaud : ℤ → σ → Except LinkError Unit × σ
  write : Bytes → σ → Except LinkError ℕ × σ
  read : ℤ → σ → Except LinkError (Option Bytes) × σ

/-- `MutDmaDriver` and the state of its transport. -/
structure Driver (σ : Type) where
  channels : List Channel := []
  streaming : Bool := false
  link : σ

/-- A call of the transport. -/
inductive Call
  | setBaud (baud : ℤ)
  | write (frame : Bytes)
  | read (timeout : ℤ)
deriving DecidableEq

/-- A frame that is written. -/
def Call.frame? : Call → Option Bytes
  | .write frame => some frame
  | _ => none

/-- A computation of the driver. -/
abbrev DriverCalls (σ α : Type) := Computation LinkError Call (Driver σ) α

/-- `AckOk`. -/
def ackOk (f : Bytes) (cA cB : Byte) : Bool :=
  verifyFrame f && (byteAt f 0 == cA || byteAt f 0 == cB)

section Driver

variable {σ α : Type} (t : Transport σ)

/-- A call of the transport. -/
def call (event : Call) (f : σ → Except LinkError α × σ) : DriverCalls σ α := fun driver =>
  ⟨(f driver.link).1, [event], { driver with link := (f driver.link).2 }⟩

/-- `AlreadyInMode::Wake`. -/
def wake (baud : ℤ) : DriverCalls σ Unit := call (.setBaud baud) (t.setBaud baud)

/-- `IKlineTransport::Read`. -/
def read (timeout : ℤ) : DriverCalls σ (Option Bytes) := call (.read timeout) (t.read timeout)

/-- `WriteFrame`. -/
def sendFrame (frame : Bytes) : DriverCalls σ Unit := do
  let written ← call (.write frame) (t.write frame)
  if written ≠ frame.length then fail (.of .internal "partial K-Line write") else pure ()

/-- `kMutBaud`. -/
def mutBaud : ℤ := 125000

/-- The check of an acknowledgement. -/
def expectAck (cA cB : Byte) (detail : String) : Option Bytes → DriverCalls σ Unit
  | none => fail (.of .badResponse detail)
  | some resp => if ackOk resp cA cB then pure () else fail (.of .badResponse detail)

/-- `StartFreeFormLog`. -/
def startFreeFormLog (channels : List Channel) (setupCmd listCmd : Byte) : DriverCalls σ Unit := do
  modify fun driver => { driver with channels := channels, streaming := false }
  wake t mutBaud
  sendFrame t (buildSetupFrame setupCmd (UInt8.ofNat channels.length))
  let resp1 ← read t 50
  expectAck 0xA5 0xB5 "MUT/DMA setup acknowledgement invalid" resp1
  sendFrame t (buildIdListFrame listCmd channels)
  let resp2 ← read t 50
  expectAck 0x05 0x15 "MUT/DMA channel-list acknowledgement invalid" resp2
  modify fun driver => { driver with streaming := true }

/-- What `PollOnce` makes of a frame. -/
def streamValues (channels : List Channel) : Option Bytes → Except LinkError (List UInt32)
  | none => .ok []
  | some frame =>
    if (parseStreamFrame frame).ok = false then
      .error (.of .badResponse "MUT/DMA stream framing or checksum invalid")
    else if (parseStreamFrame frame).data.length ≠ responseDataLength channels then
      .error (.of .badResponse "MUT/DMA stream payload length does not match selected widths")
    else .ok (decodeStreamValues channels (parseStreamFrame frame).data)

/-- `PollOnce`. -/
def pollOnce (timeout : ℤ) : DriverCalls σ (List UInt32) := fun driver =>
  (if driver.streaming = false then pure []
    else read t timeout >>= fun frame => ofExcept (streamValues driver.channels frame) :
    DriverCalls σ (List UInt32)) driver

/-- The exchange of a frame in `MutDmaDriver::WriteMemory`. -/
def exchangeWrite (frame : Bytes) : DriverCalls σ Unit := do
  sendFrame t frame
  let echo ← read t 50
  match echo with
  | none => fail (.of .badResponse "MUT/DMA memory-write echo invalid")
  | some echo =>
    if verifyFrame echo then pure () else fail (.of .badResponse "MUT/DMA memory-write echo invalid")

/-- `MutDmaDriver::WriteMemory`. -/
def driverWriteMemory (addr : UInt16) (data : Bytes) : DriverCalls σ Unit := do
  wake t mutBaud
  if buildWriteFrames addr data = [] ∧ data ≠ [] then
    fail (.of .invalidConfig "MUT/DMA memory write range is invalid")
  else each (buildWriteFrames addr data) (exchangeWrite t)

/-! ### Memory -/

/-- `kReadChunk`. -/
def readChunk : ℕ := 40

/-- `WriteMemory`. -/
def writeMemory (addr : UInt16) (data : Bytes) : DriverCalls σ Unit :=
  if addr.toNat < 0x4000 ∨ addr.toNat ≥ 0xC000 ∨ data.length > 0xC000 - addr.toNat then
    fail (.of .invalidConfig "MUT/DMA: refusing write outside 0x4000-0xBFFF")
  else driverWriteMemory t addr data

/-- One turn of the loop of `ReadMemory`. -/
def readPiece (addr : UInt16) (len off : ℕ) : DriverCalls σ Bytes := do
  let chunk := min readChunk (len - off)
  startFreeFormLog t (planReadChannels (addr + UInt16.ofNat off) chunk) 0xA0 0xA1
  let values ← pollOnce t 50
  if values = [] then fail (.of .timeout "MUT/DMA: no frame for memory read chunk")
  else if (reassembleRead values).length ≠ chunk then
    fail (.of .badResponse "MUT/DMA: memory read chunk has unexpected length")
  else pure (reassembleRead values)

/-- The loop of `ReadMemory` over the offsets that are left. -/
def readPieces (addr : UInt16) (len : ℕ) : List ℕ → DriverCalls σ Bytes
  | [] => pure []
  | off :: offs => do
    let piece ← readPiece t addr len off
    let rest ← readPieces addr len offs
    pure (piece ++ rest)

/-- The offsets of `ReadMemory`. -/
def readOffsets (len : ℕ) : List ℕ := (List.range ((len + (readChunk - 1)) / readChunk)).map (readChunk * ·)

/-- `ReadMemory`. -/
def readMemory (addr : UInt16) (len : ℕ) : DriverCalls σ Bytes :=
  if len > 0x10000 - addr.toNat then
    fail (.of .invalidConfig "MUT/DMA: refusing read beyond 16-bit address space")
  else readPieces t addr len (readOffsets len)

end Driver

/-! ### An ECU -/

/-- The replies of an ECU: the acknowledgements that the driver takes, and the id of its stream. -/
structure Replies where
  setup : Bytes
  list : Bytes
  echo : Bytes
  logId : Byte
  setup_ok : ackOk setup 0xA5 0xB5 = true
  list_ok : ackOk list 0x05 0x15 = true
  echo_ok : verifyFrame echo = true

theorem ackOk_buildCommandFrame (cA cB : Byte) : ackOk (buildCommandFrame cA [] trailerStd) cA cB = true := by
  have hverify := @verifyFrame_buildCommandFrame cA trailerStd [] (by decide) (.inl rfl)
  have hcmd : byteAt (buildCommandFrame cA [] trailerStd) 0 = cA := by
    rw [buildCommandFrame_eq (by decide)]
    rfl
  rw [ackOk, hverify, hcmd, beq_self_eq_true]
  rfl

theorem verifyFrame_echo : verifyFrame (buildCommandFrame 0x87 [0x80, 0x00] trailerStd) = true :=
  verifyFrame_buildCommandFrame (by decide) (.inl rfl)

instance : Inhabited Replies :=
  ⟨{ setup := buildCommandFrame 0xA5 [] trailerStd
     list := buildCommandFrame 0x05 [] trailerStd
     echo := buildCommandFrame 0x87 [0x80, 0x00] trailerStd
     logId := 0x51
     setup_ok := ackOk_buildCommandFrame 0xA5 0xB5
     list_ok := ackOk_buildCommandFrame 0x05 0x15
     echo_ok := verifyFrame_echo }⟩

/-- An ECU in MUT/DMA mode: its memory of 64 KiB, what it sends next, and the channels that it streams. -/
structure Ecu where
  memory : UInt16 → Byte
  baud : ℤ
  queue : List Bytes
  streaming : Option (List Channel)

/-- The memory with bytes stored from an address on. -/
def store (memory : UInt16 → Byte) (address : UInt16) (data : Bytes) : UInt16 → Byte :=
  fun a => data.getD (a - address).toNat (memory a)

/-- The memory after a frame is executed. -/
def execute (memory : UInt16 → Byte) (frame : Bytes) : UInt16 → Byte :=
  match writeOf frame with
  | some (address, data) => store memory address data
  | none => memory

/-- The bytes of a channel. -/
def channelBytes (memory : UInt16 → Byte) (channel : Channel) : Bytes :=
  (List.range channel.len.toNat).map fun i => memory (channel.id + UInt16.ofNat i)

namespace Ecu

variable (replies : Replies)

/-- What a frame does to an ECU: a write is executed and echoed, a list of ids starts the stream, and a setup
frame stops it. -/
def receive (ecu : Ecu) (frame : Bytes) : Ecu :=
  match writeOf frame with
  | some _ =>
    { ecu with memory := execute ecu.memory frame, queue := [replies.echo], streaming := none }
  | none =>
    match decodeIdList frame with
    | some channels => { ecu with queue := [replies.list], streaming := some channels }
    | none =>
      if verifyFrame frame = true ∧ (byteAt frame 0 = 0xA0 ∨ byteAt frame 0 = 0xB0) then
        { ecu with queue := [replies.setup], streaming := none }
      else ecu

/-- The next frame of an ECU. -/
def send (ecu : Ecu) : Option Bytes × Ecu :=
  match ecu.queue with
  | frame :: queue => (some frame, { ecu with queue := queue })
  | [] => (ecu.streaming.map fun channels =>
      streamFrame replies.logId (channels.flatMap (channelBytes ecu.memory)), ecu)

/-- The line to an ECU, which listens at one speed only. -/
def transport : Transport Ecu where
  setBaud baud ecu := (.ok (), { ecu with baud := baud })
  write frame ecu :=
    (.ok frame.length, if ecu.baud = mutBaud then ecu.receive replies frame else ecu)
  read _ ecu := if ecu.baud = mutBaud then (.ok (ecu.send replies).1, (ecu.send replies).2) else (.ok none, ecu)

end Ecu

/-! ### The frames of a write -/

/-- A range that may be written. -/
def Writable (addr : UInt16) (size : ℕ) : Prop :=
  0x4000 ≤ addr.toNat ∧ addr.toNat < 0xC000 ∧ addr.toNat + size ≤ 0xC000

/-- The chunks with the addresses that follow one another. -/
def addressed : ℕ → List Bytes → List (UInt16 × Bytes)
  | _, [] => []
  | a, chunk :: chunks => (UInt16.ofNat a, chunk) :: addressed (a + chunk.length) chunks

/-- The frames of a write write the data and nothing else. -/
structure WritesExactly (addr : UInt16) (data : Bytes) (frames : List Bytes) : Prop where
  /-- Each frame passes the check. -/
  verified : ∀ frame ∈ frames, verifyFrame frame = true
  /-- No payload is cut off. -/
  uncut : ∀ frame ∈ frames, ∃ address chunk, chunk.length ≤ maxWriteChunk ∧
    (writePayload address chunk).length ≤ checksumOffset - 1 ∧
    frame = buildCommandFrame 0x87 (writePayload address chunk) trailerStd
  /-- The frames carry the data in chunks, at addresses that follow one another. -/
  chunked : ∃ chunks : List Bytes, frames.map writeOf = (addressed addr.toNat chunks).map some ∧
    chunks.flatten = data ∧ ∀ chunk ∈ chunks, 0 < chunk.length ∧ chunk.length ≤ maxWriteChunk
  /-- An ECU that executes them changes exactly the range. -/
  executed : ∀ memory a, frames.foldl execute memory a =
    if addr.toNat ≤ a.toNat ∧ a.toNat < addr.toNat + data.length then byteAt data (a.toNat - addr.toNat)
    else memory a

section Frames

variable {addr : UInt16} {data : Bytes}

theorem buildWriteFrames_eq (h : Writable addr data.length) :
    buildWriteFrames addr data = (writeOffsets data.length).map (writeFrame addr data) := by
  obtain ⟨-, -, hend⟩ := h
  refine if_neg ?_
  have haddr := addr.toNat_lt
  rw [gt_iff_lt, UInt32.lt_iff_toNat_lt, UInt32.toNat_add, UInt16.toNat_toUInt32, UInt32.toNat_ofNat']
  simp only [UInt32.reduceToNat]
  omega

/-- The chunks of a write. -/
def chunksOf (data : Bytes) : List Bytes :=
  (writeOffsets data.length).map fun off => subspan data off maxWriteChunk

theorem flatten_chunksOf (data : Bytes) : (chunksOf data).flatten = data := by
  rw [chunksOf, writeOffsets, List.map_map, ← List.flatMap_def]
  exact flatMap_subspan_eq data (by decide)

theorem mem_writeOffsets {size off : ℕ} (h : off ∈ writeOffsets size) : off < size := by
  obtain ⟨k, hk, rfl⟩ := List.mem_map.1 h
  have hlt := List.mem_range.1 hk
  simp only [maxWriteChunk] at hlt ⊢
  omega

theorem length_chunk (data : Bytes) (off : ℕ) :
    (subspan data off maxWriteChunk).length = min maxWriteChunk (data.length - off) := by
  rw [subspan, List.length_take, List.length_drop]

theorem writeOf_writeFrame (off : ℕ) : writeOf (writeFrame addr data off) =
    some (addr + UInt16.ofNat off, subspan data off maxWriteChunk) :=
  writeOf_buildCommandFrame (by rw [length_chunk]; exact Nat.min_le_left _ _)

/-- The addresses follow one another. -/
theorem addressed_chunks (addr : UInt16) (data : Bytes) (first n : ℕ)
    (hfull : ∀ k, k + 1 < first + n → maxWriteChunk * (k + 1) ≤ data.length) :
    addressed (addr.toNat + maxWriteChunk * first)
        ((List.range' first n).map fun k => subspan data (maxWriteChunk * k) maxWriteChunk) =
      (List.range' first n).map fun k =>
        (addr + UInt16.ofNat (maxWriteChunk * k), subspan data (maxWriteChunk * k) maxWriteChunk) := by
  induction n generalizing first with
  | zero => rfl
  | succ n ih =>
    have haddress : UInt16.ofNat (addr.toNat + maxWriteChunk * first) =
        addr + UInt16.ofNat (maxWriteChunk * first) := by
      rw [UInt16.ofNat_add, UInt16.ofNat_toNat]
    rw [List.range'_succ, List.map_cons, List.map_cons, addressed, haddress]
    congr 1
    cases n with
    | zero => rfl
    | succ n =>
      have hchunk := hfull first (by omega)
      have hlength : (subspan data (maxWriteChunk * first) maxWriteChunk).length = maxWriteChunk := by
        rw [length_chunk, Nat.min_eq_left]
        rw [Nat.mul_succ] at hchunk
        omega
      rw [hlength, Nat.add_assoc, ← Nat.mul_succ]
      exact ih (first + 1) fun k hk => hfull k (by omega)

/-- The distance from an address of a range that does not wrap. -/
theorem toNat_sub_ofNat {start : ℕ} (hstart : start < 0x10000) (a : UInt16) :
    (a - UInt16.ofNat start).toNat =
      if start ≤ a.toNat then a.toNat - start else a.toNat + (0x10000 - start) := by
  have ha := a.toNat_lt
  rw [UInt16.toNat_sub, UInt16.toNat_ofNat', Nat.mod_eq_of_lt hstart]
  split_ifs <;> omega

/-- A store changes exactly its range. -/
theorem store_apply {start : ℕ} {chunk : Bytes} (hend : start + chunk.length ≤ 0x10000)
    (memory : UInt16 → Byte) (a : UInt16) : store memory (UInt16.ofNat start) chunk a =
      if start ≤ a.toNat ∧ a.toNat < start + chunk.length then byteAt chunk (a.toNat - start)
      else memory a := by
  have ha := a.toNat_lt
  by_cases hstart : start < 0x10000
  · rw [store, toNat_sub_ofNat hstart]
    by_cases hin : start ≤ a.toNat ∧ a.toNat < start + chunk.length
    · rw [if_pos hin, if_pos hin.1, List.getD_eq_getElem _ _ (by omega), byteAt,
        List.getD_eq_getElem _ _ (by omega)]
    · rw [if_neg hin, List.getD_eq_default]
      split_ifs <;> omega
  · -- nothing is stored at the end of the memory
    have hempty : chunk = [] := List.eq_nil_of_length_eq_zero (by omega)
    subst hempty
    rw [if_neg (by rw [List.length_nil]; omega)]
    rfl

/-- The chunks that follow one another change exactly their range. -/
theorem foldl_execute {frames chunks : List Bytes} {start : ℕ}
    (hframes : frames.map writeOf = (addressed start chunks).map some)
    (hend : start + chunks.flatten.length ≤ 0x10000) (memory : UInt16 → Byte) (a : UInt16) :
    frames.foldl execute memory a =
      if start ≤ a.toNat ∧ a.toNat < start + chunks.flatten.length then
        byteAt chunks.flatten (a.toNat - start)
      else memory a := by
  induction chunks generalizing frames start memory with
  | nil =>
    obtain rfl : frames = [] := List.map_eq_nil_iff.1 hframes
    rw [if_neg (by rw [List.flatten_nil, List.length_nil]; omega)]
    rfl
  | cons chunk chunks ih =>
    cases frames with
    | nil => cases hframes
    | cons frame frames =>
      rw [addressed, List.map_cons, List.map_cons] at hframes
      obtain ⟨hframe, hrest⟩ := List.cons.inj hframes
      rw [List.flatten_cons, List.length_append] at hend ⊢
      have hexecute : execute memory frame = store memory (UInt16.ofNat start) chunk := by
        rw [execute, hframe]
      rw [List.foldl_cons, hexecute, ih hrest (by omega), store_apply (by omega)]
      by_cases hfirst : a.toNat < start + chunk.length
      · rw [if_neg (by omega)]
        by_cases hin : start ≤ a.toNat
        · rw [if_pos ⟨hin, hfirst⟩, if_pos ⟨hin, by omega⟩, byteAt, byteAt,
            List.getD_append _ _ _ _ (by omega)]
        · rw [if_neg (by omega), if_neg (by omega)]
      · rw [if_neg (c := start ≤ a.toNat ∧ a.toNat < start + chunk.length) (by omega)]
        by_cases hin : a.toNat < start + chunk.length + chunks.flatten.length
        · rw [if_pos ⟨by omega, hin⟩, if_pos ⟨by omega, by omega⟩, byteAt, byteAt,
            List.getD_append_right _ _ _ _ (by omega), Nat.sub_sub]
        · rw [if_neg (by omega), if_neg (by omega)]

/-- **The frames of a write write the data and nothing else.** -/
theorem writesExactly_buildWriteFrames (h : Writable addr data.length) :
    WritesExactly addr data (buildWriteFrames addr data) := by
  have hframes := buildWriteFrames_eq h
  have hchunked : (buildWriteFrames addr data).map writeOf =
      (addressed addr.toNat (chunksOf data)).map some := by
    have hfull : ∀ k, k + 1 < 0 + (data.length + (maxWriteChunk - 1)) / maxWriteChunk →
        maxWriteChunk * (k + 1) ≤ data.length := by
      intro k hk
      simp only [maxWriteChunk] at hk ⊢
      omega
    have haddressed := addressed_chunks addr data 0 _ hfull
    rw [Nat.mul_zero, Nat.add_zero, ← List.range_eq_range'] at haddressed
    rw [hframes, chunksOf, writeOffsets, List.map_map, List.map_map, List.map_map]
    show _ = List.map some (addressed addr.toNat
      ((List.range _).map fun k => subspan data (maxWriteChunk * k) maxWriteChunk))
    rw [haddressed, List.map_map]
    exact List.map_congr_left fun k _ => writeOf_writeFrame _
  have hmem : ∀ frame ∈ buildWriteFrames addr data, ∃ address chunk, chunk.length ≤ maxWriteChunk ∧
      (writePayload address chunk).length ≤ checksumOffset - 1 ∧
      frame = buildCommandFrame 0x87 (writePayload address chunk) trailerStd := by
    intro frame hframe
    rw [hframes] at hframe
    obtain ⟨off, -, rfl⟩ := List.mem_map.1 hframe
    have hchunk : (subspan data off maxWriteChunk).length ≤ 43 := by
      rw [length_chunk]
      exact Nat.min_le_left _ _
    refine ⟨_, _, hchunk, ?_, rfl⟩
    rw [length_writePayload]
    show _ ≤ 48
    omega
  constructor
  case verified =>
    intro frame hframe
    obtain ⟨address, chunk, -, hpayload, rfl⟩ := hmem frame hframe
    exact verifyFrame_buildCommandFrame hpayload (.inl rfl)
  case uncut => exact hmem
  case chunked =>
    refine ⟨chunksOf data, hchunked, flatten_chunksOf data, ?_⟩
    intro chunk hchunk
    obtain ⟨off, hoff, rfl⟩ := List.mem_map.1 hchunk
    have hlt := mem_writeOffsets hoff
    rw [length_chunk]
    simp only [maxWriteChunk]
    omega
  case executed =>
    intro memory a
    have hall := @foldl_execute _ _ _ hchunked (by rw [flatten_chunksOf]; obtain ⟨-, -, hend⟩ := h; omega)
      memory a
    rwa [flatten_chunksOf] at hall

end Frames

/-! ### What is sent -/

section Sent

variable {σ : Type} (t : Transport σ)

theorem wake_sends (baud : ℤ) : Sends Call.frame? [] (wake t baud) :=
  fun _ => ⟨List.prefix_refl _, fun _ _ => rfl⟩

theorem read_sends (timeout : ℤ) : Sends Call.frame? [] (read t timeout) :=
  fun _ => ⟨List.prefix_refl _, fun _ _ => rfl⟩

theorem sendFrame_sends (frame : Bytes) : Sends Call.frame? [frame] (sendFrame t frame) := by
  have hcall : Sends Call.frame? [frame] (call (.write frame) (t.write frame)) :=
    fun _ => ⟨List.prefix_refl _, fun _ _ => rfl⟩
  exact hcall.bind fun _ => .ite (.fail [] _) (.pure _)

/-- A write sends its frames one after another, and all of them on success. -/
theorem driverWriteMemory_sends (addr : UInt16) (data : Bytes) :
    Sends Call.frame? (buildWriteFrames addr data) (driverWriteMemory t addr data) := by
  have hexchange : ∀ frame, Sends Call.frame? [frame] (exchangeWrite t frame) := by
    intro frame
    refine (sendFrame_sends t frame).bind fun _ => (read_sends t 50).bind fun echo => ?_
    cases echo with
    | none => exact .fail _ _
    | some echo => exact .ite (.pure _) (.fail _ _)
  have hall := Sends.each_map (l := buildWriteFrames addr data) fun frame _ => hexchange frame
  rw [List.map_id'] at hall
  exact (wake_sends t mutBaud).bind fun _ => .ite (.fail _ _) hall

end Sent

/-! ### Accesses of an ECU -/

section Ecu

variable (replies : Replies) {driver : Driver Ecu}

theorem wake_ecu : Returns (wake (Ecu.transport replies) mutBaud) driver ()
    { driver with link := { driver.link with baud := mutBaud } } := ⟨rfl, rfl⟩

theorem sendFrame_ecu (hbaud : driver.link.baud = mutBaud) (frame : Bytes) :
    Returns (sendFrame (Ecu.transport replies) frame) driver ()
      { driver with link := driver.link.receive replies frame } := by
  have hcall : Returns (call (.write frame) ((Ecu.transport replies).write frame)) driver frame.length
      { driver with link := driver.link.receive replies frame } := by
    refine ⟨rfl, ?_⟩
    show ({ driver with link := if driver.link.baud = mutBaud then driver.link.receive replies frame
      else driver.link } : Driver Ecu) = _
    rw [if_pos hbaud]
  refine hcall.bind ?_
  rw [if_neg (not_not.2 rfl)]
  exact .pure _ _

theorem read_ecu (hbaud : driver.link.baud = mutBaud) (timeout : ℤ) :
    Returns (read (Ecu.transport replies) timeout) driver (driver.link.send replies).1
      { driver with link := (driver.link.send replies).2 } := by
  have hread : (Ecu.transport replies).read timeout driver.link =
      (.ok (driver.link.send replies).1, (driver.link.send replies).2) := if_pos hbaud
  constructor
  · show ((Ecu.transport replies).read timeout driver.link).1 = _
    rw [hread]
  · show ({ driver with link := ((Ecu.transport replies).read timeout driver.link).2 } : Driver Ecu) = _
    rw [hread]

/-- The ECU after a write. -/
def Ecu.written (ecu : Ecu) (frame : Bytes) : Ecu :=
  { ecu with memory := execute ecu.memory frame, queue := [], streaming := none }

/-- A frame that writes memory is executed and echoed. -/
theorem exchangeWrite_ecu (hbaud : driver.link.baud = mutBaud) {frame : Bytes} {w : UInt16 × Bytes}
    (hframe : writeOf frame = some w) : Returns (exchangeWrite (Ecu.transport replies) frame) driver ()
      { driver with link := driver.link.written frame } := by
  have hreceive : driver.link.receive replies frame =
      { driver.link.written frame with queue := [replies.echo] } := by
    rw [Ecu.receive, hframe]
    rfl
  refine (sendFrame_ecu replies hbaud frame).bind ?_
  rw [hreceive]
  refine (@read_ecu replies { driver with
    link := { driver.link.written frame with queue := [replies.echo] } } hbaud 50).bind ?_
  show Returns (if verifyFrame replies.echo = true then pure () else _) _ _ _
  rw [if_pos replies.echo_ok]
  exact .pure _ _

/-- The memory after a write. -/
theorem each_exchangeWrite_ecu {frames : List Bytes} (hframes : ∀ frame ∈ frames, ∃ w, writeOf frame = some w)
    (hbaud : driver.link.baud = mutBaud) :
    ∃ driver' : Driver Ecu, Returns (each frames (exchangeWrite (Ecu.transport replies))) driver () driver' ∧
      driver'.link.memory = frames.foldl execute driver.link.memory := by
  induction frames generalizing driver with
  | nil => exact ⟨driver, .pure _ _, rfl⟩
  | cons frame frames ih =>
    obtain ⟨w, hw⟩ := hframes frame (List.mem_cons_self ..)
    obtain ⟨driver', hreturns, hmemory⟩ := @ih { driver with link := driver.link.written frame }
      (fun f hf => hframes f (List.mem_cons_of_mem _ hf)) hbaud
    exact ⟨driver', (exchangeWrite_ecu replies hbaud hw).bind hreturns, hmemory⟩

/-- A write of a range that may be written succeeds, and the ECU has executed its frames. -/
theorem writeMemory_ecu {addr : UInt16} {data : Bytes} (h : Writable addr data.length) :
    ∃ driver' : Driver Ecu, Returns (writeMemory (Ecu.transport replies) addr data) driver () driver' ∧
      driver'.link.memory = (buildWriteFrames addr data).foldl execute driver.link.memory := by
  have hframes : ∀ frame ∈ buildWriteFrames addr data, ∃ w, writeOf frame = some w := by
    intro frame hframe
    rw [buildWriteFrames_eq h] at hframe
    obtain ⟨off, -, rfl⟩ := List.mem_map.1 hframe
    exact ⟨_, writeOf_writeFrame off⟩
  have hsome : ¬ (buildWriteFrames addr data = [] ∧ data ≠ []) := by
    rintro ⟨hnone, hdata⟩
    obtain ⟨chunks, hchunks, hflatten, -⟩ := (writesExactly_buildWriteFrames h).chunked
    cases chunks with
    | nil => exact hdata hflatten.symm
    | cons chunk chunks =>
      rw [hnone] at hchunks
      cases hchunks
  obtain ⟨driver', hreturns, hmemory⟩ := @each_exchangeWrite_ecu replies
    { driver with link := { driver.link with baud := mutBaud } } _ hframes rfl
  refine ⟨driver', ?_, hmemory⟩
  obtain ⟨hlow, hhigh, hend⟩ := h
  rw [writeMemory, if_neg (by omega)]
  refine (wake_ecu replies).bind ?_
  rw [if_neg hsome]
  exact hreturns

/-! ### Reading from an ECU -/

theorem writeOf_of_cmd {frame : Bytes} (h : byteAt frame 0 ≠ 0x87) : writeOf frame = none :=
  if_neg fun hwrite => h hwrite.2.1

/-- The ECU after it was told what to stream. -/
def Ecu.streams (ecu : Ecu) (channels : List Channel) : Ecu :=
  { ecu with baud := mutBaud, queue := [], streaming := some channels }

/-- A setup frame stops the stream. -/
theorem receive_setup (ecu : Ecu) (count : Byte) : ecu.receive replies (buildSetupFrame 0xA0 count) =
    { ecu with queue := [replies.setup], streaming := none } := by
  have hlength : [count].length ≤ 48 := show 1 ≤ 48 by decide
  have hframe := @buildCommandFrame_eq 0xA0 trailerFreeform [count] hlength
  have hcmd : byteAt (buildSetupFrame 0xA0 count) 0 = 0xA0 := by
    rw [buildSetupFrame, hframe]
    rfl
  have hverify : verifyFrame (buildSetupFrame 0xA0 count) = true :=
    verifyFrame_buildCommandFrame hlength (.inr rfl)
  have hlist : decodeIdList (buildSetupFrame 0xA0 count) = none := by
    refine if_neg ?_
    rw [hcmd]
    rintro ⟨-, hlow, -⟩
    exact absurd hlow (by decide)
  rw [Ecu.receive, writeOf_of_cmd (by rw [hcmd]; decide), hlist]
  exact if_pos ⟨hverify, .inl hcmd⟩

/-- A list of ids starts the stream. -/
theorem receive_list {channels : List Channel} (hcount : channels.length < 256)
    (hlens : ∀ channel ∈ channels, channel.len ∈ [1, 2, 4]) (ecu : Ecu) :
    ecu.receive replies (buildIdListFrame 0xA1 channels) =
      { ecu with queue := [replies.list], streaming := some channels } := by
  have hcmd := (head_buildIdListFrame 0xA1 channels).1
  rw [Ecu.receive, writeOf_of_cmd (by rw [hcmd]; decide),
    decodeIdList_buildIdListFrame (by decide) hcount hlens]

theorem expectAck_some {cA cB : Byte} {detail : String} {resp : Bytes} (h : ackOk resp cA cB = true)
    (driver : Driver Ecu) : Returns (expectAck cA cB detail (some resp)) driver () driver := by
  rw [expectAck, if_pos h]
  exact .pure _ _

/-- The handshake starts the stream. -/
theorem startFreeFormLog_ecu {channels : List Channel} (hcount : channels.length < 256)
    (hlens : ∀ channel ∈ channels, channel.len ∈ [1, 2, 4]) :
    Returns (startFreeFormLog (Ecu.transport replies) channels 0xA0 0xA1) driver ()
      { channels := channels, streaming := true, link := driver.link.streams channels } := by
  let awake : Ecu := { driver.link with baud := mutBaud }
  have hsetup := @sendFrame_ecu replies ⟨channels, false, awake⟩ rfl
    (buildSetupFrame 0xA0 (UInt8.ofNat channels.length))
  have hlist := @sendFrame_ecu replies ⟨channels, false, { awake with queue := [], streaming := none }⟩ rfl
    (buildIdListFrame 0xA1 channels)
  rw [receive_setup] at hsetup
  rw [receive_list replies hcount hlens] at hlist
  have hfirst := @read_ecu replies
    ⟨channels, false, { awake with queue := [replies.setup], streaming := none }⟩ rfl 50
  have hsecond := @read_ecu replies
    ⟨channels, false, { awake with queue := [replies.list], streaming := some channels }⟩ rfl 50
  have hstart : Returns (modify fun driver : Driver Ecu =>
      { driver with channels := channels, streaming := false } : DriverCalls Ecu Unit) driver ()
      ⟨channels, false, driver.link⟩ := ⟨rfl, rfl⟩
  refine hstart.bind ?_
  refine (wake_ecu replies).bind (hsetup.bind (hfirst.bind ?_))
  refine (expectAck_some replies.setup_ok _).bind (hlist.bind (hsecond.bind ?_))
  exact (expectAck_some replies.list_ok _).bind ⟨rfl, rfl⟩

/-- The bytes of a range. -/
def bytesAt (memory : UInt16 → Byte) (addr : UInt16) (len : ℕ) : Bytes :=
  (List.range len).map fun i => memory (addr + UInt16.ofNat i)

theorem flatMap_planReadChannels (memory : UInt16 → Byte) (addr : UInt16) (len : ℕ) :
    (planReadChannels addr len).flatMap (channelBytes memory) = bytesAt memory addr len := by
  rw [planReadChannels, List.flatMap_map, bytesAt, ← List.flatMap_pure_eq_map]
  refine List.flatMap_congr fun i _ => ?_
  show [memory (addr + UInt16.ofNat i + UInt16.ofNat 0)] = [memory (addr + UInt16.ofNat i)]
  rw [show UInt16.ofNat 0 = 0 from rfl, UInt16.add_zero]

/-- A piece of the range is read. -/
theorem readPiece_ecu {addr : UInt16} {len off : ℕ} (hoff : off < len) :
    ∃ driver' : Driver Ecu, Returns (readPiece (Ecu.transport replies) addr len off) driver
        (bytesAt driver.link.memory (addr + UInt16.ofNat off) (min readChunk (len - off))) driver' ∧
      driver'.link.memory = driver.link.memory := by
  obtain ⟨chunk, hchunk⟩ : ∃ chunk, chunk = min readChunk (len - off) := ⟨_, rfl⟩
  have hpos : 0 < chunk ∧ chunk ≤ 40 := by
    rw [hchunk, readChunk]
    omega
  obtain ⟨channels, hchannels⟩ : ∃ channels, channels = planReadChannels (addr + UInt16.ofNat off) chunk :=
    ⟨_, rfl⟩
  have hcount : channels.length = chunk := by
    rw [hchannels, planReadChannels, List.length_map, List.length_range]
  have hbytes : ∀ channel ∈ channels, channel.len = 1 := by
    intro channel hchannel
    rw [hchannels] at hchannel
    obtain ⟨i, -, rfl⟩ := List.mem_map.1 hchannel
    rfl
  obtain ⟨data, hdata⟩ : ∃ data, data = bytesAt driver.link.memory (addr + UInt16.ofNat off) chunk := ⟨_, rfl⟩
  have hlength : data.length = chunk := by
    rw [hdata, bytesAt, List.length_map, List.length_range]
  have hstream : channels.flatMap (channelBytes driver.link.memory) = data := by
    rw [hchannels, flatMap_planReadChannels, hdata]
  have hpiece := reassembleRead_decodeStreamValues hbytes (hcount.trans hlength.symm)
  have hvalues : streamValues channels (some (streamFrame replies.logId data)) =
      .ok (decodeStreamValues channels data) := by
    rw [streamValues, parseStreamFrame_streamFrame, if_neg Bool.true_eq_false.mp, if_neg (not_not.2 ?_)]
    show data.length = responseDataLength channels
    rw [responseDataLength_bytes hbytes, hcount, hlength]
  refine ⟨⟨channels, true, driver.link.streams channels⟩, ?_, rfl⟩
  have hpoll : Returns (pollOnce (Ecu.transport replies) 50) ⟨channels, true, driver.link.streams channels⟩
      (decodeStreamValues channels data) ⟨channels, true, driver.link.streams channels⟩ := by
    have hread := @read_ecu replies ⟨channels, true, driver.link.streams channels⟩ rfl 50
    refine hread.bind ?_
    show Returns (ofExcept (streamValues channels
      (some (streamFrame replies.logId (channels.flatMap (channelBytes driver.link.memory)))))) _ _ _
    rw [hstream, hvalues]
    exact .pure _ _
  have hsome : decodeStreamValues channels data ≠ [] := by
    intro hnone
    rw [hnone] at hpiece
    rw [← hpiece] at hlength
    exact absurd hlength (by simp only [reassembleRead, List.map_nil, List.length_nil]; omega)
  unfold readPiece
  simp only [← hchunk, ← hchannels]
  refine (startFreeFormLog_ecu replies (by omega) fun channel h => ?_).bind (hpoll.bind ?_)
  · rw [hbytes channel h]
    decide
  · rw [if_neg hsome, hpiece, if_neg (not_not.2 hlength), ← hdata]
    exact .pure _ _

theorem readPieces_ecu {addr : UInt16} {len : ℕ} {offs : List ℕ} (hoffs : ∀ off ∈ offs, off < len) :
    ∃ driver' : Driver Ecu, Returns (readPieces (Ecu.transport replies) addr len offs) driver
        (offs.flatMap fun off =>
          bytesAt driver.link.memory (addr + UInt16.ofNat off) (min readChunk (len - off))) driver' ∧
      driver'.link.memory = driver.link.memory := by
  induction offs generalizing driver with
  | nil => exact ⟨driver, .pure _ _, rfl⟩
  | cons off offs ih =>
    obtain ⟨middle, hpiece, hmemory⟩ := @readPiece_ecu replies driver addr len off
      (hoffs off (List.mem_cons_self ..))
    obtain ⟨driver', hrest, hmemory'⟩ := @ih middle fun o ho => hoffs o (List.mem_cons_of_mem _ ho)
    rw [hmemory] at hrest hmemory'
    exact ⟨driver', hpiece.bind (hrest.bind (.pure _ _)), hmemory'⟩

/-- The pieces of a range are the range. -/
theorem flatMap_readOffsets (memory : UInt16 → Byte) (addr : UInt16) (len : ℕ) :
    ((readOffsets len).flatMap fun off =>
      bytesAt memory (addr + UInt16.ofNat off) (min readChunk (len - off))) = bytesAt memory addr len := by
  have hpiece : ∀ off, subspan (bytesAt memory addr len) off readChunk =
      bytesAt memory (addr + UInt16.ofNat off) (min readChunk (len - off)) := by
    intro off
    apply List.ext_getElem?
    intro i
    by_cases hi : i < min readChunk (len - off)
    · have hsum : addr + UInt16.ofNat (off + i) = addr + UInt16.ofNat off + UInt16.ofNat i := by
        rw [UInt16.ofNat_add, UInt16.add_assoc]
      rw [getElem?_subspan (by omega), bytesAt, bytesAt, List.getElem?_map, List.getElem?_map,
        List.getElem?_range (by omega), List.getElem?_range hi, Option.map_some, Option.map_some, hsum]
    · rw [List.getElem?_eq_none, List.getElem?_eq_none]
      · rw [bytesAt, List.length_map, List.length_range]
        omega
      · rw [subspan, List.length_take, List.length_drop, bytesAt, List.length_map, List.length_range]
        omega
  have hlength : (bytesAt memory addr len).length = len := by
    rw [bytesAt, List.length_map, List.length_range]
  have hall := @flatMap_subspan_eq (bytesAt memory addr len) readChunk (by decide)
  rw [hlength] at hall
  rw [readOffsets, List.flatMap_map]
  simp only [← hpiece]
  exact hall

/-- A read of a range inside the address space gives its bytes. -/
theorem readMemory_ecu {addr : UInt16} {len : ℕ} (h : addr.toNat + len ≤ 0x10000) :
    (readMemory (Ecu.transport replies) addr len driver).result =
      .ok (bytesAt driver.link.memory addr len) := by
  have haddr := addr.toNat_lt
  obtain ⟨driver', hreturns, -⟩ := @readPieces_ecu replies driver addr len (readOffsets len) fun off hoff => by
    obtain ⟨k, hk, rfl⟩ := List.mem_map.1 hoff
    have hlt := List.mem_range.1 hk
    simp only [readChunk] at hlt ⊢
    omega
  rw [flatMap_readOffsets] at hreturns
  rw [readMemory, if_neg (by omega)]
  exact hreturns.1

end Ecu

/-! ### The accesses -/

/-- What an access of the memory does, whatever the transport, the replies of the ECU and its state are. -/
structure MemoryAccess (addr : UInt16) (data : Bytes) (len : ℕ) : Prop where
  /-- A write of a range that may be written sends its frames one after another, all of them on success. -/
  sent : Writable addr data.length → ∀ (σ : Type) (t : Transport σ) (driver : Driver σ),
    sent Call.frame? (writeMemory t addr data driver).events <+: buildWriteFrames addr data ∧
      ((writeMemory t addr data driver).result = .ok () →
        sent Call.frame? (writeMemory t addr data driver).events = buildWriteFrames addr data)
  /-- The frames write the data and nothing else. -/
  frames : Writable addr data.length → WritesExactly addr data (buildWriteFrames addr data)
  /-- An ECU that executes them and echoes has the data in the range, and is the same elsewhere. -/
  written : Writable addr data.length → ∀ (replies : Replies) (driver : Driver Ecu),
    (writeMemory (Ecu.transport replies) addr data driver).result = .ok () ∧
      ∀ a, (writeMemory (Ecu.transport replies) addr data driver).state.link.memory a =
        if addr.toNat ≤ a.toNat ∧ a.toNat < addr.toNat + data.length then
          byteAt data (a.toNat - addr.toNat)
        else driver.link.memory a
  /-- Nothing is sent to another range. -/
  refused : ¬ Writable addr data.length → ∀ (σ : Type) (t : Transport σ) (driver : Driver σ),
    (writeMemory t addr data driver).events = [] ∧ (writeMemory t addr data driver).result =
      .error (.of .invalidConfig "MUT/DMA: refusing write outside 0x4000-0xBFFF")
  /-- A read gives the bytes of the range. -/
  read : addr.toNat + len ≤ 0x10000 → ∀ (replies : Replies) (driver : Driver Ecu),
    (readMemory (Ecu.transport replies) addr len driver).result =
      .ok ((List.range len).map fun i => driver.link.memory (UInt16.ofNat (addr.toNat + i)))

/-- **What is written is written exactly, and what is read is the memory.** -/
theorem mut_memory_access (addr : UInt16) (data : Bytes) (len : ℕ) : MemoryAccess addr data len := by
  constructor
  case sent =>
    rintro ⟨hlow, hhigh, hend⟩ σ t driver
    rw [writeMemory, if_neg (by omega)]
    obtain ⟨hpart, hall⟩ := driverWriteMemory_sends t addr data driver
    exact ⟨hpart, hall ()⟩
  case frames => exact writesExactly_buildWriteFrames
  case written =>
    intro h replies driver
    obtain ⟨driver', ⟨hresult, rfl⟩, hmemory⟩ := @writeMemory_ecu replies driver addr data h
    refine ⟨hresult, fun a => ?_⟩
    rw [hmemory]
    exact (writesExactly_buildWriteFrames h).executed driver.link.memory a
  case refused =>
    intro h σ t driver
    have hrange : addr.toNat < 0x4000 ∨ addr.toNat ≥ 0xC000 ∨ data.length > 0xC000 - addr.toNat := by
      by_contra hinside
      exact h ⟨by omega, by omega, by omega⟩
    rw [writeMemory, if_pos hrange]
    exact ⟨rfl, rfl⟩
  case read =>
    intro h replies driver
    rw [readMemory_ecu replies h, bytesAt]
    refine congrArg Except.ok (List.map_congr_left fun i _ => ?_)
    rw [UInt16.ofNat_add, UInt16.ofNat_toNat]

-- the last bytes of the address space, which are no whole chunk
example : (readMemory (Ecu.transport default) 0xFFFD 3 ⟨[], false, ⟨UInt16.toUInt8, 0, [], none⟩⟩).result =
    .ok [0xFD, 0xFE, 0xFF] := by decide +kernel

end FastEcu.MutDma
