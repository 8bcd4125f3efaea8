import FastEcu.Flash.UdsSession

/-!
# The BEEF kernel protocol

The requests that the flash kernel of a Denso ECU takes, and the loops that the executors of the CAN
and of the K-line families share: the blocks of the flash are compared with an image by their CRC, and
those that differ are erased, sent chunk by chunk and committed window by window.

* `crc32` : the checksum of the protocol.
* `BeefOp`, `BeefRequest` : the requests.
* `BeefEvent`, `exchanges` : what a session leaves, and the exchanges in it.
* `compareLoop`, `chunkLoop`, `writeChanged` : the loops.
* `chunkLoop_sends`, `chunkProgram_eq` : what is sent for a block, and that it is sent window by window.
-/

namespace FastEcu.Flash.Beef

open Data Computation Ports

/-! ### The checksum -/

/-- One bit of an entry of `kCrcTable`: the entry so far and what is left of its index. -/
def crcBit (s : UInt32 × UInt32) : UInt32 × UInt32 :=
  (if (s.1 ^^^ s.2) &&& 1 ≠ 0 then (s.1 >>> 1) ^^^ 0x5AA5A55A else s.1 >>> 1, s.2 >>> 1)

/-- `kCrcTable`. -/
def crcTable (i : UInt32) : UInt32 := (Nat.repeat crcBit 8 (0, i)).1

/-- `Crc32` of `src/algorithms/checksum/checksum_primitives.cpp`. -/
def crc32 (data : Bytes) : UInt32 :=
  data.foldl (fun crc byte => crcTable ((crc ^^^ byte.toUInt32) &&& 0xFF) ^^^ (crc >>> 8)) 0xFFFFFFFF ^^^
    0xFFFFFFFF

/-! ### Requests -/

/-- The requests of the kernel. -/
inductive BeefOp
  | kernelId
  | crc
  | readArea
  | progVolt
  | getMaxMsgSize
  | getMaxBlockSize
  | flashEnable
  | flashDisable
  | writeFlashBuffer
  | validateFlashBuffer
  | commitFlashBuffer
  | blankPage
deriving DecidableEq, Repr

/-- The opcode of a request. -/
def BeefOp.byte : BeefOp → Byte
  | .kernelId => 0x01
  | .crc => 0x02
  | .readArea => 0x03
  | .progVolt => 0x04
  | .getMaxMsgSize => 0x05
  | .getMaxBlockSize => 0x06
  | .flashEnable => 0x20
  | .flashDisable => 0x21
  | .writeFlashBuffer => 0x22
  | .validateFlashBuffer => 0x23
  | .commitFlashBuffer => 0x24
  | .blankPage => 0x25

/-- A request, without the frame that a link puts around it. -/
structure BeefRequest where
  op : BeefOp
  payload : Bytes := []
deriving DecidableEq, Repr

/-- The marker, the length of what follows, the opcode and the payload. -/
def BeefRequest.body (request : BeefRequest) : Bytes :=
  beBytes16 0xBEEF ++ beBytes16 (UInt16.ofNat (request.payload.length + 1)) ++
    request.op.byte :: request.payload

/-- `kBeefFlashBufferSize`, `kWriteChunkSize`. -/
def chunkSize : ℕ := 0x200

/-- `kBeefFlashCommitSize`, `kCommitBlockSize`. -/
def commitSize : ℕ := 0x1000

/-- The request for the CRC of a block. -/
def crcRequest (block : MemoryRegion) : BeefRequest :=
  ⟨.crc, beBytes block.start ++ 0x00 :: beBytes24 block.length⟩

/-- The request that erases the block at an address. -/
def eraseRequest (start : UInt32) : BeefRequest := ⟨.blankPage, beBytes start⟩

/-- The request that puts a chunk into the buffer. -/
def chunkRequest (address : UInt32) (chunk : Bytes) : BeefRequest :=
  ⟨.writeFlashBuffer, beBytes address ++ chunk⟩

/-- The request that commits the buffer, or only validates it. -/
def commitRequest (testWrite : Bool) (address crc : UInt32) : BeefRequest :=
  ⟨if testWrite then .validateFlashBuffer else .commitFlashBuffer,
    beBytes address ++ (beBytes16 0x1000 ++ beBytes crc)⟩

/-- The request that sets the flash mode. -/
def modeRequest (testWrite : Bool) : BeefRequest :=
  ⟨if testWrite then .flashDisable else .flashEnable, []⟩

/-- The requests that initialize a flash write. -/
def initProgram (testWrite : Bool) : List BeefRequest :=
  [⟨.getMaxMsgSize, []⟩, ⟨.getMaxBlockSize, []⟩, modeRequest testWrite]

/-! ### Sessions -/

/-- What a session leaves, over a link with the calls `κ`. -/
inductive BeefEvent (κ : Type)
  /-- An exchange, with the calls it made. -/
  | exchange (request : BeefRequest) (calls : List κ) (result : Except LinkError Bytes)
  /-- A call outside an exchange. -/
  | call (event : κ)
  /-- `IEventSink::Progress` of a write. -/
  | progress (written total : ℕ)

/-- A part of a session, over a link with the calls `κ` and the answers `ρ`. -/
abbrev BeefRun (κ ρ α : Type) := Computation LinkError (BeefEvent κ) (List ρ) α

/-- A call outside an exchange. -/
def outside {κ ρ α : Type} (m : Computation LinkError κ (List ρ) α) : BeefRun κ ρ α :=
  mapEvents .call m

/-- An exchange without its calls. -/
structure BeefExchange where
  request : BeefRequest
  result : Except LinkError Bytes

section Events

variable {κ : Type}

/-- The exchange of an event. -/
def BeefEvent.exchange? : BeefEvent κ → Option BeefExchange
  | .exchange request _ result => some ⟨request, result⟩
  | _ => none

/-- The error of an exchange that failed. -/
def BeefEvent.failure : BeefEvent κ → Option LinkError
  | .exchange _ _ (.error e) => some e
  | _ => none

/-- The exchanges among the events. -/
def exchanges (events : List (BeefEvent κ)) : List BeefExchange := sent BeefEvent.exchange? events

/-- The requests of exchanges. -/
def requests (xs : List BeefExchange) : List BeefRequest := xs.map BeefExchange.request

/-- The request of an event. -/
def BeefEvent.request? (event : BeefEvent κ) : Option BeefRequest :=
  event.exchange?.map BeefExchange.request

@[simp]
theorem exchanges_nil : exchanges ([] : List (BeefEvent κ)) = [] := rfl

@[simp]
theorem exchanges_append (l l' : List (BeefEvent κ)) :
    exchanges (l ++ l') = exchanges l ++ exchanges l' := sent_append _ _

@[simp]
theorem requests_append (xs ys : List BeefExchange) :
    requests (xs ++ ys) = requests xs ++ requests ys := List.map_append

theorem sent_request? (events : List (BeefEvent κ)) :
    sent BeefEvent.request? events = requests (exchanges events) := by
  rw [requests, exchanges, sent, sent, List.map_filterMap]
  rfl

end Events

/-! ### Loops -/

section Loops

variable {κ ρ : Type}

/-- The loop over the blocks that compares them: the blocks that differ. -/
def compareLoop (differs : MemoryRegion → BeefRun κ ρ Bool) :
    List MemoryRegion → BeefRun κ ρ (List MemoryRegion)
  | [] => pure []
  | block :: blocks => do
    let different ← differs block
    let changed ← compareLoop differs blocks
    pure (if different then block :: changed else changed)

/-- The loop over the chunks of a block, with a commit after the last chunk of each window. -/
def chunkLoop (length : ℕ) (write commit : ℕ → BeefRun κ ρ Unit) : BeefRun κ ρ Unit :=
  each (List.range (length / chunkSize)) fun i => do
    write (chunkSize * i)
    when (decide ((chunkSize * i + chunkSize) % commitSize = 0))
      (commit (chunkSize * i + chunkSize - commitSize))

/-- A write: the blocks are compared, those that differ are flashed, and the blocks are compared
again. -/
def writeChanged (compare : BeefRun κ ρ (List MemoryRegion)) (prepare : BeefRun κ ρ Unit)
    (flash finish : List MemoryRegion → BeefRun κ ρ Unit) : BeefRun κ ρ Unit := do
  let changed ← compare
  prepare
  if changed = [] then pure () else
    flash changed
    let after ← compare
    finish after

end Loops

/-! ### Parts of the loops -/

section Parts

variable {κ ρ : Type} {Q : ∀ α : Type, BeefRun κ ρ α → Prop} (hQ : Compositional Q)

include hQ

theorem compareLoop_parts {differs : MemoryRegion → BeefRun κ ρ Bool} (h : ∀ block, Q Bool (differs block))
    (blocks : List MemoryRegion) : Q (List MemoryRegion) (compareLoop differs blocks) := by
  induction blocks with
  | nil => exact hQ.pure []
  | cons block blocks ih => exact hQ.bind (h block) fun _ => hQ.bind ih fun _ => hQ.pure _

theorem chunkLoop_parts {write commit : ℕ → BeefRun κ ρ Unit} (length : ℕ)
    (hwrite : ∀ offset, Q Unit (write offset)) (hcommit : ∀ offset, Q Unit (commit offset)) :
    Q Unit (chunkLoop length write commit) :=
  hQ.each fun _ _ => hQ.bind (hwrite _) fun _ => hQ.when _ (hcommit _)

theorem writeChanged_parts {compare : BeefRun κ ρ (List MemoryRegion)} {prepare : BeefRun κ ρ Unit}
    {flash finish : List MemoryRegion → BeefRun κ ρ Unit} (hcompare : Q _ compare)
    (hprepare : Q Unit prepare) (hflash : ∀ changed, Q Unit (flash changed))
    (hfinish : ∀ after, Q Unit (finish after)) :
    Q Unit (writeChanged compare prepare flash finish) :=
  hQ.bind hcompare fun _ => hQ.bind hprepare fun _ => Compositional.ite (hQ.pure ()) <|
    hQ.bind (hflash _) fun _ => hQ.bind hcompare hfinish

end Parts

/-! ### Exchanges -/

section Exchange

variable {κ ρ : Type} {request : BeefRequest} {m : Computation LinkError κ (List ρ) Bytes}

theorem nest_sends : Sends BeefEvent.request? [request] (nest (.exchange request) m) := by
  intro script
  exact ⟨List.prefix_refl _, fun _ _ => rfl⟩

/-- Nothing follows an exchange that failed. -/
theorem nest_strictly : Strictly BeefEvent.failure Bytes (nest (.exchange request) m) := by
  intro script
  refine .singleton ?_
  intro e he
  unfold BeefEvent.failure at he
  split at he
  · rename_i heq
    cases he
    exact (BeefEvent.exchange.inj heq).2.2
  · cases he

end Exchange

/-! ### Chunks and windows -/

/-- The requests of the chunks of a block and of its windows. -/
def chunkProgram (length : ℕ) (write commit : ℕ → BeefRequest) : List BeefRequest :=
  (List.range (length / chunkSize)).flatMap fun i =>
    write (chunkSize * i) ::
      if (chunkSize * i + chunkSize) % commitSize = 0 then
        [commit (chunkSize * i + chunkSize - commitSize)]
      else []

/-- The requests of one window: its eight chunks in order, and its commit. -/
def windowProgram (write commit : ℕ → BeefRequest) (window : ℕ) : List BeefRequest :=
  (List.range 8).map (fun j => write (commitSize * window + chunkSize * j)) ++
    [commit (commitSize * window)]

/-- The chunks of one window. -/
theorem flatMap_window (write commit : ℕ → BeefRequest) (k : ℕ) :
    ((List.range 8).flatMap fun j => write (chunkSize * (8 * k + j)) ::
      if (chunkSize * (8 * k + j) + chunkSize) % commitSize = 0 then
        [commit (chunkSize * (8 * k + j) + chunkSize - commitSize)]
      else []) = windowProgram write commit k := by
  have hchunk : ∀ j, chunkSize * (8 * k + j) = commitSize * k + chunkSize * j := by
    intro j
    simp only [chunkSize, commitSize]
    omega
  have hlast : commitSize * k + chunkSize * 7 + chunkSize - commitSize = commitSize * k := by
    simp only [chunkSize, commitSize]
    omega
  -- only the last of the eight chunks ends a window
  have hmod : ∀ j < 8, (commitSize * k + chunkSize * j + chunkSize) % commitSize = 0 ↔ j = 7 := by
    intro j hj
    simp only [chunkSize, commitSize]
    omega
  simp only [hchunk, windowProgram]
  simp only [show List.range 8 = [0, 1, 2, 3, 4, 5, 6, 7] from rfl, List.flatMap_cons, List.flatMap_nil,
    List.map_cons, List.map_nil]
  rw [if_neg (by rw [hmod 0 (by decide)]; decide), if_neg (by rw [hmod 1 (by decide)]; decide),
    if_neg (by rw [hmod 2 (by decide)]; decide), if_neg (by rw [hmod 3 (by decide)]; decide),
    if_neg (by rw [hmod 4 (by decide)]; decide), if_neg (by rw [hmod 5 (by decide)]; decide),
    if_neg (by rw [hmod 6 (by decide)]; decide), if_pos ((hmod 7 (by decide)).2 rfl), hlast]
  rfl

/-- A list of `8 * n` numbers in groups of eight. -/
theorem flatMap_range_eight {α : Type} (f : ℕ → List α) (n : ℕ) :
    (List.range (8 * n)).flatMap f =
      (List.range n).flatMap fun k => (List.range 8).flatMap fun j => f (8 * k + j) := by
  induction n with
  | zero => rfl
  | succ n ih =>
    rw [@List.range_succ n, List.flatMap_append, ← ih, Nat.mul_succ, List.range_add, List.flatMap_append,
      List.flatMap_map, List.flatMap_singleton]

/-- Only the chunks and the windows within the length matter. -/
theorem chunkProgram_congr {length : ℕ} {write write' commit commit' : ℕ → BeefRequest}
    (hwrite : ∀ offset, offset + chunkSize ≤ length → write offset = write' offset)
    (hcommit : ∀ offset, offset + commitSize ≤ length → commit offset = commit' offset) :
    chunkProgram length write commit = chunkProgram length write' commit' := by
  refine List.flatMap_congr fun i hi => ?_
  have hlt := List.mem_range.1 hi
  have hfits : chunkSize * i + chunkSize ≤ length := by
    simp only [chunkSize] at hlt ⊢
    omega
  rw [hwrite _ hfits]
  by_cases hlast : (chunkSize * i + chunkSize) % commitSize = 0
  · rw [if_pos hlast, if_pos hlast, hcommit]
    simp only [chunkSize, commitSize] at hlast hfits ⊢
    omega
  · rw [if_neg hlast, if_neg hlast]

/-- The requests of a block are for its chunks and for its windows. -/
theorem mem_chunkProgram {length : ℕ} {write commit : ℕ → BeefRequest} {r : BeefRequest}
    (h : r ∈ chunkProgram length write commit) :
    (∃ offset, offset + chunkSize ≤ length ∧ r = write offset) ∨
      ∃ offset, offset + commitSize ≤ length ∧ r = commit offset := by
  obtain ⟨i, hi, hr⟩ := List.mem_flatMap.1 h
  have hlt := List.mem_range.1 hi
  have hfits : chunkSize * i + chunkSize ≤ length := by
    simp only [chunkSize] at hlt ⊢
    omega
  rcases List.mem_cons.1 hr with rfl | hr
  · exact .inl ⟨_, hfits, rfl⟩
  · by_cases hlast : (chunkSize * i + chunkSize) % commitSize = 0
    · rw [if_pos hlast] at hr
      refine .inr ⟨_, ?_, List.mem_singleton.1 hr⟩
      simp only [chunkSize, commitSize] at hlast hfits ⊢
      omega
    · rw [if_neg hlast] at hr
      exact absurd hr List.not_mem_nil

/-- The chunks of a block of whole windows, window by window. -/
theorem chunkProgram_eq {length n : ℕ} (h : length = commitSize * n) (write commit : ℕ → BeefRequest) :
    chunkProgram length write commit = (List.range n).flatMap (windowProgram write commit) := by
  have hcount : length / chunkSize = 8 * n := by
    rw [h]
    simp only [chunkSize, commitSize]
    omega
  rw [chunkProgram, hcount, flatMap_range_eight]
  simp only [flatMap_window]

section Sends

variable {κ ρ : Type} {write commit : ℕ → BeefRun κ ρ Unit} {writeRequest commitRequest : ℕ → BeefRequest}

/-- **The chunk loop sends the chunks in order, and a commit after each window.** -/
theorem chunkLoop_sends {length : ℕ}
    (hwrite : ∀ offset, offset + chunkSize ≤ length →
      Sends BeefEvent.request? [writeRequest offset] (write offset))
    (hcommit : ∀ offset, offset + commitSize ≤ length →
      Sends BeefEvent.request? [commitRequest offset] (commit offset)) :
    Sends BeefEvent.request? (chunkProgram length writeRequest commitRequest)
      (chunkLoop length write commit) := by
  refine .each ?_
  intro i hi
  have hlt := List.mem_range.1 hi
  have hfits : chunkSize * i + chunkSize ≤ length := by
    simp only [chunkSize] at hlt ⊢
    omega
  rw [← List.singleton_append]
  refine (hwrite _ hfits).bind fun _ => ?_
  by_cases hlast : (chunkSize * i + chunkSize) % commitSize = 0
  · rw [if_pos hlast, when, if_pos (decide_eq_true hlast)]
    refine hcommit _ ?_
    simp only [chunkSize, commitSize] at hlast hfits ⊢
    omega
  · rw [if_neg hlast, when, if_neg (by simpa using hlast)]
    exact .pure ()

end Sends

end FastEcu.Flash.Beef
