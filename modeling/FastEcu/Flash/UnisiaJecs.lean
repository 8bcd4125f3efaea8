import FastEcu.Data.Script
import FastEcu.Ports.LinkError
import FastEcu.Bytes.Words

/-!
# Reading a Unisia JECS ROM

`src/backend/flash/ecu/subaru_unisia_jecs_executor.cpp`: the ECU answers an address with tuples of the
address and its byte, on a line that may still hold tuples of the addresses before it.

* `takeAddressedValue` : looks for the tuple of an address in what has been received; it slides by a byte
  until it is synchronized, and by a tuple then.
* `readRange` : the bytes of a range of addresses.
* `Answers` : tuples that answer a list of addresses, with stale tuples before each answer.
* `readRange_spec` : the bytes that are read are those of the ROM, wherever the stream is cut, and a value
  is only ever taken behind its address.
-/

namespace FastEcu.Flash.UnisiaJecs

open Calibration (ErrorKind)
open Data Computation Ports

/-! ### What has been received -/

/-- `RawReadState`. -/
structure RawReadState where
  pending : Bytes := []
  synchronized : Bool := false
  tuplesSinceSync : ℕ := 0
deriving DecidableEq

/-- The high byte of an address. -/
def high (address : UInt16) : Byte := (address >>> 8).toUInt8

/-- The low byte of an address. -/
def low (address : UInt16) : Byte := address.toUInt8

/-- The loop of `TakeAddressedValue`: the value, and what is left. -/
def takeFrom (address : UInt16) : Bytes → Bool → ℕ → Option Byte × RawReadState
  | b₀ :: b₁ :: value :: rest, synchronized, tuples =>
    if b₀ = high address ∧ b₁ = low address then (some value, ⟨rest, true, 0⟩)
    else
      -- the counter has counted this tuple when it is compared
      let lost := decide (tuples + 1 > 10)
      let tuples := if lost then 0 else tuples + 1
      if synchronized then takeFrom address rest (!lost) tuples
      else takeFrom address (b₁ :: value :: rest) false tuples
  | pending, synchronized, tuples => (none, ⟨pending, synchronized, tuples⟩)

/-- `TakeAddressedValue`. -/
def takeAddressedValue (state : RawReadState) (address : UInt16) : Option Byte × RawReadState :=
  takeFrom address state.pending state.synchronized state.tuplesSinceSync

/-! ### The session -/

/-- What the token, the transport and the clock are going to answer.  When there is no answer left, the
token is not cancelled, a write takes all bytes and a sleep ends. -/
structure Link where
  cancelled : List Bool := []
  written : List (Except LinkError ℕ) := []
  slept : List (Except LinkError Unit) := []
  reads : List (Except LinkError (Option Bytes)) := []

/-- How a session stops: with an error, or because there is nothing more to be read. -/
inductive Stop
  | failed (e : LinkError)
  | waiting
deriving DecidableEq

/-- A call of the transport or of the clock; times are in milliseconds. -/
inductive Call
  | writeRaw (data : Bytes)
  | readRaw (timeout : ℕ)
  | sleep (duration : ℕ)
deriving DecidableEq

/-- A part of a session. -/
abbrev Session (α : Type) := Computation Stop Call Link α

/-- What a call gives. -/
def answerOf {α : Type} : Except LinkError α → Except Stop α := Except.mapError .failed

/-- `ICancellationToken::Cancelled`. -/
def poll : Session Bool := fun link =>
  ⟨.ok (link.cancelled.headD false), [], { link with cancelled := link.cancelled.tail }⟩

/-- `IKlineFlashTransport::WriteRaw`. -/
def writeRaw (data : Bytes) : Session ℕ := fun link =>
  ⟨answerOf (link.written.headD (.ok data.length)), [.writeRaw data],
    { link with written := link.written.tail }⟩

/-- `IClock::Sleep`. -/
def sleep (duration : ℕ) : Session Unit := fun link =>
  ⟨answerOf (link.slept.headD (.ok ())), [.sleep duration], { link with slept := link.slept.tail }⟩

/-- `IKlineFlashTransport::ReadRaw`. -/
def readRaw (timeout : ℕ) : Session (Option Bytes) := fun link =>
  match link.reads with
  | [] => ⟨.error .waiting, [], link⟩
  | chunk :: reads => ⟨answerOf chunk, [.readRaw timeout], { link with reads }⟩

/-- `CancelledIfRequested`. -/
def cancelledIfRequested : Session Unit := do
  if ← poll then fail (.failed (.of .cancelled "cancelled while reading Unisia Jecs ROM")) else pure ()

/-- `WriteExact` of a raw request. -/
def writeExact (request : Bytes) : Session Unit := do
  let written ← writeRaw request
  if written = request.length then pure () else fail (.failed (.of .disconnected "short K-Line write"))

/-- `RequestFor`. -/
def requestFor (address : UInt16) : Bytes := [0x78, high address, low address, 0x00]

/-- What follows in the loop of `ReadAddress` when no value has been taken: what is received is added. -/
def readQuantum (address : UInt16) (quanta : ℕ) (state : RawReadState) : Session (ℕ × RawReadState) := do
  when (quanta == 100) (writeExact (requestFor address))
  let chunk ← readRaw 5
  cancelledIfRequested
  pure ((if quanta = 100 then 0 else quanta) + 1, { state with pending := state.pending ++ chunk.getD [] })

/-- The loop of `ReadAddress`; `fuel` bounds the number of reads. -/
def readLoop (address : UInt16) : ℕ → ℕ → RawReadState → Session (Byte × RawReadState)
  | 0, _, _ => fail .waiting
  | fuel + 1, quanta, state => do
    cancelledIfRequested
    match takeAddressedValue state address with
    | (some value, state) => pure (value, state)
    | (none, state) =>
      let (quanta, state) ← readQuantum address quanta state
      readLoop address fuel quanta state

/-- `ReadAddress`.  Each turn of the loop takes a read, so there are at most as many turns as reads and
one more. -/
def readAddress (address : UInt16) (state : RawReadState) : Session (Byte × RawReadState) := do
  cancelledIfRequested
  writeExact (requestFor address)
  sleep 45
  fun link => readLoop address (link.reads.length + 1) 0 state link

/-- The loop of `ReadRange`. -/
def readAddresses : List UInt32 → RawReadState → Bytes → Session Bytes
  | [], _, image => pure image
  | address :: addresses, state, image => do
    let (value, state) ← readAddress address.toUInt16 state
    sleep 1
    readAddresses addresses state (image ++ [value])

/-- The addresses of a range. -/
def addressesOf (begin stop : UInt32) : List UInt32 :=
  (List.range' begin.toNat (stop.toNat - begin.toNat)).map UInt32.ofNat

/-- `SubaruUnisiaJecsExecutor::ReadRange`. -/
def readRange (begin stop : UInt32) : Session Bytes := readAddresses (addressesOf begin stop) {} []

/-! ### Taking a value -/

section Take

variable {address : UInt16} {pending rest : Bytes} {synchronized : Bool} {tuples : ℕ}

theorem takeFrom_of_short (h : pending.length < 3) :
    takeFrom address pending synchronized tuples = (none, ⟨pending, synchronized, tuples⟩) := by
  rcases pending with _ | ⟨b₀, _ | ⟨b₁, _ | ⟨b₂, rest⟩⟩⟩
  · rfl
  · rfl
  · rfl
  · simp only [List.length_cons] at h
    omega

theorem takeFrom_of_match (value : Byte) :
    takeFrom address (high address :: low address :: value :: rest) synchronized tuples =
      (some value, ⟨rest, true, 0⟩) := by
  rw [takeFrom, if_pos ⟨rfl, rfl⟩]

/-- **A value is taken behind its address**, whatever has been received. -/
theorem takeFrom_some {value : Byte} {state' : RawReadState}
    (h : takeFrom address pending synchronized tuples = (some value, state')) :
    ∃ skipped, pending = skipped ++ [high address, low address, value] ++ state'.pending := by
  fun_induction takeFrom address pending synchronized tuples with
  | case1 b₀ b₁ v rest synchronized tuples hmatch =>
    obtain ⟨rfl, rfl⟩ := hmatch
    cases h
    exact ⟨[], rfl⟩
  | case2 b₀ b₁ v rest tuples hne lost tuples' ih =>
    obtain ⟨skipped, hrest⟩ := ih h
    exact ⟨b₀ :: b₁ :: v :: skipped, by rw [hrest]; rfl⟩
  | case3 b₀ b₁ v rest synchronized tuples hne lost tuples' hsync ih =>
    obtain ⟨skipped, hrest⟩ := ih h
    exact ⟨b₀ :: skipped, by rw [hrest]; rfl⟩
  | case4 pending synchronized tuples hshort => cases h

/-- When no value is taken there is less than a tuple left. -/
theorem takeFrom_none {state' : RawReadState}
    (h : takeFrom address pending synchronized tuples = (none, state')) : state'.pending.length < 3 := by
  fun_induction takeFrom address pending synchronized tuples with
  | case1 b₀ b₁ v rest synchronized tuples hmatch => cases h
  | case2 b₀ b₁ v rest tuples hne lost tuples' ih => exact ih h
  | case3 b₀ b₁ v rest synchronized tuples hne lost tuples' hsync ih => exact ih h
  | case4 pending synchronized tuples hshort =>
    cases h
    rcases pending with _ | ⟨b₀, _ | ⟨b₁, _ | ⟨v, rest⟩⟩⟩
    · simp
    · simp
    · simp
    · exact absurd rfl (hshort b₀ b₁ v rest)

end Take

/-! ### A stream of answers -/

theorem eq_of_bytes {address other : UInt16} (hhigh : high other = high address)
    (hlow : low other = low address) : other = address := by
  have hh := congrArg UInt8.toNat hhigh
  have hl := congrArg UInt8.toNat hlow
  simp only [high, low, UInt16.toNat_toUInt8, UInt16.toNat_shiftRight] at hh hl
  have hother := other.toNat_lt
  have haddress := address.toNat_lt
  refine UInt16.toNat_inj.1 ?_
  simp only [Nat.shiftRight_eq_div_pow] at hh
  have height : UInt16.toNat 8 % 16 = 8 := rfl
  rw [height] at hh
  omega

section Stream

variable (rom : Bytes)

/-- The tuple that the ECU sends for an address. -/
def tuple (address : UInt16) : Bytes := [high address, low address, byteAt rom address.toNat]

/-- A stream of correct tuples that answers the addresses in their order, with at most ten stale tuples
of other addresses before each answer. -/
inductive Answers : List UInt16 → Bytes → Prop
  | nil (rest : Bytes) : Answers [] rest
  | cons {address : UInt16} {addresses stale : List UInt16} {later : Bytes}
      (few : stale.length ≤ 10) (others : ∀ a ∈ stale, a ≠ address) (answers : Answers addresses later) :
      Answers (address :: addresses) (stale.flatMap (tuple rom) ++ (tuple rom address ++ later))

/-- A stream that answers the addresses and begins with the first answer. -/
inductive Stream : List UInt16 → Bytes → Prop
  | nil (rest : Bytes) : Stream [] rest
  | cons {address : UInt16} {addresses : List UInt16} {later : Bytes}
      (answers : Answers rom addresses later) :
      Stream (address :: addresses) (tuple rom address ++ later)

/-- What a reader of an address relies on: what is pending and what comes are stale tuples, the answer and
what is later, the stale tuples do not make it lose the alignment, and it is aligned if there are any. -/
def Ahead (address : UInt16) (later : Bytes) (state : RawReadState) (coming : Bytes) : Prop :=
  ∃ stale : List UInt16,
    state.pending ++ coming = stale.flatMap (tuple rom) ++ (tuple rom address ++ later) ∧
    (∀ a ∈ stale, a ≠ address) ∧ state.tuplesSinceSync + stale.length ≤ 10 ∧
    (state.synchronized = true ∨ stale = [])

variable {rom} {address : UInt16} {later coming : Bytes} {state : RawReadState}

/-- What has been received begins with a tuple that the stream begins with, or is shorter than it. -/
theorem pending_cases {pending stream : Bytes} {a : UInt16}
    (h : pending ++ coming = tuple rom a ++ stream) :
    pending.length < 3 ∨ ∃ rest, pending = tuple rom a ++ rest ∧ rest ++ coming = stream := by
  rcases List.append_eq_append_iff.1 h with ⟨missing, htuple, -⟩ | ⟨rest, hpending, hstream⟩
  · rcases missing with _ | ⟨b, missing⟩
    · exact .inr ⟨[], by simpa using htuple.symm, by simpa [htuple] using h⟩
    · refine .inl ?_
      have hlength := congrArg List.length htuple
      simp only [tuple, List.length_append, List.length_cons, List.length_nil] at hlength
      omega
  · exact .inr ⟨rest, hpending, hstream.symm⟩

/-- **One look at what is pending**: the answer is taken and the alignment is kept, or the reader goes on
as it was. -/
theorem Ahead.take (h : Ahead rom address later state coming) :
    (∃ rest, takeAddressedValue state address = (some (byteAt rom address.toNat), ⟨rest, true, 0⟩) ∧
      rest ++ coming = later) ∨
    ∃ state', takeAddressedValue state address = (none, state') ∧
      Ahead rom address later state' coming := by
  obtain ⟨stale, hstream, hothers, hfew, hsync⟩ := h
  obtain ⟨pending, synchronized, tuples⟩ := state
  simp only [takeAddressedValue] at *
  -- the stale tuples are dropped one by one, and none of them makes the counter exceed ten
  induction stale generalizing pending tuples with
  | nil =>
    rcases pending_cases hstream with hshort | ⟨rest, rfl, hrest⟩
    · exact .inr ⟨_, takeFrom_of_short hshort, [], hstream, hothers, hfew, hsync⟩
    · exact .inl ⟨rest, takeFrom_of_match _, hrest⟩
  | cons a stale ih =>
    have hsynchronized : synchronized = true := hsync.resolve_right (by simp)
    subst hsynchronized
    rw [List.flatMap_cons, List.append_assoc] at hstream
    rcases pending_cases hstream with hshort | ⟨rest, rfl, hrest⟩
    · refine .inr ⟨_, takeFrom_of_short hshort, a :: stale, ?_, hothers, hfew, .inl rfl⟩
      rw [List.flatMap_cons, List.append_assoc]
      exact hstream
    · rw [List.length_cons] at hfew
      have hne : ¬(high a = high address ∧ low a = low address) := fun hbytes =>
        hothers a (List.mem_cons_self ..) (eq_of_bytes hbytes.1 hbytes.2)
      have hcount : ¬tuples + 1 > 10 := by omega
      have htake : takeFrom address (tuple rom a ++ rest) true tuples =
          takeFrom address rest true (tuples + 1) := by
        rw [tuple, List.cons_append, List.cons_append, List.cons_append, List.nil_append, takeFrom,
          if_neg hne]
        simp only [hcount, decide_false, Bool.not_false, if_true, Bool.false_eq_true, if_false]
      rw [htake]
      exact ih (fun b hb => hothers b (List.mem_cons_of_mem _ hb)) rest (tuples + 1) hrest (by omega)
        (.inl rfl)

end Stream

/-! ### Reading over a quiet link -/

/-- What the reads of a link give together, however the stream is cut. -/
def received : List (Except LinkError (Option Bytes)) → Bytes
  | [] => []
  | .ok (some chunk) :: reads => chunk ++ received reads
  | _ :: reads => received reads

/-- Nothing is cancelled and nothing fails. -/
structure Quiet (link : Link) : Prop where
  uncancelled : ∀ c ∈ link.cancelled, c = false
  taken : ∀ written ∈ link.written, written = .ok 4
  awake : ∀ slept ∈ link.slept, slept = .ok ()
  arrives : ∀ chunk ∈ link.reads, ∃ bytes, chunk = .ok bytes

/-- Over a quiet link the computation gives the value and leaves the reads as they were. -/
def Steady {α : Type} (m : Session α) (a : α) : Prop :=
  ∀ link, Quiet link → ∃ link', Returns m link a link' ∧ Quiet link' ∧ link'.reads = link.reads

section Session

variable {α β : Type} {rom : Bytes} {address : UInt16} {later : Bytes} {state : RawReadState} {link : Link}

theorem Steady.pure (a : α) : Steady (pure a) a := fun link h => ⟨link, .pure a link, h, rfl⟩

theorem Steady.bind {m : Session α} {f : α → Session β} {a : α} {b : β} (hm : Steady m a)
    (hf : Steady (f a) b) : Steady (m >>= f) b := by
  intro link hquiet
  obtain ⟨link', hreturns, hquiet', hreads⟩ := hm link hquiet
  obtain ⟨link'', hreturns', hquiet'', hreads'⟩ := hf link' hquiet'
  exact ⟨link'', hreturns.bind hreturns', hquiet'', hreads'.trans hreads⟩

theorem headD_of_all {l : List α} {a b : α} (h : ∀ c ∈ l, c = a) (hb : b = a) : l.headD b = a := by
  cases l with
  | nil => exact hb
  | cons c l => exact h c (List.mem_cons_self ..)

theorem poll_steady : Steady poll false := by
  intro link h
  refine ⟨_, ⟨congrArg Except.ok (headD_of_all h.uncancelled rfl), rfl⟩, ?_, rfl⟩
  exact ⟨fun c hc => h.uncancelled c (List.mem_of_mem_tail hc), h.taken, h.awake, h.arrives⟩

theorem cancelledIfRequested_steady : Steady cancelledIfRequested () := poll_steady.bind (.pure ())

theorem writeExact_steady (address : UInt16) : Steady (writeExact (requestFor address)) () := by
  refine .bind (a := 4) ?_ (.pure ())
  intro link h
  refine ⟨_, ⟨congrArg answerOf (headD_of_all h.taken rfl), rfl⟩, ?_, rfl⟩
  exact ⟨h.uncancelled, fun w hw => h.taken w (List.mem_of_mem_tail hw), h.awake, h.arrives⟩

theorem sleep_steady (duration : ℕ) : Steady (sleep duration) () := by
  intro link h
  refine ⟨_, ⟨congrArg answerOf (headD_of_all h.awake rfl), rfl⟩, ?_, rfl⟩
  exact ⟨h.uncancelled, h.taken, fun s hs => h.awake s (List.mem_of_mem_tail hs), h.arrives⟩

/-- A turn without a value takes the next read. -/
theorem readQuantum_returns (address : UInt16) {chunk : Except LinkError (Option Bytes)}
    {reads : List (Except LinkError (Option Bytes))} (hquiet : Quiet link)
    (hreads : link.reads = chunk :: reads)
    (quanta : ℕ) (state : RawReadState) : ∃ bytes quanta' link',
      Returns (readQuantum address quanta state) link
        (quanta', { state with pending := state.pending ++ bytes }) link' ∧
      Quiet link' ∧ link'.reads = reads ∧ received (chunk :: reads) = bytes ++ received reads := by
  have hresend : Steady (when (quanta == 100) (writeExact (requestFor address))) () := by
    rw [when]
    split
    · exact writeExact_steady address
    · exact .pure ()
  obtain ⟨link₁, hreturns₁, hquiet₁, hreads₁⟩ := hresend link hquiet
  rw [hreads] at hreads₁
  obtain ⟨bytes, rfl⟩ := hquiet₁.arrives chunk (by rw [hreads₁]; exact List.mem_cons_self ..)
  have hread : Returns (readRaw 5) link₁ bytes { link₁ with reads } := by
    simp only [Returns, readRaw, hreads₁, answerOf, Except.mapError, and_self]
  have hquiet₂ : Quiet { link₁ with reads } :=
    ⟨hquiet₁.uncancelled, hquiet₁.taken, hquiet₁.awake,
      fun c hc => hquiet₁.arrives c (by rw [hreads₁]; exact List.mem_cons_of_mem _ hc)⟩
  obtain ⟨link₃, hreturns₃, hquiet₃, hreads₃⟩ := cancelledIfRequested_steady _ hquiet₂
  have hreturns : Returns (readQuantum address quanta state) link
      ((if quanta = 100 then 0 else quanta) + 1,
        { state with pending := state.pending ++ bytes.getD [] }) link₃ :=
    hreturns₁.bind (hread.bind (hreturns₃.bind (.pure _ _)))
  refine ⟨bytes.getD [], _, link₃, hreturns, hquiet₃, hreads₃, ?_⟩
  cases bytes <;> rfl

theorem readLoop_of_some {value : Byte} {state' : RawReadState}
    (htake : takeAddressedValue state address = (some value, state')) (fuel quanta : ℕ) :
    Steady (readLoop address (fuel + 1) quanta state) (value, state') := by
  rw [readLoop, htake]
  exact cancelledIfRequested_steady.bind (.pure _)

theorem readLoop_of_none {state' : RawReadState} {chunk : Except LinkError (Option Bytes)}
    {reads : List (Except LinkError (Option Bytes))}
    (htake : takeAddressedValue state address = (none, state')) (hquiet : Quiet link)
    (hreads : link.reads = chunk :: reads) (fuel quanta : ℕ) :
    ∃ bytes quanta' link₁, Quiet link₁ ∧ link₁.reads = reads ∧
      received (chunk :: reads) = bytes ++ received reads ∧ ∀ result link',
        Returns (readLoop address fuel quanta' { state' with pending := state'.pending ++ bytes }) link₁
          result link' →
        Returns (readLoop address (fuel + 1) quanta state) link result link' := by
  obtain ⟨link₀, hreturns₀, hquiet₀, hreads₀⟩ := cancelledIfRequested_steady link hquiet
  obtain ⟨bytes, quanta', link₁, hreturns₁, hquiet₁, hreads₁, hreceived⟩ :=
    readQuantum_returns address hquiet₀ (hreads₀.trans hreads) quanta state'
  refine ⟨bytes, quanta', link₁, hquiet₁, hreads₁, hreceived, fun result link' hreturns => ?_⟩
  rw [readLoop, htake]
  exact hreturns₀.bind (hreturns₁.bind hreturns)

/-- What has been received belongs to what is pending. -/
theorem Ahead.append {coming bytes : Bytes} (h : Ahead rom address later state (bytes ++ coming)) :
    Ahead rom address later { state with pending := state.pending ++ bytes } coming := by
  obtain ⟨stale, hstream, hrest⟩ := h
  exact ⟨stale, by rw [List.append_assoc, hstream], hrest⟩

/-- While the answer has not been taken there is something to come. -/
theorem Ahead.coming_ne_nil {coming : Bytes} {state' : RawReadState}
    (h : Ahead rom address later state' coming)
    (htake : takeAddressedValue state address = (none, state')) : coming ≠ [] := by
  obtain ⟨stale, hstream, -⟩ := h
  have hshort := takeFrom_none htake
  rintro rfl
  have hlength := congrArg List.length hstream
  simp only [tuple, List.length_append, List.length_cons, List.length_nil] at hlength
  omega

/-- **The loop of `ReadAddress`** gives the byte of the ROM, and the stream goes on with what is later. -/
theorem readLoop_returns {reads : List (Except LinkError (Option Bytes))} {fuel : ℕ} (quanta : ℕ)
    (hahead : Ahead rom address later state (received reads)) (hquiet : Quiet link)
    (hreads : link.reads = reads) (hfuel : reads.length < fuel) : ∃ rest link',
      Returns (readLoop address fuel quanta state) link (byteAt rom address.toNat, ⟨rest, true, 0⟩) link' ∧
      Quiet link' ∧ rest ++ received link'.reads = later := by
  -- the induction is on the reads, since each turn without a value takes one
  induction reads generalizing fuel quanta state link with
  | nil =>
    obtain ⟨fuel, rfl⟩ : ∃ n, fuel = n + 1 := ⟨fuel - 1, by rw [List.length_nil] at hfuel; omega⟩
    rcases hahead.take with ⟨rest, htake, hrest⟩ | ⟨state', htake, hahead'⟩
    · obtain ⟨link', hreturns, hquiet', hreads'⟩ := readLoop_of_some htake fuel quanta link hquiet
      exact ⟨rest, link', hreturns, hquiet', by rw [hreads', hreads, hrest]⟩
    · exact absurd rfl (hahead'.coming_ne_nil htake)
  | cons chunk reads ih =>
    obtain ⟨fuel, rfl⟩ : ∃ n, fuel = n + 1 := ⟨fuel - 1, by rw [List.length_cons] at hfuel; omega⟩
    rcases hahead.take with ⟨rest, htake, hrest⟩ | ⟨state', htake, hahead'⟩
    · obtain ⟨link', hreturns, hquiet', hreads'⟩ := readLoop_of_some htake fuel quanta link hquiet
      exact ⟨rest, link', hreturns, hquiet', by rw [hreads', hreads, hrest]⟩
    · obtain ⟨bytes, quanta', link₁, hquiet₁, hreads₁, hreceived, hnext⟩ :=
        readLoop_of_none htake hquiet hreads fuel quanta
      rw [hreceived] at hahead'
      rw [List.length_cons] at hfuel
      obtain ⟨rest, link', hreturns, hlater⟩ :=
        ih quanta' hahead'.append hquiet₁ hreads₁ (Nat.lt_of_succ_lt_succ hfuel)
      exact ⟨rest, link', hnext _ _ hreturns, hlater⟩

theorem readAddress_returns (hahead : Ahead rom address later state (received link.reads))
    (hquiet : Quiet link) : ∃ rest link',
      Returns (readAddress address state) link (byteAt rom address.toNat, ⟨rest, true, 0⟩) link' ∧
      Quiet link' ∧ rest ++ received link'.reads = later := by
  obtain ⟨link₁, hreturns₁, hquiet₁, hreads₁⟩ := cancelledIfRequested_steady link hquiet
  obtain ⟨link₂, hreturns₂, hquiet₂, hreads₂⟩ := writeExact_steady address link₁ hquiet₁
  obtain ⟨link₃, hreturns₃, hquiet₃, hreads₃⟩ := sleep_steady 45 link₂ hquiet₂
  have hreads : link₃.reads = link.reads := hreads₃.trans (hreads₂.trans hreads₁)
  obtain ⟨rest, link', hreturns, hquiet', hlater⟩ :=
    readLoop_returns 0 hahead hquiet₃ hreads (Nat.lt_succ_self _)
  refine ⟨rest, link', hreturns₁.bind (hreturns₂.bind (hreturns₃.bind ?_)), hquiet', hlater⟩
  rw [← hreads] at hreturns
  exact hreturns

/-- Later answers: the reader is aligned before each of them. -/
theorem readAddresses_returns {addresses : List UInt32} (image : Bytes) {pending : Bytes}
    (hanswers : Answers rom (addresses.map UInt32.toUInt16) (pending ++ received link.reads))
    (hquiet : Quiet link) : ∃ link',
      Returns (readAddresses addresses ⟨pending, true, 0⟩ image) link
        (image ++ addresses.map fun a => byteAt rom a.toUInt16.toNat) link' := by
  induction addresses generalizing image pending link with
  | nil =>
    rw [List.map_nil, List.append_nil]
    exact ⟨link, .pure image link⟩
  | cons address addresses ih =>
    generalize hstream : pending ++ received link.reads = stream at hanswers
    rw [List.map_cons] at hanswers
    cases hanswers with
    | @cons _ _ stale later few others answers =>
      have hahead : Ahead rom address.toUInt16 later ⟨pending, true, 0⟩ (received link.reads) :=
        ⟨stale, hstream, others, by simpa only [Nat.zero_add] using few, .inl rfl⟩
      obtain ⟨rest, link₁, hreturns₁, hquiet₁, hlater⟩ := readAddress_returns hahead hquiet
      obtain ⟨link₂, hreturns₂, hquiet₂, hreads₂⟩ := sleep_steady 1 link₁ hquiet₁
      have hanswers : Answers rom (addresses.map UInt32.toUInt16) (rest ++ received link₂.reads) := by
        rw [hreads₂, hlater]
        exact answers
      obtain ⟨link', hreturns⟩ := ih (image ++ [byteAt rom address.toUInt16.toNat]) hanswers hquiet₂
      refine ⟨link', hreturns₁.bind (hreturns₂.bind ?_)⟩
      rw [List.append_assoc] at hreturns
      exact hreturns

/-- The first answer needs no alignment: nothing is before it. -/
theorem readAddresses_first {addresses : List UInt32}
    (hstream : Stream rom (addresses.map UInt32.toUInt16) (received link.reads)) (hquiet : Quiet link) :
    ∃ link', Returns (readAddresses addresses {} []) link
      (addresses.map fun a => byteAt rom a.toUInt16.toNat) link' := by
  cases addresses with
  | nil => exact ⟨link, .pure [] link⟩
  | cons address addresses =>
    generalize hreceived : received link.reads = stream at hstream
    rw [List.map_cons] at hstream
    cases hstream with
    | @cons _ _ later answers =>
      have hahead : Ahead rom address.toUInt16 later {} (received link.reads) :=
        ⟨[], hreceived, fun _ h => absurd h List.not_mem_nil, Nat.zero_le _, .inr rfl⟩
      obtain ⟨rest, link₁, hreturns₁, hquiet₁, hlater⟩ := readAddress_returns hahead hquiet
      obtain ⟨link₂, hreturns₂, hquiet₂, hreads₂⟩ := sleep_steady 1 link₁ hquiet₁
      have hanswers : Answers rom (addresses.map UInt32.toUInt16) (rest ++ received link₂.reads) := by
        rw [hreads₂, hlater]
        exact answers
      obtain ⟨link', hreturns⟩ :=
        readAddresses_returns [byteAt rom address.toUInt16.toNat] hanswers hquiet₂
      exact ⟨link', hreturns₁.bind (hreturns₂.bind hreturns)⟩

/-- The bytes of the addresses of a range are the range of the ROM. -/
theorem map_addressesOf {begin stop : UInt32} (hsize : rom.length = 0x10000) (hle : begin ≤ stop)
    (hstop : stop ≤ 0x10000) :
    ((addressesOf begin stop).map fun a => byteAt rom a.toUInt16.toNat) =
      subspan rom begin.toNat (stop.toNat - begin.toNat) := by
  have hle' : begin.toNat ≤ stop.toNat := hle
  have hstop' : stop.toNat ≤ 0x10000 := hstop
  rw [subspan_eq_map (by omega), addressesOf, List.map_map, List.range'_eq_map_range, List.map_map]
  refine List.map_congr_left fun k hk => ?_
  rw [List.mem_range] at hk
  have hsame : (UInt32.ofNat (begin.toNat + k)).toUInt16.toNat = begin.toNat + k := by
    rw [UInt32.toNat_toUInt16, UInt32.toNat_ofNat']
    omega
  rw [Function.comp_apply, Function.comp_apply, hsame]

end Session

/-- **The ROM that is read**: from a stream of correct tuples that begins with the answer to the first
address and has at most ten stale tuples before each later answer, the bytes of the range are read, wherever
the stream is cut; and whatever is pending, a value is only taken behind its address. -/
theorem readRange_spec :
    (∀ (rom : Bytes) (begin stop : UInt32) (link : Link), rom.length = 0x10000 → begin ≤ stop →
      stop ≤ 0x10000 → Quiet link →
      Stream rom ((addressesOf begin stop).map UInt32.toUInt16) (received link.reads) →
      (readRange begin stop link).result = .ok (subspan rom begin.toNat (stop.toNat - begin.toNat))) ∧
    ∀ (state state' : RawReadState) (address : UInt16) (value : Byte),
      takeAddressedValue state address = (some value, state') →
      ∃ skipped, state.pending = skipped ++ [high address, low address, value] ++ state'.pending := by
  refine ⟨?_, fun state state' address value h => takeFrom_some h⟩
  intro rom begin stop link hsize hle hstop hquiet hstream
  obtain ⟨link', hresult, -⟩ := readAddresses_first hstream hquiet
  rw [map_addressesOf hsize hle hstop] at hresult
  exact hresult

/-- Two addresses of a ROM of sevens, in three reads, with a stale tuple before the second answer. -/
theorem readRange_spec_two :
    (readRange 0 2 { reads := [.ok (some [0x00]), .ok none,
      .ok (some [0x00, 0x07, 0x00, 0x00, 0x07, 0x00, 0x01, 0x07])] }).result = .ok [0x07, 0x07] := by
  refine readRange_spec.1 (List.replicate 0x10000 0x07) 0 2 _ List.length_replicate (by decide) (by decide)
    ⟨by simp, by simp, by simp, by simp⟩ ?_
  have hsecond : Answers (List.replicate 0x10000 0x07) [1] [0x00, 0x00, 0x07, 0x00, 0x01, 0x07] :=
    @Answers.cons _ 1 [] [0] [] (by decide) (List.forall_mem_singleton.2 (by decide)) (.nil [])
  exact .cons hsecond

end FastEcu.Flash.UnisiaJecs
