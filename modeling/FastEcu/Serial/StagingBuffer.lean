import FastEcu.Bytes.Words
import Mathlib.Data.List.DropRight

/-!
# The bytes of the staging buffer

`SerialByteBuffer` of `src/platform/desktop/unix/j2534/serial_byte_buffer.cpp` with its consumed prefix and its clock:
what the port and the clock answer is given, and a `Take` waits when there is no answer yet.

* `SerialByteBuffer` : the buffer and the offset, which is within it.
* `Session.call` : `Take` and `Clear`, with what they leave as events.
* `Session.Conserves` : what has been polled is what has been taken and what is left.
* `serialByteBuffer_spec` : no byte is lost, and a read is short only after a silence.
-/

namespace FastEcu.Serial.Staging

/-- `SerialByteBuffer`. -/
structure SerialByteBuffer where
  buffer : Bytes
  /-- The length of the prefix that has been consumed. -/
  offset : ℕ
  within : offset ≤ buffer.length

/-- A poll, and the reading of the clock that follows it. -/
structure Turn where
  chunk : Bytes
  now : UInt64
deriving DecidableEq

/-- What the port and the clock are going to answer. -/
structure Port where
  polls : List Bytes
  readings : List UInt64

namespace SerialByteBuffer

/-- A new buffer, which is also what `Clear` leaves. -/
def empty : SerialByteBuffer := ⟨[], 0, Nat.le_refl 0⟩

/-- `Buffered`. -/
def buffered (s : SerialByteBuffer) : ℕ := s.buffer.length - s.offset

/-- What is retained and not consumed. -/
def contents (s : SerialByteBuffer) : Bytes := s.buffer.drop s.offset

/-- The refill with a chunk: the consumed prefix is removed. -/
def append (s : SerialByteBuffer) (chunk : Bytes) : SerialByteBuffer :=
  ⟨(if s.offset > 0 then s.buffer.drop s.offset else s.buffer) ++ chunk, 0, Nat.zero_le _⟩

/-- The end of `Take`: the bytes that are returned, and what is left. -/
def consume (s : SerialByteBuffer) (n : ℕ) : Bytes × SerialByteBuffer :=
  let wanted := min n (s.buffer.length - s.offset)
  let out := (s.buffer.drop s.offset).take wanted
  if s.offset + wanted = s.buffer.length then (out, empty)
  else (out, ⟨s.buffer, s.offset + wanted, by have := s.within; omega⟩)

end SerialByteBuffer

/-- What the loop of `Take` leaves: it has enough or has given up (`ready`), or it waits for an answer. -/
structure Refill where
  buffer : SerialByteBuffer
  turns : List Turn
  port : Port
  ready : Bool

/-- A turn before the others. -/
def Refill.after (turn : Turn) (r : Refill) : Refill := { r with turns := turn :: r.turns }

/-- The loop of `Take`. -/
def refill (n : ℕ) (timeout : UInt64) (deadline : UInt64) (s : SerialByteBuffer) :
    List Bytes → List UInt64 → Refill
  | chunk :: polls, now :: readings =>
    if n ≤ s.buffered then ⟨s, [], ⟨chunk :: polls, now :: readings⟩, true⟩
    else if chunk ≠ [] then
      (refill n timeout (now + timeout) (s.append chunk) polls readings).after ⟨chunk, now⟩
    else if deadline ≤ now then ⟨s, [⟨chunk, now⟩], ⟨polls, readings⟩, true⟩
    else (refill n timeout deadline s polls readings).after ⟨chunk, now⟩
  | polls, readings => ⟨s, [], ⟨polls, readings⟩, decide (n ≤ s.buffered)⟩

/-- A call. -/
inductive Call
  | take (n : UInt32) (timeout : UInt16)
  | clear

/-- What a call leaves. -/
inductive Event
  /-- A `Take`, with the first reading of the clock, its turns and what it has returned, if it has. -/
  | take (n : UInt32) (timeout : UInt16) (start : UInt64) (turns : List Turn) (out : Option Bytes)
  | cleared
deriving DecidableEq

/-- A buffer in use; `waiting` is a `Take` that has not returned. -/
structure Session where
  buffer : SerialByteBuffer
  port : Port
  events : List Event
  waiting : Bool

namespace Session

/-- `Take`. -/
def take (s : Session) (n : UInt32) (timeout : UInt16) : Session :=
  match s.port.readings with
  | [] => { s with waiting := true }
  | start :: readings =>
    let r := refill n.toNat timeout.toUInt64 (start + timeout.toUInt64) s.buffer s.port.polls readings
    if r.ready then
      let (out, buffer) := r.buffer.consume n.toNat
      ⟨buffer, r.port, s.events ++ [.take n timeout start r.turns (some out)], false⟩
    else ⟨r.buffer, r.port, s.events ++ [.take n timeout start r.turns none], true⟩

/-- A call; none is made while another one has not returned. -/
def call (s : Session) (c : Call) : Session :=
  if s.waiting then s
  else
    match c with
    | .take n timeout => s.take n timeout
    | .clear => { s with buffer := .empty, events := s.events ++ [.cleared] }

/-- The calls, one after another, of a new buffer. -/
def run (port : Port) (calls : List Call) : Session := calls.foldl call ⟨.empty, port, [], false⟩

end Session

/-! ### What is conserved -/

/-- The chunks that a call has polled. -/
def Event.chunks : Event → List Bytes
  | .take _ _ _ turns _ => turns.map Turn.chunk
  | .cleared => []

/-- What a call has returned. -/
def Event.taken : Event → Bytes
  | .take _ _ _ _ out => out.getD []
  | .cleared => []

/-- The events since the last `Clear`. -/
def sinceClear (events : List Event) : List Event := events.rtakeWhile fun e => decide (e ≠ .cleared)

/-- The time of the last arrival, or of the start. -/
def arrivalTime (start : UInt64) (turns : List Turn) : UInt64 :=
  turns.foldl (fun time turn => if turn.chunk ≠ [] then turn.now else time) start

/-- Nothing has arrived for as long as the timeout, when the clock was read last. -/
def Silence (timeout : UInt16) (start : UInt64) (turns : List Turn) : Prop :=
  ∃ last, turns.getLast? = some last ∧ last.chunk = [] ∧
    (arrivalTime start turns).toNat + timeout.toNat ≤ last.now.toNat

namespace SerialByteBuffer

variable (s : SerialByteBuffer)

@[simp]
theorem length_contents : s.contents.length = s.buffered := by
  rw [contents, List.length_drop, buffered]

@[simp]
theorem contents_empty : empty.contents = [] := rfl

/-- The consumed prefix is not part of the contents, whether it has been removed or not. -/
theorem contents_append (chunk : Bytes) : (s.append chunk).contents = s.contents ++ chunk := by
  unfold append contents
  dsimp only
  split_ifs with hoffset
  · rw [List.drop_zero]
  · rw [List.drop_zero, Nat.eq_zero_of_not_pos hoffset, List.drop_zero]

/-- What is returned was at the front of the contents, and the rest is kept. -/
theorem consume_spec (n : ℕ) : (s.consume n).1 ++ (s.consume n).2.contents = s.contents ∧
    (s.consume n).1.length = min n s.buffered := by
  have hwithin := s.within
  unfold consume contents buffered
  dsimp only
  split_ifs with hdrained
  · -- all of the buffer is returned, so nothing is lost with it
    refine ⟨?_, ?_⟩
    · rw [List.take_of_length_le (by rw [List.length_drop]; omega)]
      exact List.append_nil _
    · rw [List.length_take, List.length_drop]
      omega
  · refine ⟨?_, ?_⟩
    · rw [← List.drop_drop, List.take_append_drop]
    · rw [List.length_take, List.length_drop]
      omega

end SerialByteBuffer

theorem getLast?_cons_of {turn last : Turn} {turns : List Turn} (h : turns.getLast? = some last) :
    (turn :: turns).getLast? = some last := by
  rw [List.getLast?_cons, h]
  rfl

section Loop

variable {n : ℕ} {timeout deadline : UInt64} {s : SerialByteBuffer} {polls : List Bytes} {readings : List UInt64}

/-- The loop appends what it polls. -/
theorem refill_contents : (refill n timeout deadline s polls readings).buffer.contents =
    s.contents ++ (refill n timeout deadline s polls readings).turns.flatMap Turn.chunk := by
  induction polls generalizing deadline s readings with
  | nil => simp [refill]
  | cons chunk polls ih =>
    cases readings with
    | nil => simp [refill]
    | cons now readings =>
      unfold refill
      split_ifs with henough hchunk hdeadline
      · exact (List.append_nil _).symm
      · refine ih.trans ?_
        rw [SerialByteBuffer.contents_append, List.append_assoc]
        rfl
      · rw [not_not.1 hchunk]
        exact (List.append_nil _).symm
      · refine ih.trans ?_
        rw [not_not.1 hchunk]
        rfl

/-- The chunks are those of the port, in order. -/
theorem refill_polls : (refill n timeout deadline s polls readings).turns.map Turn.chunk ++
    (refill n timeout deadline s polls readings).port.polls = polls := by
  induction polls generalizing deadline s readings with
  | nil => simp [refill]
  | cons chunk polls ih =>
    cases readings with
    | nil => simp [refill]
    | cons now readings =>
      unfold refill
      split_ifs with henough hchunk hdeadline
      · rfl
      · exact congrArg (chunk :: ·) ih
      · rfl
      · exact congrArg (chunk :: ·) ih

/-- The loop ends when there is enough, or at the deadline of the last arrival. -/
theorem refill_ready {time : UInt64} (hdeadline : deadline = time + timeout)
    (hready : (refill n timeout deadline s polls readings).ready) :
    n ≤ (refill n timeout deadline s polls readings).buffer.buffered ∨
      ∃ last, (refill n timeout deadline s polls readings).turns.getLast? = some last ∧ last.chunk = [] ∧
        arrivalTime time (refill n timeout deadline s polls readings).turns + timeout ≤ last.now := by
  induction polls generalizing deadline s readings time with
  | nil => exact .inl (of_decide_eq_true hready)
  | cons chunk polls ih =>
    cases readings with
    | nil => exact .inl (of_decide_eq_true hready)
    | cons now readings =>
      unfold refill at hready ⊢
      split_ifs at hready ⊢ with henough hchunk hpassed
      · exact .inl henough
      · -- an arrival: the deadline is put off
        refine (ih rfl hready).imp_right ?_
        rintro ⟨last, hlast, hempty, hle⟩
        refine ⟨last, ?_, hempty, ?_⟩
        · exact getLast?_cons_of hlast
        · rw [Refill.after, arrivalTime, List.foldl_cons, if_pos hchunk]
          exact hle
      · refine .inr ⟨⟨chunk, now⟩, rfl, not_not.1 hchunk, ?_⟩
        rw [arrivalTime, List.foldl_cons, if_neg hchunk, List.foldl_nil, ← hdeadline]
        exact hpassed
      · refine (ih hdeadline hready).imp_right ?_
        rintro ⟨last, hlast, hempty, hle⟩
        refine ⟨last, ?_, hempty, ?_⟩
        · exact getLast?_cons_of hlast
        · rw [Refill.after, arrivalTime, List.foldl_cons, if_neg hchunk]
          exact hle

end Loop

/-! ### Runs -/

/-- What a call has to be. -/
def Event.Obeys : Event → Prop
  | .take n timeout start turns (some out) => out.length ≤ n.toNat ∧
      (out.length < n.toNat → (arrivalTime start turns).toNat + timeout.toNat < 0x10000000000000000 →
        Silence timeout start turns)
  | _ => True

/-- **Nothing is lost or duplicated**: what has been polled since the last `Clear` is what has been taken and what is
left, and the chunks are those of the port. -/
structure Session.Conserves (port : Port) (s : Session) : Prop where
  bytes : (sinceClear s.events).flatMap Event.taken ++ s.buffer.contents =
    ((sinceClear s.events).flatMap Event.chunks).flatten
  chunks : s.events.flatMap Event.chunks ++ s.port.polls = port.polls
  obeys : ∀ e ∈ s.events, e.Obeys

namespace Session

variable {port : Port} {s : Session}

theorem sinceClear_cleared (events : List Event) : sinceClear (events ++ [.cleared]) = [] :=
  List.rtakeWhile_concat_neg _ _ _ (by simp)

theorem sinceClear_append {events : List Event} {e : Event} (h : e ≠ .cleared) :
    sinceClear (events ++ [e]) = sinceClear events ++ [e] :=
  List.rtakeWhile_concat_pos _ _ _ (by simpa using h)

/-- A call that has polled chunks and returned bytes conserves what there was. -/
theorem Conserves.take (h : s.Conserves port) {e : Event} {buffer : SerialByteBuffer} {port' : Port} {waiting : Bool}
    (hne : e ≠ .cleared) (hbytes : e.taken ++ buffer.contents = s.buffer.contents ++ e.chunks.flatten)
    (hchunks : e.chunks ++ port'.polls = s.port.polls) (hobeys : e.Obeys) :
    Conserves port ⟨buffer, port', s.events ++ [e], waiting⟩ := by
  refine ⟨?_, ?_, ?_⟩
  · dsimp only
    rw [sinceClear_append hne, List.flatMap_append, List.flatMap_append, List.flatten_append, ← h.bytes,
      List.flatMap_singleton, List.flatMap_singleton, List.append_assoc, hbytes, List.append_assoc]
  · dsimp only
    rw [List.flatMap_append, List.flatMap_singleton, List.append_assoc, hchunks, h.chunks]
  · intro e' he'
    rcases List.mem_append.1 he' with he' | he'
    · exact h.obeys e' he'
    · rw [List.mem_singleton.1 he']
      exact hobeys

/-- **A call conserves the bytes.** -/
theorem Conserves.call (h : s.Conserves port) (c : Call) : (s.call c).Conserves port := by
  unfold Session.call
  split_ifs with hwaiting
  · exact h
  · cases c with
    | clear =>
      refine ⟨?_, ?_, ?_⟩
      · dsimp only
        rw [sinceClear_cleared]
        rfl
      · dsimp only
        rw [List.flatMap_append]
        exact (congrArg (· ++ s.port.polls) (List.append_nil _)).trans h.chunks
      · intro e he
        rcases List.mem_append.1 he with he | he
        · exact h.obeys e he
        · rw [List.mem_singleton.1 he]
          trivial
    | take n timeout =>
      unfold Session.take
      cases hreadings : s.port.readings with
      | nil => exact ⟨h.bytes, h.chunks, h.obeys⟩
      | cons start readings =>
        have hcontents := @refill_contents n.toNat timeout.toUInt64 (start + timeout.toUInt64) s.buffer
          s.port.polls readings
        have hpolls := @refill_polls n.toNat timeout.toUInt64 (start + timeout.toUInt64) s.buffer s.port.polls readings
        have hready := @refill_ready n.toNat timeout.toUInt64 (start + timeout.toUInt64) s.buffer s.port.polls readings
          start rfl
        dsimp only
        generalize refill n.toNat timeout.toUInt64 (start + timeout.toUInt64) s.buffer s.port.polls readings = r at *
        rw [List.flatMap_def] at hcontents
        split_ifs with hr
        · obtain ⟨hconsume, hlength⟩ := r.buffer.consume_spec n.toNat
          refine h.take (by intro he; cases he) (hconsume.trans hcontents) hpolls ⟨by omega, fun hshort hwraps => ?_⟩
          rcases hready hr with henough | ⟨last, hlast, hempty, hle⟩
          · omega
          · refine ⟨last, hlast, hempty, ?_⟩
            have hsum : (arrivalTime start r.turns + timeout.toUInt64).toNat =
                (arrivalTime start r.turns).toNat + timeout.toNat := by
              rw [UInt64.toNat_add, UInt16.toNat_toUInt64]
              exact Nat.mod_eq_of_lt hwraps
            rw [← hsum]
            exact UInt64.le_iff_toNat_le.1 hle
        · exact h.take (by intro he; cases he) hcontents hpolls trivial

/-- **Every run conserves the bytes.** -/
theorem conserves_run (port : Port) (calls : List Call) : (run port calls).Conserves port := by
  have hnew : Conserves port ⟨.empty, port, [], false⟩ := ⟨rfl, rfl, fun e he => by cases he⟩
  unfold run
  generalize (⟨.empty, port, [], false⟩ : Session) = s at hnew
  induction calls generalizing s with
  | nil => exact hnew
  | cons c calls ih => exact ih _ (hnew.call c)

end Session

/-- **The bytes of the staging buffer.** In every run of `Take` and `Clear`, the bytes that have been taken since the
last `Clear` and those that are buffered are the chunks that have been polled since then, which are the chunks of the
port in order; a `Take` returns at most `n` bytes, and fewer only after a silence, unless its deadline is past the last
time that the clock can show. -/
theorem serialByteBuffer_spec (port : Port) (calls : List Call) :
    ((sinceClear (Session.run port calls).events).flatMap Event.taken ++ (Session.run port calls).buffer.contents =
      ((sinceClear (Session.run port calls).events).flatMap Event.chunks).flatten) ∧
    ((Session.run port calls).events.flatMap Event.chunks ++ (Session.run port calls).port.polls = port.polls) ∧
    ((Session.run port calls).buffer.buffered + ((sinceClear (Session.run port calls).events).flatMap Event.taken).length =
      ((sinceClear (Session.run port calls).events).flatMap Event.chunks).flatten.length) ∧
    ∀ n timeout start turns out, .take n timeout start turns (some out) ∈ (Session.run port calls).events →
      out.length ≤ n.toNat ∧ (out.length < n.toNat →
        (arrivalTime start turns).toNat + timeout.toNat < 0x10000000000000000 → Silence timeout start turns) := by
  have hconserves := Session.conserves_run port calls
  refine ⟨hconserves.bytes, hconserves.chunks, ?_, fun n timeout start turns out hmem => hconserves.obeys _ hmem⟩
  rw [← hconserves.bytes, List.length_append, SerialByteBuffer.length_contents, Nat.add_comm]

/-- At the last time that the clock can show, a `Take` gives up at once. -/
theorem take_gives_up_early : ¬ ∀ port calls n timeout start turns out,
    Event.take n timeout start turns (some out) ∈ (Session.run port calls).events →
      out.length < n.toNat → Silence timeout start turns := by
  intro h
  have hshort := h ⟨[[]], [0xFFFFFFFFFFFFFFFF, 0xFFFFFFFFFFFFFFFF]⟩ [.take 1 200] 1 200 0xFFFFFFFFFFFFFFFF
    [⟨[], 0xFFFFFFFFFFFFFFFF⟩] [] (by decide) (by decide)
  obtain ⟨last, hlast, -, hle⟩ := hshort
  rw [← Option.some.inj hlast] at hle
  revert hle
  decide

end FastEcu.Serial.Staging
