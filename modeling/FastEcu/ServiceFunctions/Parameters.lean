import Mathlib.Logic.Function.Basic
import FastEcu.ServiceFunctions.Relearn

/-!
# The parameters of a TCU

`set_parameters_session.cpp` writes the parameters byte by byte and `read_parameters_session.cpp` reads them again,
on another line and with another framing.  Here both meet a TCU with a memory.  The line may lose a frame, its
answer, or both, and the TCU may refuse what it is asked.

* `requestOf` : what the TCU takes a frame for, on the K-line or on CAN.
* `Serves` : the calls of a session as a TCU may answer them, with its memory before and after.
* `setParameters_memory` : the memory after `SetParametersSession`, complete or not.
* `parameters_read_back` : what `ReadParametersSession` gives afterwards.
-/

namespace FastEcu.ServiceFunctions

open Calibration (ErrorKind Error)
open Data Computation

/-! ### The TCU -/

/-- The bytes at the addresses. -/
abbrev Memory := UInt32 → Byte

/-- What a tester asks of a TCU. -/
inductive Request
  | write (address : UInt32) (value : Byte)
  | read (addresses : List UInt32)
deriving DecidableEq

/-- The 24-bit addresses of a request. -/
def addressesOf : Bytes → List UInt32
  | b₀ :: b₁ :: b₂ :: rest => wordBe24 b₀ b₁ b₂ :: addressesOf rest
  | _ => []

/-- The request in a frame: a write comes on the K-line, with a header and a sum, and a read on CAN. -/
def requestOf (frame : Bytes) : Option Request :=
  if frame.take 5 = [0x80, 0x18, 0xF0, 5, 0xB8] ∧ frame.length = 10 ∧
      byteAt frame 9 = Logging.sum8 (frame.take 9) then
    some (.write (wordBe24 (byteAt frame 5) (byteAt frame 6) (byteAt frame 7)) (byteAt frame 8))
  else if frame.take 6 = [0x00, 0x00, 0x07, 0xE1, 0xA8, 0x00] then some (.read (addressesOf (frame.drop 6)))
  else none

/-- The memory after a request. -/
def Request.run (m : Memory) : Request → Memory
  | .write address value => Function.update m address value
  | .read _ => m

/-- The memory after a frame that was executed. -/
def executed (m : Memory) (frame : Bytes) : Memory := ((requestOf frame).map (Request.run m)).getD m

/-- No frame was received. -/
def Silent (received : Except Error (Option Bytes)) : Prop := ∀ reply, received ≠ .ok (some reply)

/-- What a TCU and the line make of a frame: what is received, and the memory afterwards.  A positive response to
a write is given only by a TCU that has stored the byte, and one to a read has the bytes of the memory. -/
inductive Answers (m : Memory) (frame : Bytes) : Except Error (Option Bytes) → Memory → Prop
  | lost {received : Except Error (Option Bytes)} (silent : Silent received) : Answers m frame received m
  | unheard {received : Except Error (Option Bytes)} (silent : Silent received) :
      Answers m frame received (executed m frame)
  | refused (reply : Bytes) (write : isAck reply SetParametersSession.positiveResponse = false)
      (read : isAck reply ReadParametersSession.positiveResponse = false) : Answers m frame (.ok (some reply)) m
  | stored {address : UInt32} {value : Byte} (request : requestOf frame = some (.write address value))
      (reply : Bytes) (write : isAck reply SetParametersSession.positiveResponse = true) :
      Answers m frame (.ok (some reply)) (Function.update m address value)
  | told {addresses : List UInt32} (request : requestOf frame = some (.read addresses)) (header : Bytes)
      (four : header.length = 4) :
      Answers m frame (.ok (some (header ++ ReadParametersSession.positiveResponse :: addresses.map m))) m

/-- The calls of a session as a TCU may answer them.  A frame whose writing failed may have been executed. -/
inductive Serves : Memory → List Call → Memory → Prop
  | nil (m : Memory) : Serves m [] m
  | unsent {m m' : Memory} (frame : Bytes) (either : m' = m ∨ m' = executed m frame) :
      Serves m [.wrote frame] m'
  | exchanged {m m' m'' : Memory} {frame : Bytes} {received : Except Error (Option Bytes)} {calls : List Call}
      (answer : Answers m frame received m') (rest : Serves m' calls m'') :
      Serves m (.wrote frame :: .read received :: calls) m''

/-- A frame that was answered in some way was executed or not. -/
theorem Answers.either {m m' : Memory} {frame : Bytes} {received : Except Error (Option Bytes)}
    (h : Answers m frame received m') : m' = m ∨ m' = executed m frame := by
  cases h with
  | lost silent => exact .inl rfl
  | unheard silent => exact .inr rfl
  | refused reply write read => exact .inl rfl
  | stored request reply write =>
    right
    simp [executed, request, Request.run]
  | told request header four => exact .inl rfl

/-! ### Frames -/

/-- The TCU takes the frame of a write for that write. -/
theorem requestOf_frameFor {w : TcuParameterWrite} (h : w.address.toNat < 2 ^ 24) :
    requestOf (SetParametersSession.frameFor w) = some (.write w.address w.value) := by
  have hbytes : SetParametersSession.frameFor w =
      [0x80, 0x18, 0xF0, 5, 0xB8, byteOf w.address 16, byteOf w.address 8, byteOf w.address 0, w.value,
        Logging.sum8 [0x80, 0x18, 0xF0, 5, 0xB8, byteOf w.address 16, byteOf w.address 8, byteOf w.address 0,
          w.value]] := rfl
  rw [requestOf, hbytes, if_pos ⟨rfl, rfl, rfl⟩]
  simp only [byteAt, List.getD_cons_succ, List.getD_cons_zero, wordBe24_byteOf h]

/-- The TCU takes the request of the read session for a read of its addresses. -/
theorem requestOf_buildRequest :
    requestOf ReadParametersSession.buildRequest = some (.read ReadParametersSession.addresses) := by
  decide +kernel

/-! ### Storing -/

/-- The memory after the writes. -/
def stored (m : Memory) (writes : List TcuParameterWrite) : Memory :=
  writes.foldl (fun m w => Function.update m w.address w.value) m

@[simp]
theorem stored_nil (m : Memory) : stored m [] = m := rfl

@[simp]
theorem stored_cons (m : Memory) (w : TcuParameterWrite) (writes : List TcuParameterWrite) :
    stored m (w :: writes) = stored (Function.update m w.address w.value) writes := rfl

/-- What no write names stays. -/
theorem stored_of_forall {writes : List TcuParameterWrite} {address : UInt32} (m : Memory)
    (h : ∀ w ∈ writes, w.address ≠ address) : stored m writes address = m address := by
  induction writes generalizing m with
  | nil => rfl
  | cons w writes ih =>
    rw [stored_cons, ih _ fun w' hw' => h w' (List.mem_cons_of_mem _ hw'),
      Function.update_of_ne (h w (List.mem_cons_self ..)).symm]

/-- Each of the addresses has its value after the writes if no two writes name the same one. -/
theorem stored_of_mem {writes : List TcuParameterWrite} (m : Memory)
    (hnodup : (writes.map TcuParameterWrite.address).Nodup) {w : TcuParameterWrite} (h : w ∈ writes) :
    stored m writes w.address = w.value := by
  induction writes generalizing m with
  | nil => simp at h
  | cons first writes ih =>
    rw [List.map_cons, List.nodup_cons] at hnodup
    rw [stored_cons]
    rcases List.mem_cons.1 h with rfl | h
    · rw [stored_of_forall, Function.update_self]
      intro w' hw' heq
      exact hnodup.1 (heq ▸ List.mem_map_of_mem hw')
    · exact ih _ hnodup.2 h

theorem stored_append (m : Memory) (writes writes' : List TcuParameterWrite) :
    stored m (writes ++ writes') = stored (stored m writes) writes' := List.foldl_append

/-! ### Setting -/

namespace SetParametersSession

/-- How an exchange ends. -/
inductive Exchanged (w : TcuParameterWrite) : Except Error Unit → List Call → Prop
  | cancelled (e : Error) : Exchanged w (.error e) []
  | unsent (e : Error) : Exchanged w (.error e) [.wrote (frameFor w)]
  | unacknowledged (e : Error) {received : Except Error (Option Bytes)} :
      Exchanged w (.error e) [.wrote (frameFor w), .read received]
  | acknowledged {reply : Bytes} (ack : isAck reply positiveResponse = true) :
      Exchanged w (.ok ()) [.wrote (frameFor w), .read (.ok (some reply))]

theorem exchange_meets (w : TcuParameterWrite) : Meets (Exchanged w) (exchange w) := by
  refine .bind_of (RelearnSession.checkCancelled_meets _) ?_
  rintro (e | ⟨⟩) calls rfl
  · exact .error (.cancelled e)
  refine .ok (.bind_of (RelearnSession.write_meets _) ?_)
  rintro (e | ⟨⟩) calls rfl
  · exact .error (.unsent e)
  -- the read leaves its own result
  have hread : Meets (fun result calls => calls = [.read result]) read := Meets.ask fun _ => rfl
  refine .ok (.bind_of hread ?_)
  rintro (e | _ | reply) calls rfl
  · exact .error (.unacknowledged e)
  · exact .ok (.fail (.unacknowledged _))
  · refine .ok (.ite (fun hack => .pure ?_) fun _ => .fail (.unacknowledged _))
    exact .acknowledged hack

/-- What is left of the writes after a number of frames: all of them were executed, but for the last perhaps. -/
def Left (m : Memory) (writes : List TcuParameterWrite) (sent : List Bytes) (m' : Memory) : Prop :=
  ∃ k ≤ writes.length, sent = (writes.take k).map frameFor ∧
    (m' = stored m (writes.take k) ∨ m' = stored m (writes.take (k - 1)))

/-- An exchange that fails is the last one. -/
theorem Left.last {m m' : Memory} {w : TcuParameterWrite} {writes : List TcuParameterWrite}
    (hw : w.address.toNat < 2 ^ 24) (h : m' = m ∨ m' = executed m (frameFor w)) :
    Left m (w :: writes) [frameFor w] m' := by
  refine ⟨1, by simp, by simp, ?_⟩
  rcases h with rfl | rfl
  · exact .inr rfl
  · left
    simp [executed, requestOf_frameFor hw, Request.run]

/-- The loop of `Resume`. -/
theorem each_meets {writes : List TcuParameterWrite} (hwrites : ∀ w ∈ writes, w.address.toNat < 2 ^ 24) :
    Meets (fun result calls => ∀ m m', Serves m calls m' → Left m writes (frames calls) m' ∧
      (result = .ok () → frames calls = writes.map frameFor ∧ m' = stored m writes)) (each writes exchange) := by
  induction writes with
  | nil =>
    refine .pure fun m m' hserves => ?_
    cases hserves
    exact ⟨⟨0, Nat.le_refl 0, rfl, .inl rfl⟩, fun _ => ⟨rfl, rfl⟩⟩
  | cons w writes ih =>
    have hw := hwrites w (List.mem_cons_self ..)
    refine .bind_of (exchange_meets w) ?_
    intro result calls hexchanged
    cases hexchanged with
    | cancelled e =>
      refine .error fun m m' hserves => ⟨?_, fun h => by cases h⟩
      cases hserves
      exact ⟨0, Nat.zero_le _, rfl, .inl rfl⟩
    | unsent e =>
      refine .error fun m m' hserves => ⟨?_, fun h => by cases h⟩
      cases hserves with
      | unsent frame either => exact .last hw either
    | unacknowledged e =>
      refine .error fun m m' hserves => ⟨?_, fun h => by cases h⟩
      cases hserves with
      | exchanged answer rest =>
        cases rest
        exact .last hw answer.either
    | @acknowledged reply ack =>
      refine .ok ((ih fun w' hw' => hwrites w' (List.mem_cons_of_mem _ hw')).mono ?_)
      intro result calls hcalls m m'' hserves
      obtain ⟨m', hanswer, hrest⟩ : ∃ m', Answers m (frameFor w) (.ok (some reply)) m' ∧ Serves m' calls m'' := by
        cases hserves with
        | exchanged answer rest => exact ⟨_, answer, rest⟩
      -- a positive response leaves the byte in the memory
      have hm' : m' = Function.update m w.address w.value := by
        generalize hreceived : (.ok (some reply) : Except Error (Option Bytes)) = received at hanswer
        cases hanswer with
        | lost silent => exact absurd hreceived.symm (silent reply)
        | unheard silent => exact absurd hreceived.symm (silent reply)
        | refused reply' write read =>
          cases hreceived
          rw [ack] at write
          cases write
        | stored request reply' write =>
          rw [requestOf_frameFor hw] at request
          cases request
          rfl
        | told request header four =>
          rw [requestOf_frameFor hw] at request
          cases request
      obtain ⟨⟨k, hk, hsent, hleft⟩, hdone⟩ := hcalls m' m'' hrest
      have hframes : frames ([Call.wrote (frameFor w), .read (.ok (some reply))] ++ calls) =
          frameFor w :: frames calls := rfl
      rw [hframes]
      refine ⟨⟨k + 1, by simpa using hk, by simp [hsent], ?_⟩, fun hok => ?_⟩
      · subst hm'
        rw [List.take_succ_cons, stored_cons, Nat.add_sub_cancel]
        cases k with
        | zero => exact .inl (hleft.elim id id)
        | succ k => exact hleft.imp_right fun hlast => by simpa using hlast
      · obtain ⟨hframes, hmemory⟩ := hdone hok
        exact ⟨by rw [List.map_cons, hframes], by rw [stored_cons, ← hm', hmemory]⟩

/-- The writes name addresses of 24 bits. -/
theorem address_lt (values : TcuParameterValues) : ∀ w ∈ tcuParameterWrites values, w.address.toNat < 2 ^ 24 := by
  simp [tcuParameterWrites]

/-- The parameters are at different addresses. -/
theorem nodup_address (values : TcuParameterValues) :
    (((tcuParameterWrites values).take 10).map TcuParameterWrite.address).Nodup := by
  have haddresses : ((tcuParameterWrites values).take 10).map TcuParameterWrite.address =
      ReadParametersSession.addresses := rfl
  rw [haddresses]
  decide

/-- The last two writes commit the others. -/
theorem writes_eq (values : TcuParameterValues) :
    tcuParameterWrites values = (tcuParameterWrites values).take 10 ++ [⟨0xEC, 0x55⟩, ⟨0xEC, 0xAA⟩] := rfl

/-- Nothing is committed before all parameters are stored. -/
theorem Left.committed {values : TcuParameterValues} {m m' : Memory} {sent : List Bytes}
    (h : Left m (tcuParameterWrites values) sent m') (hcommit : m' 0xEC ≠ m 0xEC) :
    ∀ w ∈ (tcuParameterWrites values).take 10, m' w.address = w.value := by
  obtain ⟨k, -, -, hleft⟩ := h
  -- one of the prefixes of the table, and it is longer than the parameters
  obtain ⟨n, rfl⟩ : ∃ n, m' = stored m ((tcuParameterWrites values).take n) := by
    rcases hleft with hleft | hleft
    · exact ⟨_, hleft⟩
    · exact ⟨_, hleft⟩
  have hparameters : ∀ w ∈ (tcuParameterWrites values).take 10, w.address ≠ 0xEC := by
    simp [tcuParameterWrites]
  have hn : 10 < n := by
    by_contra hn
    refine hcommit (stored_of_forall m fun w hw => hparameters w ?_)
    exact List.take_subset_take_left _ (by omega) hw
  intro w hw
  have hsplit : (tcuParameterWrites values).take n =
      (tcuParameterWrites values).take 10 ++ ([⟨0xEC, 0x55⟩, ⟨0xEC, 0xAA⟩] : List TcuParameterWrite).take (n - 10) := by
    conv_lhs => rw [writes_eq values]
    rw [List.take_append, List.take_of_length_le (by simp; omega)]
    simp [tcuParameterWrites]
  rw [hsplit, stored_append, stored_of_forall]
  · exact stored_of_mem m (nodup_address values) hw
  · intro commit hmem
    have haddress : commit.address = 0xEC := by
      have := List.mem_of_mem_take hmem
      simp only [List.mem_cons, List.not_mem_nil, or_false] at this
      rcases this with rfl | rfl <;> rfl
    rw [haddress]
    exact (hparameters w hw).symm

end SetParametersSession

/-- **The memory after setting the parameters.**  Whatever the transport, the cancellation and the TCU do, the
frames are those of the table from its start, and the memory is as these writes leave it, but for the last perhaps.
The session is complete only when all of them are stored; nothing is committed before all parameters are stored;
and no other address is changed. -/
theorem setParameters_memory (session : SetParametersSession) (script : List Reply) {m m' : Memory}
    (h : Serves m (session.resume script).events m') :
    SetParametersSession.Left m (tcuParameterWrites session.values) (frames (session.resume script).events) m' ∧
      (∀ outcome next, (session.resume script).result = .ok (.completed outcome, next) →
        outcome = .setParameters ⟨12⟩ ∧
          frames (session.resume script).events =
            (tcuParameterWrites session.values).map SetParametersSession.frameFor ∧
          m' = stored m (tcuParameterWrites session.values)) ∧
      (m' 0xEC ≠ m 0xEC → ∀ w ∈ (tcuParameterWrites session.values).take 10, m' w.address = w.value) ∧
      ∀ address, address ∉ (tcuParameterWrites session.values).map TcuParameterWrite.address →
        m' address = m address := by
  have hresume : Meets (fun result calls => ∀ m m', Serves m calls m' →
      SetParametersSession.Left m (tcuParameterWrites session.values) (frames calls) m' ∧
        ∀ outcome next, result = .ok (ServiceFunctionStep.completed outcome, next) →
          outcome = .setParameters ⟨12⟩ ∧
            frames calls = (tcuParameterWrites session.values).map SetParametersSession.frameFor ∧
            m' = stored m (tcuParameterWrites session.values)) session.resume := by
    refine .ite (fun _ => .pure fun m m' hserves => ?_) fun _ => .bind ?_
    · cases hserves
      exact ⟨⟨0, Nat.zero_le _, rfl, .inl rfl⟩, fun _ _ h => by cases h⟩
    · refine .attempt ((SetParametersSession.each_meets (SetParametersSession.address_lt session.values)).mono ?_)
      rintro (e | ⟨⟩) calls hcalls
      · refine .ok (.pure fun m m' hserves => ?_)
        rw [List.append_nil] at hserves ⊢
        exact ⟨(hcalls m m' hserves).1, fun _ _ h => by cases h⟩
      · refine .ok (.pure fun m m' hserves => ?_)
        rw [List.append_nil] at hserves ⊢
        refine ⟨(hcalls m m' hserves).1, ?_⟩
        rintro outcome next ⟨⟩
        exact ⟨rfl, (hcalls m m' hserves).2 rfl⟩
  obtain ⟨hleft, hcomplete⟩ := hresume script m m' h
  refine ⟨hleft, hcomplete, hleft.committed, fun address hnone => ?_⟩
  obtain ⟨k, -, -, hprefix⟩ := hleft
  have hnone' : ∀ n, ∀ w ∈ (tcuParameterWrites session.values).take n, w.address ≠ address := by
    rintro n w hw rfl
    exact hnone (List.mem_map_of_mem (List.mem_of_mem_take hw))
  rcases hprefix with rfl | rfl
  · exact stored_of_forall m (hnone' _)
  · exact stored_of_forall m (hnone' _)

/-! ### Reading -/

namespace ReadParametersSession

/-- What a positive response to the request tells. -/
def readoutOf (m : Memory) : TcuParameterReadout where
  inputClutch := m 0x16C
  highLowReverseClutch := m 0x16D
  directClutch := m 0x16E
  frontBrake := m 0x16F
  awdClutchTorque := wordBe16 (m 0x170) (m 0x171)
  forwardBrake := m 0x1BC
  fourWheelDrive := m 0x1BD
  linePressure := m 0x1BE
  temperatureBasis := m 0x1BF

theorem decode_told (m : Memory) {header : Bytes} (h : header.length = 4) :
    decode (header ++ positiveResponse :: addresses.map m) = readoutOf m := by
  obtain ⟨a, b, c, d, rfl⟩ := List.length_eq_four.1 h
  rfl

/-- The loop of `Resume`: the memory stays, and what is read is what it holds. -/
theorem exchange_meets (n : ℕ) (frame : Bytes) :
    Meets (fun result calls => ∀ m m', Serves m calls m' →
      m' = m ∧ ∀ readout, result = .ok readout → readout = readoutOf m) (exchange n frame) := by
  -- a request stores nothing, whether it is executed or not
  have hexecuted : ∀ m, executed m buildRequest = m := by
    intro m
    simp [executed, requestOf_buildRequest, Request.run]
  induction n generalizing frame with
  | zero =>
    refine .ite (fun _ => .fail ?_) fun _ => .fail ?_
    all_goals
      intro m m' hserves
      cases hserves
      exact ⟨rfl, fun _ h => by cases h⟩
  | succ n ih =>
    refine .bind_of (RelearnSession.write_meets _) ?_
    rintro (e | ⟨⟩) calls rfl
    · refine .error fun m m' hserves => ⟨?_, fun _ h => by cases h⟩
      cases hserves with
      | unsent frame either => exact either.elim id fun h => h.trans (hexecuted m)
    have hread : Meets (fun result calls => calls = [.read result]) read := Meets.ask fun _ => rfl
    -- what follows the answer, with the memory of the TCU
    have hmore : ∀ frame received, Meets (fun result calls => ∀ m m',
        Serves m ([.wrote buildRequest] ++ ([.read received] ++ calls)) m' →
          m' = m ∧ ∀ readout, result = .ok readout → readout = readoutOf m) (exchange n frame) := by
      intro frame received
      refine (ih frame).mono fun result calls hcalls m m' hserves => ?_
      cases hserves with
      | exchanged answer rest =>
        have hsame := answer.either.elim id fun h => h.trans (hexecuted m)
        rw [hsame] at rest
        exact hcalls m m' rest
    refine .ok (.bind_of hread ?_)
    rintro (e | _ | reply) calls rfl
    · refine .error fun m m' hserves => ⟨?_, fun _ h => by cases h⟩
      cases hserves with
      | exchanged answer rest =>
        cases rest
        exact answer.either.elim id fun h => h.trans (hexecuted m)
    · exact .ok (hmore frame _)
    · refine .ok (.ite (fun hack => .ite (fun _ => .fail ?_) fun _ => .pure ?_) fun _ => hmore reply _)
      · intro m m' hserves
        refine ⟨?_, fun _ h => by cases h⟩
        cases hserves with
        | exchanged answer rest =>
          cases rest
          exact answer.either.elim id fun h => h.trans (hexecuted m)
      · intro m m' hserves
        cases hserves with
        | exchanged answer rest =>
          cases rest
          refine ⟨answer.either.elim id fun h => h.trans (hexecuted m), ?_⟩
          rintro readout ⟨⟩
          generalize hreceived : (.ok (some reply) : Except Error (Option Bytes)) = received at answer
          cases answer with
          | lost silent => exact absurd hreceived.symm (silent reply)
          | unheard silent => exact absurd hreceived.symm (silent reply)
          | refused reply' write read =>
            cases hreceived
            rw [hack] at read
            cases read
          | stored request reply' write =>
            rw [requestOf_buildRequest] at request
            cases request
          | told request header four =>
            rw [requestOf_buildRequest] at request
            cases request
            cases hreceived
            exact decode_told m four

theorem resume_meets (session : ReadParametersSession) :
    Meets (fun result calls => ∀ m m', Serves m calls m' → m' = m ∧ ∀ outcome next,
      result = .ok (ServiceFunctionStep.completed outcome, next) → outcome = .readout (readoutOf m))
      session.resume := by
  have hnone : ∀ e : Error, (fun (result : Except Error (ServiceFunctionStep × ReadParametersSession)) calls =>
      ∀ m m', Serves m calls m' → m' = m ∧ ∀ outcome next,
        result = .ok (ServiceFunctionStep.completed outcome, next) → outcome = .readout (readoutOf m))
      (.ok (.failed e, session)) [] := by
    intro e m m' hserves
    cases hserves
    exact ⟨rfl, fun _ _ h => by cases h⟩
  refine .ite (fun _ => .pure (hnone _)) fun _ => .bind_of RelearnSession.isCancelled_meets ?_
  rintro _ calls ⟨rfl, cancelled, rfl⟩
  refine .ok (.ite (fun _ => .pure (hnone _)) fun _ => .bind (.attempt ((exchange_meets attempts []).mono ?_)))
  rintro (e | readout) calls hcalls
  · refine .ok (.pure fun m m' hserves => ?_)
    rw [List.append_nil] at hserves
    exact ⟨(hcalls m m' hserves).1, fun _ _ h => by cases h⟩
  · refine .ok (.pure fun m m' hserves => ?_)
    rw [List.append_nil] at hserves
    refine ⟨(hcalls m m' hserves).1, ?_⟩
    rintro outcome next ⟨⟩
    rw [(hcalls m m' hserves).2 readout rfl]

end ReadParametersSession

/-! ### Both -/

/-- The values as a readout has them. -/
def TcuParameterValues.readout (values : TcuParameterValues) : TcuParameterReadout where
  inputClutch := values.correction3to4
  highLowReverseClutch := values.correction2to3
  directClutch := values.correction1to2
  frontBrake := values.correction4to5
  awdClutchTorque := values.torqueCorrectionAwd
  forwardBrake := values.correctionForwardBrake
  fourWheelDrive := values.correctionFourWheelDrive
  linePressure := values.correctionLinePressure
  temperatureBasis := values.temperatureBasis

/-- The memory with the values has their readout. -/
theorem readoutOf_stored (values : TcuParameterValues) (m : Memory) :
    ReadParametersSession.readoutOf (stored m (tcuParameterWrites values)) = values.readout := by
  have htorque : wordBe16 (byteOf values.torqueCorrectionAwd.toUInt32 8)
      (byteOf values.torqueCorrectionAwd.toUInt32 0) = values.torqueCorrectionAwd :=
    wordBe16_byteOf values.torqueCorrectionAwd
  simp [ReadParametersSession.readoutOf, TcuParameterValues.readout, tcuParameterWrites, htorque]

/-- **What is set is read back.**  After a session that set the parameters is complete, a session that reads them
from the same TCU, whatever both lines lose and however often, gives these parameters if it is complete. -/
theorem parameters_read_back {set next : SetParametersSession} {read next' : ReadParametersSession}
    {script script' : List Reply} {m m' m'' : Memory} {outcome outcome' : ServiceFunctionOutcome}
    (hset : (set.resume script).result = .ok (.completed outcome, next))
    (hserves : Serves m (set.resume script).events m')
    (hread : (read.resume script').result = .ok (.completed outcome', next'))
    (hserves' : Serves m' (read.resume script').events m'') :
    outcome' = .readout set.values.readout ∧ m'' = m' := by
  obtain ⟨-, -, rfl⟩ := (setParameters_memory set script hserves).2.1 outcome next hset
  obtain ⟨hsame, hreadout⟩ := read.resume_meets script' _ m'' hserves'
  refine ⟨?_, hsame⟩
  rw [hreadout outcome' next' hread, readoutOf_stored]

/-! ### A TCU that answers -/

/-- An answer that lets everything go on, with a positive response to a write. -/
def acknowledge : Reply := ⟨false, .ok (), .ok (some [0x80, 0xF0, 0x18, 0x02, 0xF8, 0x00, 0x82])⟩

/-- With a TCU that acknowledges every frame the loop comes to its end. -/
theorem each_acknowledged {writes : List TcuParameterWrite} (h : ∀ w ∈ writes, w.address.toNat < 2 ^ 24)
    (m : Memory) :
    (each writes SetParametersSession.exchange (List.replicate (3 * writes.length) acknowledge)).result = .ok () ∧
      Serves m (each writes SetParametersSession.exchange (List.replicate (3 * writes.length) acknowledge)).events
        (stored m writes) := by
  induction writes generalizing m with
  | nil => exact ⟨rfl, .nil m⟩
  | cons w writes ih =>
    obtain ⟨hresult, hserves⟩ := ih (fun w' hw' => h w' (List.mem_cons_of_mem _ hw'))
      (Function.update m w.address w.value)
    have hscript : List.replicate (3 * (w :: writes).length) acknowledge =
        acknowledge :: acknowledge :: acknowledge :: List.replicate (3 * writes.length) acknowledge := by
      rw [List.length_cons, Nat.mul_add]
      rfl
    rw [hscript]
    refine ⟨hresult, .exchanged (.stored (requestOf_frameFor (h w (List.mem_cons_self ..))) _ rfl) hserves⟩

/-- A loop that comes to its end completes the session. -/
theorem resume_of_ok (protocol : String) (values : TcuParameterValues) {script : List Reply}
    (h : (each (tcuParameterWrites values) SetParametersSession.exchange script).result = .ok ()) :
    (SetParametersSession.resume { protocol, values } script).result =
        .ok (.completed (.setParameters ⟨12⟩), { protocol, values }) ∧
      (SetParametersSession.resume { protocol, values } script).events =
        (each (tcuParameterWrites values) SetParametersSession.exchange script).events := by
  have hresume : SetParametersSession.resume { protocol, values } =
      (attempt (each (tcuParameterWrites values) SetParametersSession.exchange) >>= _) := if_neg (by simp)
  rw [hresume, attempt_bind, h]
  exact ⟨rfl, List.append_nil _⟩

/-- With a TCU that acknowledges every frame the parameters are set. -/
theorem resume_acknowledged (protocol : String) (values : TcuParameterValues) (m : Memory) :
    (SetParametersSession.resume { protocol, values } (List.replicate 36 acknowledge)).result =
        .ok (.completed (.setParameters ⟨12⟩), { protocol, values }) ∧
      Serves m (SetParametersSession.resume { protocol, values } (List.replicate 36 acknowledge)).events
        (stored m (tcuParameterWrites values)) := by
  obtain ⟨hresult, hserves⟩ := each_acknowledged (SetParametersSession.address_lt values) m
  have hlength : 3 * (tcuParameterWrites values).length = 36 := rfl
  rw [hlength] at hresult hserves
  obtain ⟨hcompleted, hevents⟩ := resume_of_ok protocol values hresult
  rw [hevents]
  exact ⟨hcompleted, hserves⟩

/-- Some values, and a session that sets them. -/
def someSession : SetParametersSession where
  protocol := "sub_tcu_denso_sh7055_can"
  values := ⟨1, 2, 3, 4, 5, 6, 7, 8, 0x0910⟩

theorem setParameters_memory_some :
    ∃ m', Serves (fun _ => 0) (someSession.resume (List.replicate 36 acknowledge)).events m' ∧
      m' 0xEC = 0xAA ∧ ∀ w ∈ (tcuParameterWrites someSession.values).take 10, m' w.address = w.value := by
  have hserves := (resume_acknowledged someSession.protocol someSession.values fun _ => 0).2
  have hcommit : stored (fun _ => 0) (tcuParameterWrites someSession.values) 0xEC = 0xAA := rfl
  refine ⟨_, hserves, hcommit, (setParameters_memory someSession _ hserves).2.2.1 ?_⟩
  rw [hcommit]
  simp

/-- The answers to a session that reads the parameters of the memory. -/
def tell (m : Memory) : List Reply :=
  let reply := [0x00, 0x00, 0x07, 0xE9] ++ 0xE8 :: ReadParametersSession.addresses.map m
  [⟨false, .ok (), .ok none⟩, ⟨false, .ok (), .ok none⟩, ⟨false, .ok (), .ok (some reply)⟩]

theorem parameters_read_back_some :
    ∃ outcome next, (ReadParametersSession.resume ⟨"sub_tcu_denso_sh7055_can", false⟩
        (tell (stored (fun _ => 0) (tcuParameterWrites someSession.values)))).result =
          .ok (.completed outcome, next) ∧
      outcome = .readout someSession.values.readout := by
  obtain ⟨hresult, hserves⟩ := resume_acknowledged someSession.protocol someSession.values fun _ => 0
  generalize hm : stored (fun _ => 0) (tcuParameterWrites someSession.values) = m at hserves
  have hread : (ReadParametersSession.resume ⟨"sub_tcu_denso_sh7055_can", false⟩ (tell m)).result =
      .ok (.completed (.readout (ReadParametersSession.readoutOf m)), ⟨"sub_tcu_denso_sh7055_can", false⟩) := rfl
  have hserves' : Serves m (ReadParametersSession.resume ⟨"sub_tcu_denso_sh7055_can", false⟩ (tell m)).events m :=
    .exchanged (.told requestOf_buildRequest [0x00, 0x00, 0x07, 0xE9] rfl) (.nil m)
  exact ⟨_, _, hread, (parameters_read_back hresult hserves hread hserves').1⟩

end FastEcu.ServiceFunctions
