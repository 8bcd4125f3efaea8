import FastEcu.Data.Protocol
import FastEcu.ServiceFunctions.Relearn

/-!
# The worker of a service function

`src/platform/desktop/common/service_functions/worker/service_function_worker.cpp`: the thread that runs a
session, and the calls of the window that answers its gates and may stop it at any time.  Every block under the
mutex is one step, and a resumption is one too: what the window does meanwhile shows only in the cancellation.

* `Worker`, `Worker.Step` : the worker, and its steps with those of the window.
* `standing` : the last gate that was requested, with the first answer to it.
* `Relearning` : the invariant of a worker that relearns.
* `relearn_authorised` : no frame without the operator's consent, none after a stop.
* `relearn_wire` : the frames of a whole run.
-/

namespace FastEcu.ServiceFunctions

open Calibration (ErrorKind Error)
open Data Computation

/-- Where `run` is. -/
inductive Phase
  | starting
  | resuming
  | posting (id : OperatorGateId)
  | waiting
  | finished

/-- `ServiceFunctionWorker`, with the state of its cancellation. -/
structure Worker (S : Type) where
  session : S
  phase : Phase := .starting
  cancelled : Bool := false
  stopping : Bool := false
  gatePending : Bool := false
  pendingGateId : ℤ := 0
  gateResponse : Option GateResponse := none

/-- What the worker and the window do. -/
inductive Happened
  | configured
  | rejected (e : Error)
  | resumed (calls : List Call) (step : ServiceFunctionStep)
  | requested (id : OperatorGateId)
  | answered (id : ℤ) (accepted : Bool)
  | cancelled
  | stopped
  | submitted (response : GateResponse)
  | abandoned

namespace Worker

variable {S : Type}

/-- Where `run` is after a step of the session. -/
def after : ServiceFunctionStep → Phase
  | .gate id => .posting id
  | .completed _ => .finished
  | .failed _ => .finished

/-- `AnswerGate`. -/
def answerGate (id : ℤ) (accepted : Bool) (w : Worker S) : Worker S :=
  if w.gatePending = false ∨ id ≠ w.pendingGateId ∨ w.gateResponse.isSome then w
  else { w with gateResponse := some (if accepted then .accept else .decline) }

/-- One step of the worker or of the window.  `RequestStop` cancels first and stops then. -/
inductive Step (service : ServiceFunctionSession S) : Worker S → Happened → Worker S → Prop
  | configured {w : Worker S} (apply : SsmTransportConfig → Except Error Unit) (phase : w.phase = .starting)
      (setup : (service.transportSetup w.session >>= apply) = .ok ()) :
      Step service w .configured { w with phase := .resuming }
  | rejected {w : Worker S} (apply : SsmTransportConfig → Except Error Unit) (e : Error)
      (phase : w.phase = .starting) (setup : (service.transportSetup w.session >>= apply) = .error e) :
      Step service w (.rejected e) { w with phase := .finished }
  | resumed {w : Worker S} (script : List Reply) {step : ServiceFunctionStep} {next : S}
      (phase : w.phase = .resuming) (token : w.cancelled = true → ∀ reply ∈ script, reply.cancelled = true)
      (result : (service.resume w.session script).result = .ok (step, next)) :
      Step service w (.resumed (service.resume w.session script).events step)
        { w with session := next, phase := after step }
  | requested {w : Worker S} (id : OperatorGateId) (phase : w.phase = .posting id) :
      Step service w (.requested id)
        { w with phase := .waiting, pendingGateId := id.code, gatePending := true, gateResponse := none }
  | answered {w : Worker S} (id : ℤ) (accepted : Bool) :
      Step service w (.answered id accepted) (w.answerGate id accepted)
  | cancelled {w : Worker S} : Step service w .cancelled { w with cancelled := true }
  | stopped {w : Worker S} (token : w.cancelled = true) : Step service w .stopped { w with stopping := true }
  | submitted {w : Worker S} (response : GateResponse) (phase : w.phase = .waiting)
      (running : w.stopping = false) (answer : w.gateResponse = some response) :
      Step service w (.submitted response)
        { w with
          session := service.submit response w.session, phase := .resuming, gatePending := false,
          gateResponse := none }
  | abandoned {w : Worker S} (phase : w.phase = .waiting) (stopping : w.stopping = true) :
      Step service w .abandoned { w with phase := .finished, gatePending := false, gateResponse := none }

end Worker

/-! ### Consent -/

/-- The gate that was requested last, with the first answer to it, after one more event. -/
def standingAfter (standing : Option (OperatorGateId × Option Bool)) :
    Happened → Option (OperatorGateId × Option Bool)
  | .requested id => some (id, none)
  | .answered id accepted =>
    match standing with
    | some (asked, none) => if id = asked.code then some (asked, some accepted) else standing
    | _ => standing
  | _ => standing

/-- The gate that was requested last, with the first answer to it. -/
def standing (events : List Happened) : Option (OperatorGateId × Option Bool) :=
  events.foldl standingAfter none

@[simp]
theorem standing_append (events : List Happened) (e : Happened) :
    standing (events ++ [e]) = standingAfter (standing events) e := by
  simp [standing]

/-- The frames that were sent. -/
def sentFrames (events : List Happened) : List Bytes :=
  events.flatMap fun e =>
    match e with
    | .resumed calls _ => frames calls
    | _ => []

@[simp]
theorem sentFrames_append (events : List Happened) (e : Happened) :
    sentFrames (events ++ [e]) = sentFrames events ++ sentFrames [e] := by
  simp [sentFrames]

/-! ### The invariant -/

open RelearnSession

/-- The frames of the two steps. -/
def Stepped (sent : List Bytes) : Prop :=
  ∃ a ≤ writeAttempts, ∃ b ≤ writeAttempts, sent = List.replicate a stepOne ++ List.replicate b stepTwo

/-- The frames of a part of the relearning. -/
def Wire (sent : List Bytes) : Prop :=
  ∃ a ≤ writeAttempts, ∃ b ≤ writeAttempts, ∃ c ≤ pollIterations,
    sent = List.replicate a stepOne ++ List.replicate b stepTwo ++ List.replicate c pollFrame

theorem Wire.nil : Wire [] := ⟨0, Nat.zero_le _, 0, Nat.zero_le _, 0, Nat.zero_le _, rfl⟩

theorem Stepped.wire {sent : List Bytes} (h : Stepped sent) {c : ℕ} (hc : c ≤ pollIterations) :
    Wire (sent ++ List.replicate c pollFrame) := by
  obtain ⟨a, ha, b, hb, rfl⟩ := h
  exact ⟨a, ha, b, hb, c, hc, rfl⟩

/-- The session has come to the gate, after these frames. -/
def AtGate (session : RelearnSession) (sent : List Bytes) : OperatorGateId → Prop
  | .relearnStaticSetup => session.stage = .writeSteps ∧ sent = []
  | .relearnEngineRunning => session.stage = .poll ∧ Stepped sent

theorem AtGate.wire {session : RelearnSession} {sent : List Bytes} {id : OperatorGateId}
    (h : AtGate session sent id) : Wire sent := by
  cases id with
  | relearnStaticSetup =>
    rw [h.2]
    exact .nil
  | relearnEngineRunning => simpa using h.2.wire (Nat.zero_le pollIterations)

/-- The session may be resumed after what happened. -/
def MayResume (before : List Happened) (session : RelearnSession) : Prop :=
  (session.stage = .awaitStaticSetupGate ∧ sentFrames before = []) ∨
    ∃ id, AtGate session (sentFrames before) id ∧
      (session.declined = true ∨ standing before = some (id, some true))

/-- What holds of the worker where it is. -/
def AtPhase (before : List Happened) (w : Worker RelearnSession) : Phase → Prop
  | .starting => w.session.stage = .awaitStaticSetupGate ∧ sentFrames before = []
  | .resuming => MayResume before w.session
  | .posting id => AtGate w.session (sentFrames before) id
  | .waiting => ∃ id, AtGate w.session (sentFrames before) id ∧ w.pendingGateId = id.code ∧
      w.gatePending = true ∧ standing before = some (id, w.gateResponse.map (· == .accept))
  | .finished => Wire (sentFrames before)

/-- The invariant of a worker that relearns. -/
structure Relearning (before : List Happened) (w : Worker RelearnSession) : Prop where
  token : .cancelled ∈ before → w.cancelled = true
  pending : w.gatePending = true → w.phase = .waiting
  here : AtPhase before w w.phase

variable {before : List Happened} {w w' : Worker RelearnSession} {e : Happened}

/-- A gate that has been answered stays so until another one is requested. -/
theorem standingAfter_answered (id : ℤ) (accepted : Bool) {asked : OperatorGateId} {answer : Bool} :
    standingAfter (some (asked, some answer)) (.answered id accepted) = some (asked, some answer) := rfl

theorem MayResume.answered {session : RelearnSession} (h : MayResume before session) (id : ℤ) (accepted : Bool) :
    MayResume (before ++ [.answered id accepted]) session := by
  have hsent : sentFrames (before ++ [.answered id accepted]) = sentFrames before := by
    simp [sentFrames]
  rcases h with ⟨hstage, hnone⟩ | ⟨gate, hgate, hconsent⟩
  · exact .inl ⟨hstage, hsent.trans hnone⟩
  · refine .inr ⟨gate, hsent.symm ▸ hgate, hconsent.imp_right fun hstanding => ?_⟩
    rw [standing_append, hstanding]
    rfl

/-- Where a step of the session leads. -/
def Led (next : RelearnSession) (sent : List Bytes) : ServiceFunctionStep → Prop
  | .gate id => AtGate next sent id
  | .completed _ => Wire sent
  | .failed _ => Wire sent

/-- The operator has agreed to the frames, and the session is complete only after all polls. -/
structure Consent (before : List Happened) (sent : List Bytes) (step : ServiceFunctionStep) : Prop where
  agreed : ∀ frame ∈ sent,
    (frame = stepOne ∨ frame = stepTwo) ∧ standing before = some (.relearnStaticSetup, some true) ∨
      frame = pollFrame ∧ standing before = some (.relearnEngineRunning, some true)
  complete : ∀ outcome, step = .completed outcome → ∃ o : RelearnOutcome, outcome = .relearn o ∧
    o.pollsPerformed = pollIterations ∧ sent = List.replicate pollIterations pollFrame

theorem Consent.nil {step : ServiceFunctionStep} (h : ∀ outcome, step ≠ .completed outcome) :
    Consent before [] step where
  agreed frame hmem := by simp at hmem
  complete outcome ho := absurd ho (h outcome)

/-- The steps and the polls come after their gates. -/
theorem MayResume.agreed {session : RelearnSession} (h : MayResume before session) (ready : session.Ready) :
    (session.stage = .writeSteps →
      sentFrames before = [] ∧ standing before = some (.relearnStaticSetup, some true)) ∧
    (session.stage = .poll →
      Stepped (sentFrames before) ∧ standing before = some (.relearnEngineRunning, some true)) := by
  rcases h with ⟨hstage, -⟩ | ⟨id, hgate, hdeclined | hstanding⟩
  · rw [hstage]
    exact ⟨fun h => (by cases h), fun h => (by cases h)⟩
  · rw [ready.2] at hdeclined
    cases hdeclined
  · cases id with
    | relearnStaticSetup =>
      refine ⟨fun _ => ⟨hgate.2, hstanding⟩, fun hpoll => ?_⟩
      rw [hgate.1] at hpoll
      cases hpoll
    | relearnEngineRunning =>
      refine ⟨fun hwrite => ?_, fun _ => ⟨hgate.2, hstanding⟩⟩
      rw [hgate.1] at hwrite
      cases hwrite

theorem MayResume.wire {session : RelearnSession} (h : MayResume before session) : Wire (sentFrames before) := by
  rcases h with ⟨-, hnone⟩ | ⟨id, hgate, -⟩
  · rw [hnone]
    exact .nil
  · exact hgate.wire

/-- What a resumption sends is agreed to, and keeps to the order. -/
theorem MayResume.did {session next : RelearnSession} {sent : List Bytes} {step : ServiceFunctionStep}
    (h : MayResume before session) (hdid : session.Did sent step next) :
    Led next (sentFrames before ++ sent) step ∧ Consent before sent step := by
  cases hdid with
  | refused e =>
    rw [List.append_nil]
    exact ⟨h.wire, .nil fun _ ho => by cases ho⟩
  | asked ready stage =>
    refine ⟨⟨rfl, ?_⟩, .nil fun _ ho => by cases ho⟩
    rcases h with ⟨-, hnone⟩ | ⟨id, hgate, -⟩
    · rw [hnone, List.append_nil]
    · cases id with
      | relearnStaticSetup => rw [hgate.2, List.append_nil]
      | relearnEngineRunning =>
        rw [hgate.1] at stage
        cases stage
  | wrote ready stage a b ha hb =>
    obtain ⟨hnone, hstanding⟩ := (h.agreed ready).1 stage
    rw [hnone, List.nil_append]
    refine ⟨⟨rfl, a, ha, b, hb, rfl⟩, ⟨fun frame hmem => ?_, fun _ ho => by cases ho⟩⟩
    simp only [List.mem_append, List.mem_replicate] at hmem
    exact .inl ⟨hmem.imp And.right And.right, hstanding⟩
  | writeFailed ready stage a b ha hb e =>
    obtain ⟨hnone, hstanding⟩ := (h.agreed ready).1 stage
    rw [hnone, List.nil_append]
    refine ⟨?_, ⟨fun frame hmem => ?_, fun _ ho => by cases ho⟩⟩
    · exact ⟨a, ha, b, hb, 0, Nat.zero_le _, by rw [List.replicate_zero, List.append_nil]⟩
    · simp only [List.mem_append, List.mem_replicate] at hmem
      exact .inl ⟨hmem.imp And.right And.right, hstanding⟩
  | polled ready stage outcome polls =>
    obtain ⟨hstepped, hstanding⟩ := (h.agreed ready).2 stage
    refine ⟨hstepped.wire (Nat.le_refl _), ⟨fun frame hmem => ?_, ?_⟩⟩
    · exact .inr ⟨List.eq_of_mem_replicate hmem, hstanding⟩
    · rintro _ ⟨⟩
      exact ⟨outcome, rfl, polls, rfl⟩
  | pollFailed ready stage c hc e =>
    obtain ⟨hstepped, hstanding⟩ := (h.agreed ready).2 stage
    refine ⟨hstepped.wire hc, ⟨fun frame hmem => ?_, fun _ ho => by cases ho⟩⟩
    exact .inr ⟨List.eq_of_mem_replicate hmem, hstanding⟩

/-! ### Steps -/

theorem Worker.answerGate_phase {S : Type} (w : Worker S) (id : ℤ) (accepted : Bool) :
    (w.answerGate id accepted).phase = w.phase ∧ (w.answerGate id accepted).session = w.session ∧
      (w.answerGate id accepted).cancelled = w.cancelled ∧
      (w.answerGate id accepted).gatePending = w.gatePending ∧
      (w.answerGate id accepted).pendingGateId = w.pendingGateId := by
  unfold answerGate
  split <;> exact ⟨rfl, rfl, rfl, rfl, rfl⟩

/-- The first answer to the pending gate is the one that counts, for the worker and in the history. -/
theorem standing_answerGate {id : OperatorGateId} (hcode : w.pendingGateId = id.code)
    (hpending : w.gatePending = true)
    (hstanding : standing before = some (id, w.gateResponse.map (· == .accept))) (i : ℤ) (accepted : Bool) :
    standing (before ++ [.answered i accepted]) =
      some (id, (w.answerGate i accepted).gateResponse.map (· == .accept)) := by
  rw [standing_append, hstanding, Worker.answerGate, hpending, hcode]
  cases hresponse : w.gateResponse with
  | some response => simp [standingAfter, hresponse]
  | none =>
    by_cases hi : i = id.code
    · cases accepted <;> simp [standingAfter, hi]
    · simp [standingAfter, hi, hresponse]

theorem Relearning.token_append (h : Relearning before w) (he : e ≠ .cancelled)
    (hw : w'.cancelled = w.cancelled) : .cancelled ∈ before ++ [e] → w'.cancelled = true := by
  intro hmem
  rw [hw]
  refine h.token ?_
  rcases List.mem_append.1 hmem with hmem | hmem
  · exact hmem
  · exact absurd (List.mem_singleton.1 hmem).symm he

/-- The cancellation leaves the worker where it is. -/
theorem AtPhase.silent {phase : Phase} (h : AtPhase before w phase) (hsent : sentFrames [e] = [])
    (hstanding : standingAfter (standing before) e = standing before) (cancelled stopping : Bool) :
    AtPhase (before ++ [e]) { w with cancelled, stopping } phase := by
  have hsent' : sentFrames (before ++ [e]) = sentFrames before := by
    rw [sentFrames_append, hsent, List.append_nil]
  have hstanding' : standing (before ++ [e]) = standing before := by rw [standing_append, hstanding]
  cases phase <;> simpa only [AtPhase, MayResume, hsent', hstanding'] using h

theorem Relearning.step (h : Relearning before w) (hstep : Worker.Step RelearnSession.service w e w') :
    Relearning (before ++ [e]) w' := by
  have hhere := h.here
  have hsilent : ∀ e, sentFrames [e] = [] → sentFrames (before ++ [e]) = sentFrames before := by
    intro e he
    rw [sentFrames_append, he, List.append_nil]
  cases hstep with
  | configured apply phase setup =>
    rw [phase] at hhere
    refine ⟨h.token_append (by simp) rfl, fun hp => ?_, .inl ⟨hhere.1, (hsilent _ rfl).trans hhere.2⟩⟩
    have := h.pending hp
    rw [phase] at this
    cases this
  | rejected apply e phase setup =>
    rw [phase] at hhere
    refine ⟨h.token_append (by simp) rfl, fun hp => ?_, ?_⟩
    · have := h.pending hp
      rw [phase] at this
      cases this
    · change Wire (sentFrames (before ++ [.rejected e]))
      rw [hsilent _ rfl, hhere.2]
      exact .nil
  | @resumed script step next phase token result =>
    rw [phase] at hhere
    obtain ⟨step', next', hresult, hdid⟩ := resume_cases w.session script
    have heq : RelearnSession.service.resume w.session script = w.session.resume script := rfl
    rw [heq, hresult] at result
    cases result
    obtain ⟨hled, -⟩ := MayResume.did hhere hdid
    have hsent : sentFrames (before ++ [.resumed (w.session.resume script).events step]) =
        sentFrames before ++ frames (w.session.resume script).events := by
      simp [sentFrames]
    refine ⟨h.token_append (by simp) rfl, fun hp => ?_, ?_⟩
    · have := h.pending hp
      rw [phase] at this
      cases this
    · rw [heq]
      cases step with
      | gate id =>
        change AtGate next (sentFrames _) id
        rwa [hsent]
      | completed outcome =>
        change Wire (sentFrames _)
        rwa [hsent]
      | failed e =>
        change Wire (sentFrames _)
        rwa [hsent]
  | requested id phase =>
    rw [phase] at hhere
    refine ⟨h.token_append (by simp) rfl, fun _ => rfl, id, ?_, rfl, rfl, by simp [standingAfter]⟩
    rw [hsilent _ rfl]
    exact hhere
  | answered id accepted =>
    obtain ⟨hphase, hsession, hcancelled, hpending, hcode⟩ := w.answerGate_phase id accepted
    refine ⟨h.token_append (by simp) hcancelled, fun hp => ?_, ?_⟩
    · rw [hphase]
      exact h.pending (hpending ▸ hp)
    · rw [hphase]
      cases hw : w.phase with
      | starting =>
        rw [hw] at hhere
        exact ⟨hsession ▸ hhere.1, (hsilent _ rfl).trans hhere.2⟩
      | resuming =>
        rw [hw] at hhere
        change MayResume _ (w.answerGate id accepted).session
        rw [hsession]
        exact MayResume.answered hhere id accepted
      | posting gate =>
        rw [hw] at hhere
        change AtGate _ (sentFrames _) gate
        rw [hsilent _ rfl, hsession]
        exact hhere
      | waiting =>
        rw [hw] at hhere
        obtain ⟨gate, hgate, hcode', hpending', hstanding⟩ := hhere
        refine ⟨gate, ?_, hcode.trans hcode', hpending.trans hpending',
          standing_answerGate hcode' hpending' hstanding id accepted⟩
        rw [hsilent _ rfl, hsession]
        exact hgate
      | finished =>
        rw [hw] at hhere
        change Wire (sentFrames _)
        rw [hsilent _ rfl]
        exact hhere
  | cancelled =>
    exact ⟨fun _ => rfl, h.pending, hhere.silent rfl rfl _ _⟩
  | stopped token =>
    exact ⟨h.token_append (by simp) rfl, h.pending, hhere.silent rfl rfl _ _⟩
  | submitted response phase running answer =>
    rw [phase] at hhere
    obtain ⟨gate, hgate, -, -, hstanding⟩ := hhere
    refine ⟨h.token_append (by simp) rfl, fun hp => (by cases hp), .inr ⟨gate, ?_, ?_⟩⟩
    · rw [hsilent _ rfl]
      cases gate with
      | relearnStaticSetup => exact hgate
      | relearnEngineRunning => exact hgate
    · rw [answer] at hstanding
      cases response with
      | accept =>
        right
        rw [standing_append, hstanding]
        rfl
      | decline => exact .inl rfl
  | abandoned phase stopping =>
    rw [phase] at hhere
    obtain ⟨gate, hgate, -⟩ := hhere
    refine ⟨h.token_append (by simp) rfl, fun hp => (by cases hp), ?_⟩
    change Wire (sentFrames _)
    rw [hsilent _ rfl]
    exact hgate.wire

theorem Relearning.start (protocol : String) :
    Relearning [] { session := { protocol } : Worker RelearnSession } where
  token h := by simp at h
  pending h := by cases h
  here := ⟨rfl, rfl⟩

theorem Relearning.wire (h : Relearning before w) : Wire (sentFrames before) := by
  have hhere := h.here
  cases hw : w.phase with
  | starting =>
    rw [hw] at hhere
    rw [hhere.2]
    exact .nil
  | resuming =>
    rw [hw] at hhere
    exact MayResume.wire hhere
  | posting id =>
    rw [hw] at hhere
    exact AtGate.wire hhere
  | waiting =>
    rw [hw] at hhere
    obtain ⟨id, hgate, -⟩ := hhere
    exact hgate.wire
  | finished =>
    rw [hw] at hhere
    exact hhere

/-! ### Runs -/

/-- **A relearning keeps to what the operator agreed to.**  In every run of the worker, whatever the window, the
cancellation and the transport do: the frames of the two steps are sent only when the first answer to the static
gate, the last that was requested, accepted it, and the polls only when that holds of the gate of the running
engine; after the cancellation nothing is sent any more; and the session is complete only after all 200 polls. -/
theorem relearn_authorised {protocol : String} {w : Worker RelearnSession} {events : List Happened}
    (h : Path (Worker.Step RelearnSession.service) { session := { protocol } } events w) :
    Each (fun before e => ∀ calls step, e = .resumed calls step →
      Consent before (frames calls) step ∧ (frames calls ≠ [] → .cancelled ∉ before)) events := by
  refine h.each (I := Relearning) (Relearning.start protocol) (fun _ _ _ _ => Relearning.step) ?_
  rintro before e w w' hinv hstep calls step rfl
  cases hstep with
  | resumed script phase token result =>
    have hhere := hinv.here
    rw [phase] at hhere
    obtain ⟨step', next', hresult, hdid⟩ := resume_cases w.session script
    have heq : RelearnSession.service.resume w.session script = w.session.resume script := rfl
    rw [heq, hresult] at result
    cases result
    refine ⟨(MayResume.did hhere hdid).2, fun hsome hmem => hsome ?_⟩
    -- every reply is a cancellation, and so is a missing one
    have hcancelled : (script.headD default).cancelled = true := by
      cases script with
      | nil => rfl
      | cons reply script => exact token (hinv.token hmem) reply (List.mem_cons_self ..)
    rw [heq, resume_of_cancelled w.session hcancelled]
    rfl

/-- **The frames of a relearning.**  In every run of the worker the first step is sent at most six times, then
the second at most six times, then the poll at most 200 times, and nothing else. -/
theorem relearn_wire {protocol : String} {w : Worker RelearnSession} {events : List Happened}
    (h : Path (Worker.Step RelearnSession.service) { session := { protocol } } events w) :
    Wire (sentFrames events) := by
  have hinv := h.invariant (I := Relearning) (Relearning.start protocol) fun _ _ _ _ => Relearning.step
  exact hinv.wire

/-- An answer that lets everything go on, with a positive response to the steps. -/
def goOn : Reply := ⟨false, .ok (), .ok (some [0x00, 0x00, 0x07, 0xE9, 0xF8])⟩

/-- A worker that has sent both steps. -/
theorem steps_path :
    ∃ events w, Path (Worker.Step RelearnSession.service)
      { session := { protocol := "sub_tcu_denso_sh7055_can" } } events w ∧
        sentFrames events = [stepOne, stepTwo] := by
  refine ⟨_, _, .cons (.configured (fun _ => .ok ()) rfl rfl) (.cons (.resumed [goOn] rfl ?_ rfl)
    (.cons (.requested .relearnStaticSetup rfl) (.cons (.answered 0 true) (.cons (.submitted .accept rfl rfl rfl)
      (.cons (.resumed [goOn, goOn, goOn, goOn, goOn, goOn, goOn] rfl ?_ rfl) (.nil _)))))), ?_⟩
  · intro h
    cases h
  · intro h
    cases h
  · rfl

theorem relearn_authorised_steps : ∃ events, sentFrames events = [stepOne, stepTwo] ∧
    Each (fun before e => ∀ calls step, e = .resumed calls step →
      Consent before (frames calls) step ∧ (frames calls ≠ [] → .cancelled ∉ before)) events := by
  obtain ⟨events, w, hpath, hsent⟩ := steps_path
  exact ⟨events, hsent, relearn_authorised hpath⟩

theorem relearn_wire_steps : ∃ events, sentFrames events = [stepOne, stepTwo] ∧ Wire (sentFrames events) := by
  obtain ⟨events, w, hpath, hsent⟩ := steps_path
  exact ⟨events, hsent, relearn_wire hpath⟩

end FastEcu.ServiceFunctions
