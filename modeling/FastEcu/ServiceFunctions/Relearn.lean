import FastEcu.ServiceFunctions.Sessions

/-!
# What a relearn session sends

* `Did` : the frames that a resumption sends, how it ends, and the session after it.
* `resume_cases` : all that `RelearnSession::Resume` does, whatever the transport answers.
* `resume_of_cancelled` : a cancelled session sends nothing more.
-/

namespace FastEcu.ServiceFunctions.RelearnSession

open Calibration (ErrorKind Error)
open Data Computation

variable {α : Type}

/-! ### Frames of the parts -/

theorem isCancelled_meets : Meets (fun result calls => calls = [] ∧ ∃ b, result = .ok b) isCancelled :=
  Meets.ask fun _ => ⟨rfl, _, rfl⟩

theorem checkCancelled_meets (detail : String) : Meets (fun _ calls => calls = []) (checkCancelled detail) := by
  refine .bind_of isCancelled_meets ?_
  rintro _ calls ⟨rfl, b, rfl⟩
  exact .ok (Meets.ite (fun _ => .fail rfl) fun _ => .pure rfl)

theorem write_meets (frame : Bytes) : Meets (fun _ calls => calls = [.wrote frame]) (write frame) :=
  Meets.ask fun _ => rfl

theorem read_meets : Meets (fun _ calls => frames calls = []) read := Meets.ask fun _ => rfl

/-- One turn of a loop: a frame at most, and what follows the answer if one was sent. -/
theorem turn_meets {frame : Bytes} {detail : String} {f : Option Bytes → Link α}
    {Q : Except Error α → List Bytes → Prop} (hnone : ∀ e, Q (.error e) []) (hsent : ∀ e, Q (.error e) [frame])
    (hf : ∀ received, Meets (fun result calls => Q result (frame :: frames calls)) (f received)) :
    Meets (fun result calls => Q result (frames calls))
      (do checkCancelled detail; write frame; let received ← read; f received) := by
  refine .bind_of (checkCancelled_meets detail) ?_
  rintro (e | ⟨⟩) calls rfl
  · exact .error (hnone e)
  refine .ok (.bind_of (write_meets frame) ?_)
  rintro (e | ⟨⟩) calls rfl
  · exact .error (hsent e)
  refine .ok (.bind_of read_meets ?_)
  rintro (e | received) calls hcalls
  · refine .error ?_
    simp only [List.nil_append, sent_append, hcalls]
    exact hsent e
  · refine .ok ((hf received).mono fun result rest hrest => ?_)
    simp only [List.nil_append, sent_append, hcalls]
    exact hrest

/-- `ExchangeTolerantly` sends the frame again and again, but not too often. -/
theorem exchangeTolerantly_meets (frame : Bytes) (expected : Byte) (attempts : ℕ) (last : Bytes) :
    Meets (fun _ calls => ∃ a ≤ attempts, frames calls = List.replicate a frame)
      (exchangeTolerantly frame expected attempts last) := by
  induction attempts generalizing last with
  | zero => exact .pure ⟨0, Nat.le_refl 0, rfl⟩
  | succ attempts ih =>
    -- whatever the answer is, the frame was sent once before the other attempts
    have hmore : ∀ last, Meets (fun _ calls => ∃ a ≤ attempts + 1, frame :: frames calls = List.replicate a frame)
        (exchangeTolerantly frame expected attempts last) := by
      intro last
      refine (ih last).mono fun _ calls => ?_
      rintro ⟨a, hle, ha⟩
      exact ⟨a + 1, by omega, by rw [ha, List.replicate_succ]⟩
    refine turn_meets (Q := fun _ sent => ∃ a ≤ attempts + 1, sent = List.replicate a frame)
      (fun _ => ⟨0, by omega, rfl⟩) (fun _ => ⟨1, by omega, rfl⟩) ?_
    rintro (_ | received)
    · exact hmore last
    · exact .ite (fun _ => .pure ⟨1, by omega, rfl⟩) fun _ => hmore received

theorem writeStep_meets (frame : Bytes) :
    Meets (fun _ calls => ∃ a ≤ writeAttempts, frames calls = List.replicate a frame) (writeStep frame) := by
  refine .bind_of (exchangeTolerantly_meets frame writeAck writeAttempts []) ?_
  rintro (e | last) calls hcalls
  · exact .error hcalls
  · exact .ok (.pure (by rwa [List.append_nil]))

/-- `PollStatus` polls as often as it counts, and always to the bound if it succeeds. -/
theorem pollStatus_meets (polls : ℕ) (outcome : RelearnOutcome) :
    Meets (fun result calls => ∃ c ≤ polls, frames calls = List.replicate c pollFrame ∧
      ∀ o, result = .ok o → c = polls ∧ o.pollsPerformed = outcome.pollsPerformed + polls)
      (pollStatus polls outcome) := by
  induction polls generalizing outcome with
  | zero =>
    refine .pure ⟨0, Nat.le_refl 0, rfl, ?_⟩
    rintro o ⟨⟩
    exact ⟨rfl, rfl⟩
  | succ polls ih =>
    have hmore : ∀ next : RelearnOutcome, next.pollsPerformed = outcome.pollsPerformed + 1 →
        Meets (fun result calls => ∃ c ≤ polls + 1, pollFrame :: frames calls = List.replicate c pollFrame ∧
          ∀ o, result = .ok o → c = polls + 1 ∧ o.pollsPerformed = outcome.pollsPerformed + (polls + 1))
          (pollStatus polls next) := by
      intro next hnext
      refine (ih next).mono fun result calls => ?_
      rintro ⟨c, hle, hc, hdone⟩
      refine ⟨c + 1, by omega, by rw [hc, List.replicate_succ], fun o ho => ?_⟩
      obtain ⟨rfl, hpolls⟩ := hdone o ho
      exact ⟨rfl, by omega⟩
    refine turn_meets (Q := fun result sent => ∃ c ≤ polls + 1, sent = List.replicate c pollFrame ∧
      ∀ o : RelearnOutcome, result = .ok o → c = polls + 1 ∧ o.pollsPerformed = outcome.pollsPerformed + (polls + 1)) ?_ ?_ ?_
    · exact fun e => ⟨0, by omega, rfl, fun o ho => by cases ho⟩
    · exact fun e => ⟨1, by omega, rfl, fun o ho => by cases ho⟩
    · rintro (_ | received)
      · exact hmore _ rfl
      · exact hmore _ rfl

/-! ### A resumption -/

/-- The session may go on. -/
def Ready (session : RelearnSession) : Prop := session.gateOutstanding = false ∧ session.declined = false

/-- The frames that a resumption sends, how it ends, and the session after it. -/
inductive Did (session : RelearnSession) : List Bytes → ServiceFunctionStep → RelearnSession → Prop
  | refused (e : Error) : Did session [] (.failed e) session
  | asked (ready : session.Ready) (stage : session.stage = .awaitStaticSetupGate) :
      Did session [] (.gate .relearnStaticSetup) { session with stage := .writeSteps, gateOutstanding := true }
  | wrote (ready : session.Ready) (stage : session.stage = .writeSteps) (a b : ℕ) (ha : a ≤ writeAttempts)
      (hb : b ≤ writeAttempts) :
      Did session (List.replicate a stepOne ++ List.replicate b stepTwo) (.gate .relearnEngineRunning)
        { session with stage := .poll, gateOutstanding := true }
  | writeFailed (ready : session.Ready) (stage : session.stage = .writeSteps) (a b : ℕ) (ha : a ≤ writeAttempts)
      (hb : b ≤ writeAttempts) (e : Error) :
      Did session (List.replicate a stepOne ++ List.replicate b stepTwo) (.failed e) session
  | polled (ready : session.Ready) (stage : session.stage = .poll) (outcome : RelearnOutcome)
      (polls : outcome.pollsPerformed = pollIterations) :
      Did session (List.replicate pollIterations pollFrame) (.completed (.relearn outcome))
        { session with stage := .done }
  | pollFailed (ready : session.Ready) (stage : session.stage = .poll) (c : ℕ) (hc : c ≤ pollIterations)
      (e : Error) : Did session (List.replicate c pollFrame) (.failed e) session

theorem writeSteps_meets :
    Meets (fun _ calls => ∃ a ≤ writeAttempts, ∃ b ≤ writeAttempts,
      frames calls = List.replicate a stepOne ++ List.replicate b stepTwo)
      (do writeStep stepOne; writeStep stepTwo) := by
  refine .bind_of (writeStep_meets stepOne) ?_
  rintro (e | ⟨⟩) calls ⟨a, ha, hone⟩
  · exact .error ⟨a, ha, 0, Nat.zero_le _, by rw [hone, List.replicate_zero, List.append_nil]⟩
  · refine .ok ((writeStep_meets stepTwo).mono fun _ rest => ?_)
    rintro ⟨b, hb, htwo⟩
    exact ⟨a, ha, b, hb, (sent_append calls rest).trans (congrArg₂ _ hone htwo)⟩

/-- How a resumption ends. -/
abbrev Ended (session : RelearnSession) (result : Except Error (ServiceFunctionStep × RelearnSession))
    (calls : List Call) : Prop :=
  ∃ step next, result = .ok (step, next) ∧ session.Did (frames calls) step next

theorem resumeStage_meets {session : RelearnSession} (ready : session.Ready) :
    Meets session.Ended session.resumeStage := by
  unfold resumeStage
  cases hstage : session.stage with
  | awaitStaticSetupGate => exact .pure ⟨_, _, rfl, .asked ready hstage⟩
  | writeSteps =>
    refine .bind_of (Meets.attempt (Q := fun result calls => ∃ r, result = .ok r ∧
      ∃ a ≤ writeAttempts, ∃ b ≤ writeAttempts,
        frames calls = List.replicate a stepOne ++ List.replicate b stepTwo)
      (writeSteps_meets.mono fun result _ h => ⟨result, rfl, h⟩)) ?_
    rintro result calls ⟨r, rfl, a, ha, b, hb, hcalls⟩
    refine .ok ?_
    rw [← List.append_nil calls] at hcalls
    cases r with
    | error e => exact .pure ⟨_, _, rfl, hcalls ▸ .writeFailed ready hstage a b ha hb e⟩
    | ok _ => exact .pure ⟨_, _, rfl, hcalls ▸ .wrote ready hstage a b ha hb⟩
  | poll =>
    refine .bind_of (Meets.attempt (Q := fun result calls => ∃ r, result = .ok r ∧
      ∃ c ≤ pollIterations, frames calls = List.replicate c pollFrame ∧
        ∀ o : RelearnOutcome, r = .ok o → c = pollIterations ∧ o.pollsPerformed = 0 + pollIterations)
      ((pollStatus_meets pollIterations {}).mono fun result _ h => ⟨result, rfl, h⟩)) ?_
    rintro result calls ⟨r, rfl, c, hc, hcalls, hdone⟩
    refine .ok ?_
    rw [← List.append_nil calls] at hcalls
    cases r with
    | error e => exact .pure ⟨_, _, rfl, hcalls ▸ .pollFailed ready hstage c hc e⟩
    | ok outcome =>
      obtain ⟨rfl, hpolls⟩ := hdone outcome rfl
      rw [Nat.zero_add] at hpolls
      exact .pure ⟨_, _, rfl, hcalls ▸ .polled ready hstage outcome hpolls⟩
  | done => exact .pure ⟨_, _, rfl, .refused _⟩

/-- All that a resumption does. -/
theorem resume_cases (session : RelearnSession) : Meets session.Ended session.resume := by
  unfold resume
  refine .ite (fun _ => .pure ⟨_, _, rfl, .refused _⟩) fun hgate => ?_
  refine .ite (fun _ => .pure ⟨_, _, rfl, .refused _⟩) fun hdeclined => ?_
  refine .bind_of isCancelled_meets ?_
  rintro _ calls ⟨rfl, b, rfl⟩
  refine .ok (.ite (fun _ => .pure ⟨_, _, rfl, .refused _⟩) fun _ => ?_)
  exact resumeStage_meets ⟨Bool.eq_false_of_not_eq_true hgate, Bool.eq_false_of_not_eq_true hdeclined⟩

/-- A resumption that finds the cancellation sends nothing. -/
theorem resume_of_cancelled (session : RelearnSession) {script : List Reply}
    (h : (script.headD default).cancelled = true) : (session.resume script).events = [] := by
  unfold resume
  split
  · rfl
  split
  · rfl
  · have hcancelled : (isCancelled script).result = .ok true := congrArg Except.ok h
    rw [bind_of_ok hcancelled]
    rfl

end FastEcu.ServiceFunctions.RelearnSession
