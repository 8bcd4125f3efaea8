import FastEcu.Flash.SingleAttempt

/-!
# The Unisia JECS M32R workflow on K-line

`SubaruUnisiaJecsM32rKlineWorkflow` of `src/backend/flash/workflow/flash_workflow.cpp`: a write may need
a programming voltage that the operator applies, and a write that did not succeed ends with a notice
before its outcome is given.

* `Ledger` : what has been asked, answered and requested, as one record.
* `AfterFailure` : a property of what comes after the result of an attempt that failed.
* `Kline.workflow` : the workflow.
* `klineSpec_of_interleaving` : every interleaving keeps `KlineSpec`.
-/

namespace FastEcu.Flash

open Memory
open Calibration (Error ErrorKind)
open Data

section Ledger

variable {φ β : Type} {events : List (FlashEvent φ β)}

/-- What has been asked, answered and requested. -/
structure Ledger (β : Type) where
  prompt : Option FlashPromptStep := none
  attempt : Option ExecutorKind := none
  answered : List (Option FlashPromptStep × FlashPromptResponse) := []
  requests : List TransportKind := []
  attempts : List (FlashPlan β × ExecutorKind) := []

/-- The ledger of a sequence of calls. -/
def ledger (events : List (FlashEvent φ β)) : Ledger β :=
  ⟨openPrompt events, openAttempt events, answered events, requests events, attempts events⟩

/-- What a call adds. -/
def Ledger.after (l : Ledger β) : FlashEvent φ β → Ledger β
  | .next _ (.prompt prompt) requested =>
    { l with prompt := some prompt, requests := l.requests ++ requested }
  | .next _ (.attempt plan executor) requested =>
    { l with
      prompt := none
      attempt := some executor
      requests := l.requests ++ requested
      attempts := l.attempts ++ [(plan, executor)] }
  | .next _ _ requested => { l with prompt := none, requests := l.requests ++ requested }
  | .respond response =>
    { l with prompt := none, answered := l.answered ++ [(l.prompt, response)] }
  | .finish _ => { l with attempt := none }

theorem ledger_concat (event : FlashEvent φ β) :
    ledger (events ++ [event]) = (ledger events).after event := by
  simp only [ledger, openPrompt_concat, openAttempt_concat, answered_concat, requests_concat,
    attempts_concat]
  cases event with
  | next files step requested => cases step <;> simp [Ledger.after, promptAfter, attemptAfter]
  | respond response => simp [Ledger.after, promptAfter, attemptAfter]
  | finish result => simp [Ledger.after, promptAfter, attemptAfter]

/-- An outcome asks for nothing. -/
theorem Ledger.after_outcome {l : Ledger β} {files : φ} {step : FlashWorkflowStep β}
    (h : step.isOutcome) : l.after (.next files step []) = { l with prompt := none } := by
  cases step with
  | prompt p => cases h
  | attempt plan executor => cases h
  | completed c => simp [Ledger.after]
  | failure e => simp [Ledger.after]

theorem answered_eq {l : Ledger β} (h : ledger events = l) : answered events = l.answered := by
  rw [← h]
  rfl

theorem attempts_eq {l : Ledger β} (h : ledger events = l) : attempts events = l.attempts := by
  rw [← h]
  rfl

theorem openPrompt_eq {l : Ledger β} (h : ledger events = l) : openPrompt events = l.prompt := by
  rw [← h]
  rfl

theorem openAttempt_eq {l : Ledger β} (h : ledger events = l) : openAttempt events = l.attempt := by
  rw [← h]
  rfl

theorem requests_eq {l : Ledger β} (h : ledger events = l) : requests events = l.requests := by
  rw [← h]
  rfl

theorem ledger_of_failures {e : Error}
    (hall : ∀ event ∈ events, ∃ files, event = .next files (.failure e) []) :
    ledger events = {} := by
  induction events using List.reverseRecOn with
  | nil => rfl
  | append_singleton events event ih =>
    obtain ⟨files, rfl⟩ := hall event (by simp)
    rw [ledger_concat, ih fun event h => hall event (List.mem_append_left _ h)]
    rfl

theorem responses_concat_next {after : List (FlashEvent φ β)} (files : φ) (step : FlashWorkflowStep β)
    (requested : List TransportKind) :
    responses (after ++ [.next files step requested]) = responses after := by
  simp [responses_concat]

/-- All prompts but those of the later kinds have been accepted. -/
def Accepted (later : List FlashPromptKind)
    (answered : List (Option FlashPromptStep × FlashPromptResponse)) : Prop :=
  ∀ prompt response, (some prompt, response) ∈ answered → prompt.kind ∉ later → response = .accept

theorem accepted_map (later : List FlashPromptKind) (prompts : List FlashPromptStep) :
    Accepted later (prompts.map fun p => (some p, .accept)) := by
  intro prompt response hmem _
  obtain ⟨p, -, heq⟩ := List.mem_map.1 hmem
  cases heq
  rfl

theorem Accepted.concat {later : List FlashPromptKind}
    {answered : List (Option FlashPromptStep × FlashPromptResponse)} (h : Accepted later answered)
    {prompt : Option FlashPromptStep} {response : FlashPromptResponse}
    (hprompt : ∀ p, prompt = some p → p.kind ∈ later) :
    Accepted later (answered ++ [(prompt, response)]) := by
  intro p r hmem hkind
  rcases List.mem_append.1 hmem with hmem | hmem
  · exact h p r hmem hkind
  · cases List.mem_singleton.1 hmem
    exact absurd (hprompt p rfl) hkind

/-- After a response to an earlier prompt that is no acceptance, not all have been accepted. -/
theorem not_accepted {later : List FlashPromptKind} {prompt : FlashPromptStep}
    {response : FlashPromptResponse} (hopen : openPrompt events = some prompt)
    (hkind : prompt.kind ∉ later) (hne : response ≠ .accept) (after : List (FlashEvent φ β)) :
    ¬Accepted later (answered (events ++ .respond response :: after)) := by
  intro haccepted
  refine hne (haccepted prompt response ?_ hkind)
  rw [← hopen]
  exact mem_answered response after

/-- A response to an earlier prompt that is no acceptance cancels the workflow, and no transport is ever
requested, from what each call may give. -/
theorem cancelled_of_each {P : List (FlashEvent φ β) → FlashEvent φ β → Prop}
    {later : List FlashPromptKind} (heach : Each P events)
    (hnext : ∀ before files step requested, P before (.next files step requested) →
      ¬Accepted later (answered before) → step = .completed ⟨.cancelled, none, none⟩ ∧ requested = [])
    (hrespond : ∀ before response, P before (.respond response) → ∀ prompt,
      openPrompt before = some prompt → prompt.kind ∉ later → response ≠ .accept →
      requests before = []) (before : List (FlashEvent φ β)) (prompt : FlashPromptStep)
    (response : FlashPromptResponse) (after : List (FlashEvent φ β))
    (hl : events = before ++ .respond response :: after) (hopen : openPrompt before = some prompt)
    (hkind : prompt.kind ∉ later) (hne : response ≠ .accept) :
    requests events = [] ∧ ∀ files step requested,
      .next files step requested ∈ after → step = .completed ⟨.cancelled, none, none⟩ := by
  have hafter : ∀ files step requested, .next files step requested ∈ after →
      step = .completed ⟨.cancelled, none, none⟩ ∧ requested = [] := by
    intro files step requested hmem
    obtain ⟨a, b, rfl⟩ := List.append_of_mem hmem
    have hallowed := heach (before ++ .respond response :: a) (.next files step requested) b
      (by simp [hl])
    exact hnext _ files step requested hallowed (not_accepted hopen hkind hne a)
  refine ⟨?_, fun files step requested hmem => (hafter files step requested hmem).1⟩
  rw [hl]
  refine requests_eq_nil ?_ fun files step requested hmem => (hafter files step requested hmem).2
  exact hrespond before response (heach before (.respond response) after hl) prompt hopen hkind hne

end Ledger

/-! ### After a failure -/

section AfterFailure

variable {φ β : Type} {events : List (FlashEvent φ β)}
  {P Q : FlashAttemptResult → List (FlashEvent φ β) → Prop}

/-- The property holds of every result of an attempt that failed and the calls after it. -/
def AfterFailure (P : FlashAttemptResult → List (FlashEvent φ β) → Prop)
    (events : List (FlashEvent φ β)) : Prop :=
  Since (fun event after => ∀ result, event = .finish result → result.success = false →
    P result after) events

/-- No attempt has failed. -/
def NoFailure (events : List (FlashEvent φ β)) : Prop := AfterFailure (fun _ _ => False) events

theorem NoFailure.nil : NoFailure ([] : List (FlashEvent φ β)) := Since.nil

theorem AfterFailure.mono (h : AfterFailure P events)
    (hPQ : ∀ result after, P result after → Q result after) : AfterFailure Q events :=
  Since.mono h fun _ _ h result he hfail => hPQ result _ (h result he hfail)

theorem AfterFailure.concat {event : FlashEvent φ β} (h : AfterFailure P events)
    (hevent : ∀ result, event ≠ .finish result)
    (hPQ : ∀ result after, P result after → Q result (after ++ [event])) :
    AfterFailure Q (events ++ [event]) := by
  refine Since.concat ?_ (fun result he => absurd he (hevent result))
  exact Since.mono h fun _ after h result he hfail => hPQ result after (h result he hfail)

theorem NoFailure.concat {event : FlashEvent φ β} (h : NoFailure events)
    (hevent : ∀ result, event = .finish result → result.success) : NoFailure (events ++ [event]) := by
  refine Since.concat ?_ (fun result he hfail => ?_)
  · exact Since.mono h fun _ _ h result he hfail => h result he hfail
  · rw [hevent result he] at hfail
    cases hfail

theorem NoFailure.finish {result : FlashAttemptResult} (h : NoFailure events)
    (hP : result.success = false → P result []) : AfterFailure P (events ++ [.finish result]) := by
  refine Since.concat ?_ (fun result he hfail => ?_)
  · exact Since.mono h fun _ _ h result he hfail => (h result he hfail).elim
  · cases he
    exact hP hfail

end AfterFailure

section Notice

variable {φ β : Type} {events : List (FlashEvent φ β)}

/-- The notice has not been shown. -/
def NoNotice (events : List (FlashEvent φ β)) : Prop :=
  ∀ files prompt requested, .next files (.prompt prompt) requested ∈ events →
    prompt.kind ≠ .removeProgrammingVoltage

/-- The step reports a result that is no success: that it was cancelled, or its error. -/
def Reports (result : FlashAttemptResult) : FlashWorkflowStep β → Prop
  | .completed step => result.errorKind = .cancelled ∧ step.outcome = .cancelled
  | .failure error => result.errorKind ≠ .cancelled ∧ error.kind = result.errorKind
  | _ => False

/-- The outcome is that of a result that is no success, whether it has been given or not. -/
def FlashAttemptOutcome.Of (result : FlashAttemptResult) (o : FlashAttemptOutcome) : Prop :=
  (result.errorKind = .cancelled ∧ o.failure = none ∧ o.terminal ∧ o.outcome = .cancelled) ∨
    (result.errorKind ≠ .cancelled ∧ ∃ detail, o.failure = some ⟨result.errorKind, detail⟩)

/-- The step that a failed attempt needs: the notice, and its outcome when that has been answered. -/
def Warned (notice : FlashAttemptResult → FlashPromptStep) (step : FlashWorkflowStep β)
    (result : FlashAttemptResult) (after : List (FlashEvent φ β)) : Prop :=
  (responses after = [] → step = .prompt (notice result)) ∧
    (responses after ≠ [] → Reports result step)

/-- When an attempt has failed, the notice is shown once before its outcome: not before the result, then
until it is answered, and not after that. -/
def NoticeOnce (notice : FlashAttemptResult → FlashPromptStep) (events : List (FlashEvent φ β)) :
    Prop :=
  ∀ before result after, events = before ++ .finish result :: after → result.success = false →
    NoNotice before ∧ ∀ between files step requested rest,
      after = between ++ .next files step requested :: rest → Warned notice step result between

theorem NoNotice.nil : NoNotice ([] : List (FlashEvent φ β)) := by
  intro files prompt requested h
  cases h

theorem NoNotice.concat {event : FlashEvent φ β} (h : NoNotice events)
    (hevent : ∀ files prompt requested, event = .next files (.prompt prompt) requested →
      prompt.kind ≠ .removeProgrammingVoltage) : NoNotice (events ++ [event]) := by
  intro files prompt requested hmem
  rcases List.mem_append.1 hmem with hmem | hmem
  · exact h files prompt requested hmem
  · exact hevent files prompt requested (List.mem_singleton.1 hmem).symm

theorem Reports.isOutcome {result : FlashAttemptResult} {step : FlashWorkflowStep β}
    (h : Reports result step) : step.isOutcome := by
  cases step with
  | prompt p => cases h
  | attempt plan executor => cases h
  | completed c => rfl
  | failure e => rfl

theorem FlashAttemptOutcome.of_record {result : FlashAttemptResult} (h : result.success = false) :
    Of result (({} : FlashAttemptOutcome).record result) := by
  by_cases hkind : result.errorKind = .cancelled
  · exact .inl ⟨hkind, by simp [record, h, hkind, cancel], by simp [record, h, hkind, cancel],
      by simp [record, h, hkind, cancel]⟩
  · exact .inr ⟨hkind, result.errorDetail, by simp [record, h, hkind, fail]⟩

/-- The outcome of a failed result is given each time it is asked for. -/
theorem FlashAttemptOutcome.Of.finishedStep {result : FlashAttemptResult} {o : FlashAttemptOutcome}
    (h : Of result o) : ∃ (step : FlashWorkflowStep β) (o' : FlashAttemptOutcome),
      o.finishedStep = (some step, o') ∧ Reports result step ∧ Of result o' := by
  rcases h with ⟨hkind, hnone, hterminal, houtcome⟩ | ⟨hkind, detail, hsome⟩
  · refine ⟨.completed o.completedStep.1, o.completedStep.2, ?_, ⟨hkind, houtcome⟩,
      .inl ⟨hkind, hnone, hterminal, houtcome⟩⟩
    simp [FlashAttemptOutcome.finishedStep, hnone, hterminal]
  · refine ⟨.failure ⟨result.errorKind, detail⟩, { o with failure := some ⟨result.errorKind, ""⟩ }, ?_,
      ⟨hkind, rfl⟩, .inr ⟨hkind, "", rfl⟩⟩
    simp [FlashAttemptOutcome.finishedStep, hsome]

/-- The notice of a failure, from what each call may give. -/
theorem noticeOnce_of_each {P : List (FlashEvent φ β) → FlashEvent φ β → Prop}
    {notice : FlashAttemptResult → FlashPromptStep} (heach : Each P events)
    (hnext : ∀ before files step requested, P before (.next files step requested) →
      AfterFailure (Warned notice step) before)
    (hfinish : ∀ before result, P before (.finish result) → result.success = false →
      NoNotice before) : NoticeOnce notice events := by
  intro before result after hl hfail
  refine ⟨hfinish before result (heach before _ after hl) hfail, ?_⟩
  intro between files step requested rest hafter
  have hallowed := heach (before ++ .finish result :: between) (.next files step requested) rest
    (by simp [hl, hafter])
  exact hnext _ files step requested hallowed before (.finish result) between rfl result rfl hfail

end Notice

/-! ### The workflow -/

/-- What the constructor of `SubaruUnisiaJecsM32rKlineWorkflow` is given: the operation, and the plan that
`BuildSubaruUnisiaJecsM32rKlinePlan` builds for the request. -/
structure KlineRequest (β : Type) where
  operation : FlashOperation
  plan : Except Error (FlashPlan β)

/-- `is_write_`. -/
def KlineRequest.isWrite {β : Type} (request : KlineRequest β) : Bool := request.operation = .write

/-- `needs_vpp_`. -/
def KlineRequest.needsVpp {β : Type} (request : KlineRequest β) : Bool :=
  match request.plan with
  | .ok plan => plan.confirmations.any fun spec => spec.id = .applyProgrammingVoltage
  | .error _ => false

namespace Kline

/-- `SubaruUnisiaJecsM32rKlineWorkflow::Stage`. -/
inductive Stage
  | begin
  | applyVpp
  | attempt
  | removeVpp
  | done
deriving DecidableEq, Repr

/-- The fields of `SubaruUnisiaJecsM32rKlineWorkflow` that change. -/
structure State where
  stage : Stage := .begin
  attemptOutcome : String := ""
  outcome : FlashAttemptOutcome := {}

variable {φ β : Type} (request : KlineRequest β)

/-- The notice after an attempt. -/
def removeVppPrompt (attemptOutcome : String) : FlashPromptStep :=
  ⟨.removeProgrammingVoltage,
    [("outcome", attemptOutcome), ("external_vpp", if request.needsVpp then "yes" else "no")]⟩

/-- The prompt of `kApplyVpp`. -/
def applyVppPrompt : FlashPromptStep := ⟨.applyProgrammingVoltage, []⟩

/-- `SubaruUnisiaJecsM32rKlineWorkflow::Next` once the plan is there. -/
def nextPlanned (plan : FlashPlan β) (s : State) : NextResult State β :=
  if s.stage = .removeVpp then
    { step := .prompt (removeVppPrompt request s.attemptOutcome), state := s }
  else
    match s.outcome.finishedStep with
    | (some step, outcome) => { step, state := { s with outcome } }
    | (none, _) =>
      match s.stage with
      | .begin => { step := .prompt beginPrompt, state := s }
      | .applyVpp => { step := .prompt applyVppPrompt, state := s }
      | .attempt =>
        { step := .attempt plan .kline, requested := [.kline], state := { s with stage := .done } }
      | _ =>
        { step := .completed s.outcome.completedStep.1
          state := { s with outcome := s.outcome.completedStep.2 } }

/-- `SubaruUnisiaJecsM32rKlineWorkflow::Next`. -/
def next (_files : φ) (s : State) : NextResult State β :=
  match request.plan with
  | .error e => { step := .failure e, state := s }
  | .ok plan => nextPlanned request plan s

/-- `SubaruUnisiaJecsM32rKlineWorkflow::Submit` of a response. -/
def respond (response : FlashPromptResponse) (s : State) : State :=
  match s.stage with
  | .begin =>
    if response ≠ .accept then { s with outcome := s.outcome.cancel }
    else { s with stage := if request.needsVpp then .applyVpp else .attempt }
  | .applyVpp =>
    if response ≠ .accept then { s with outcome := s.outcome.cancel }
    else { s with stage := .attempt }
  | .removeVpp => { s with stage := .done }
  | .attempt => s
  | .done => s

/-- `SubaruUnisiaJecsM32rKlineWorkflow::Submit` of a result. -/
def finish (result : FlashAttemptResult) (s : State) : State :=
  let s :=
    if request.isWrite ∧ (request.needsVpp ∨ ¬result.success) then
      { s with attemptOutcome := attemptOutcomeName result, stage := .removeVpp }
    else s
  { s with outcome := s.outcome.record result }

/-- `SubaruUnisiaJecsM32rKlineWorkflow`. -/
def workflow : FlashWorkflow State φ β where
  initial := {}
  next := next request
  respond := respond request
  finish := finish request

/-! ### Phases -/

/-- The prompts before the attempt. -/
def confirmed : List FlashPromptStep :=
  if request.needsVpp then [beginPrompt, applyVppPrompt] else [beginPrompt]

/-- The stage when the first of them have been accepted. -/
def askingStage (accepted : ℕ) : Stage :=
  match accepted with
  | 0 => .begin
  | 1 => if request.needsVpp then .applyVpp else .attempt
  | _ => .attempt

/-- The kinds of the prompts after the attempt. -/
def later : List FlashPromptKind := [.removeProgrammingVoltage]

/-- Where the workflow is after a sequence of calls. -/
inductive Phase : List (FlashEvent φ β) → State → Prop
  /-- The plan could not be built. -/
  | failed {events : List (FlashEvent φ β)} {s : State} (e : Error) (hplan : request.plan = .error e)
      (hall : ∀ event ∈ events, ∃ files, event = .next files (.failure e) []) : Phase events s
  /-- The first of the prompts have been accepted. -/
  | asking {events : List (FlashEvent φ β)} (plan : FlashPlan β) (accepted : ℕ)
      (prompt : Option FlashPromptStep) (hplan : request.plan = .ok plan)
      (hle : accepted ≤ (confirmed request).length)
      (hprompt : ∀ p, prompt = some p → (confirmed request)[accepted]? = some p)
      (hledger : ledger events = {
        prompt
        answered := ((confirmed request).take accepted).map fun p => (some p, .accept) })
      (hfailure : NoFailure events) (hnotice : NoNotice events) :
      Phase events ⟨askingStage request accepted, "", {}⟩
  /-- A prompt has not been accepted. -/
  | cancelled {events : List (FlashEvent φ β)} {s : State} (plan : FlashPlan β)
      (hplan : request.plan = .ok plan) (hstage : s.stage ≠ .removeVpp)
      (houtcome : s.outcome = FlashAttemptOutcome.cancel {})
      (hledger : ledger events = { answered := answered events })
      (hfailure : NoFailure events) : Phase events s
  /-- The attempt is bound, and its result is not there. -/
  | bound {events : List (FlashEvent φ β)} (plan : FlashPlan β) (hplan : request.plan = .ok plan)
      (hledger : ledger events = {
        attempt := some .kline
        answered := (confirmed request).map fun p => (some p, .accept)
        requests := [.kline]
        attempts := [(plan, .kline)] })
      (hfailure : NoFailure events) (hnotice : NoNotice events) : Phase events ⟨.done, "", {}⟩
  /-- The notice is due. -/
  | notice {events : List (FlashEvent φ β)} {s : State} (plan : FlashPlan β)
      (prompt : Option FlashPromptStep)
      (answered : List (Option FlashPromptStep × FlashPromptResponse))
      (hplan : request.plan = .ok plan) (hstage : s.stage = .removeVpp)
      (hprompt : ∀ p, prompt = some p → p.kind ∈ later)
      (hanswered : Accepted later answered)
      (hledger : ledger events = {
        prompt, answered, requests := [.kline], attempts := [(plan, .kline)] })
      (hafter : AfterFailure (fun result after => responses after = [] ∧ s.outcome.Of result ∧
        s.attemptOutcome = attemptOutcomeName result) events) : Phase events s
  /-- The outcome is given. -/
  | settled {events : List (FlashEvent φ β)} {s : State} (plan : FlashPlan β)
      (answered : List (Option FlashPromptStep × FlashPromptResponse))
      (hplan : request.plan = .ok plan) (hstage : s.stage = .done)
      (hanswered : Accepted later answered)
      (hledger : ledger events = { answered, requests := [.kline], attempts := [(plan, .kline)] })
      (hafter : request.isWrite → AfterFailure (fun result after => responses after ≠ [] ∧
        s.outcome.Of result) events) : Phase events s

/-- What `Next` may give after the calls before it. -/
structure AllowedNext (before : List (FlashEvent φ β)) (step : FlashWorkflowStep β)
    (requested : List TransportKind) : Prop where
  cancelled : ¬Accepted later (answered before) → step = .completed ⟨.cancelled, none, none⟩
  attempt : ∀ plan executor, step = .attempt plan executor → request.plan = .ok plan ∧
    attempts before = [] ∧ answered before = (confirmed request).map fun p => (some p, .accept)
  quiet : (∀ plan executor, step ≠ .attempt plan executor) → requested = []
  warned : request.isWrite → AfterFailure
    (Warned (fun result => removeVppPrompt request (attemptOutcomeName result)) step) before

/-- What a call may give after those before it. -/
def Allowed (before : List (FlashEvent φ β)) : FlashEvent φ β → Prop
  | .next _ step requested => AllowedNext request before step requested
  | .respond response => ∀ prompt, openPrompt before = some prompt →
      prompt.kind ∉ later → response ≠ .accept → requests before = []
  | .finish result => request.isWrite → result.success = false → NoNotice before

/-! ### Every interleaving -/

variable {request} {events : List (FlashEvent φ β)} {s : State}

/-- When all prompts have been accepted, nothing but the notice of a failure is left to show. -/
theorem AllowedNext.of_accepted {step : FlashWorkflowStep β} (haccepted : Accepted later (answered events))
    (hattempt : ∀ plan executor, step ≠ .attempt plan executor)
    (hwarned : request.isWrite → AfterFailure
      (Warned (fun result => removeVppPrompt request (attemptOutcomeName result)) step) events) :
    AllowedNext request events step [] where
  cancelled h := absurd haccepted h
  attempt plan executor h := absurd h (hattempt plan executor)
  quiet _ := rfl
  warned := hwarned

theorem AllowedNext.cancelled_quiet {step : FlashWorkflowStep β} {requested : List TransportKind}
    (h : AllowedNext request events step requested) (hrejected : ¬Accepted later (answered events)) :
    step = .completed ⟨.cancelled, none, none⟩ ∧ requested = [] := by
  have hstep := h.cancelled hrejected
  refine ⟨hstep, h.quiet ?_⟩
  intro plan executor heq
  rw [heq] at hstep
  cases hstep

/-- The stage before the attempt, by the prompt that is due. -/
theorem askingStage_cases {accepted : ℕ} (hle : accepted ≤ (confirmed request).length) :
    (askingStage request accepted = .begin ∧ (confirmed request)[accepted]? = some beginPrompt) ∨
    (askingStage request accepted = .applyVpp ∧
      (confirmed request)[accepted]? = some applyVppPrompt) ∨
    (askingStage request accepted = .attempt ∧ accepted = (confirmed request).length) := by
  simp only [confirmed] at hle ⊢
  by_cases hvpp : request.needsVpp
  · simp only [hvpp, if_true, askingStage] at hle ⊢
    match accepted, hle with
    | 0, _ => exact .inl ⟨rfl, rfl⟩
    | 1, _ => exact .inr (.inl ⟨rfl, rfl⟩)
    | 2, _ => exact .inr (.inr ⟨rfl, rfl⟩)
  · simp only [hvpp, askingStage] at hle ⊢
    match accepted, hle with
    | 0, _ => exact .inl ⟨rfl, rfl⟩
    | 1, _ => exact .inr (.inr ⟨rfl, rfl⟩)

/-- An acceptance moves to the next stage. -/
theorem respond_accept {accepted : ℕ} {p : FlashPromptStep}
    (hprompt : (confirmed request)[accepted]? = some p) :
    respond request .accept ⟨askingStage request accepted, "", {}⟩ =
      ⟨askingStage request (accepted + 1), "", {}⟩ := by
  simp only [confirmed] at hprompt
  by_cases hvpp : request.needsVpp
  · simp only [hvpp, if_true] at hprompt
    match accepted, hprompt with
    | 0, _ => simp [respond, askingStage, hvpp]
    | 1, _ => simp [respond, askingStage, hvpp]
  · simp only [hvpp] at hprompt
    match accepted, hprompt with
    | 0, _ => simp [respond, askingStage, hvpp]

theorem kind_of_confirmed {accepted : ℕ} {p : FlashPromptStep}
    (hprompt : (confirmed request)[accepted]? = some p) : p.kind ≠ .removeProgrammingVoltage := by
  have hmem := List.mem_of_getElem? hprompt
  rw [confirmed] at hmem
  split at hmem
  · simp only [List.mem_cons, List.not_mem_nil, or_false] at hmem
    rcases hmem with rfl | rfl
    · decide
    · decide
  · cases List.mem_singleton.1 hmem
    decide

/-- `Next` while no attempt has been bound. -/
theorem asking_next {plan : FlashPlan β} {accepted : ℕ} {prompt : Option FlashPromptStep}
    (files : φ) (hplan : request.plan = .ok plan) (hle : accepted ≤ (confirmed request).length)
    (hledger : ledger events = {
      prompt
      answered := ((confirmed request).take accepted).map fun p => (some p, .accept) })
    (hfailure : NoFailure events) (hnotice : NoNotice events) :
    let r := nextPlanned request plan ⟨askingStage request accepted, "", {}⟩
    AllowedNext request events r.step r.requested ∧
      Phase request (events ++ [.next files r.step r.requested]) r.state := by
  intro r
  have haccepted : Accepted later (answered events) := by
    rw [answered_eq hledger]
    exact accepted_map _ _
  have hwarned (step : FlashWorkflowStep β) : request.isWrite → AfterFailure
      (Warned (fun result => removeVppPrompt request (attemptOutcomeName result)) step) events :=
    fun _ => hfailure.mono fun _ _ h => h.elim
  have hask {p : FlashPromptStep} (hget : (confirmed request)[accepted]? = some p)
      (hr : r = { step := .prompt p, state := ⟨askingStage request accepted, "", {}⟩ }) :
      AllowedNext request events r.step r.requested ∧
        Phase request (events ++ [.next files r.step r.requested]) r.state := by
    rw [hr]
    refine ⟨.of_accepted haccepted (fun _ _ h => (by cases h)) (hwarned _), ?_⟩
    refine .asking plan accepted (some p) hplan hle ?_ ?_ (hfailure.concat (fun _ h => (by cases h)))
      (hnotice.concat ?_)
    · rintro _ ⟨⟩
      exact hget
    · rw [ledger_concat, hledger]
      rfl
    · intro _ _ _ heq
      cases heq
      exact kind_of_confirmed hget
  rcases askingStage_cases hle with ⟨hstage, hget⟩ | ⟨hstage, hget⟩ | ⟨hstage, hlen⟩
  · refine hask hget ?_
    simp [r, nextPlanned, hstage, FlashAttemptOutcome.finishedStep]
  · refine hask hget ?_
    simp [r, nextPlanned, hstage, FlashAttemptOutcome.finishedStep]
  · have hr : r = {
        step := .attempt plan .kline
        requested := [.kline]
        state := ⟨.done, "", {}⟩ } := by
      simp [r, nextPlanned, hstage, FlashAttemptOutcome.finishedStep]
    rw [hlen, List.take_length] at hledger
    rw [hr]
    refine ⟨⟨fun h => absurd haccepted h, ?_, fun h => absurd rfl (h plan .kline), hwarned _⟩, ?_⟩
    · intro _ _ heq
      cases heq
      exact ⟨hplan, attempts_eq hledger, answered_eq hledger⟩
    · refine .bound plan hplan ?_ (hfailure.concat (fun _ h => (by cases h)))
        (hnotice.concat (fun _ _ _ h => (by cases h)))
      rw [ledger_concat, hledger]
      rfl

theorem nextPlanned_done (request : KlineRequest β) (plan : FlashPlan β) (h : s.stage = .done) :
    ∃ step outcome, nextPlanned request plan s = { step, state := { s with outcome } } ∧
      step.isOutcome ∧ ∀ result, s.outcome.Of result → Reports result step ∧ outcome.Of result := by
  simp only [nextPlanned, h, reduceCtorEq, if_false]
  rcases hfinished : (s.outcome.finishedStep : Option (FlashWorkflowStep β) × _) with
    ⟨finished, outcome⟩
  cases finished with
  | some step =>
    refine ⟨step, outcome, rfl, s.outcome.isOutcome_finishedStep hfinished, fun result hof => ?_⟩
    obtain ⟨step', outcome', heq, hreports, hof'⟩ := hof.finishedStep (β := β)
    rw [hfinished] at heq
    cases heq
    exact ⟨hreports, hof'⟩
  | none =>
    refine ⟨_, _, rfl, rfl, fun result hof => ?_⟩
    obtain ⟨step', outcome', heq, -⟩ := hof.finishedStep (β := β)
    rw [hfinished] at heq
    cases heq

/-- `Next` in every phase. -/
theorem Phase.next (h : Phase request events s) (files : φ) :
    let r := Kline.next request files s
    AllowedNext request events r.step r.requested ∧
      Phase request (events ++ [.next files r.step r.requested]) r.state := by
  cases h with
  | failed e hplan hall =>
    simp only [Kline.next, hplan]
    have hledger := ledger_of_failures hall
    refine ⟨.of_accepted ?_ (fun _ _ h => nomatch h) ?_, .failed e hplan ?_⟩
    · rw [answered_eq hledger]
      exact accepted_map _ []
    · intro _ before event after hl result heq
      obtain ⟨files, hevent⟩ := hall event (by simp [hl])
      rw [hevent] at heq
      cases heq
    · intro event hmem
      rcases List.mem_append.1 hmem with hmem | hmem
      · exact hall event hmem
      · exact ⟨files, List.mem_singleton.1 hmem⟩
  | asking plan accepted prompt hplan hle hprompt hledger hfailure hnotice =>
    simp only [Kline.next, hplan]
    exact asking_next files hplan hle hledger hfailure hnotice
  | cancelled plan hplan hstage houtcome hledger hfailure =>
    obtain ⟨stage, attemptOutcome, outcome⟩ := s
    simp only at hstage houtcome
    subst houtcome
    have hr : nextPlanned request plan ⟨stage, attemptOutcome, FlashAttemptOutcome.cancel {}⟩ = {
        step := .completed ⟨.cancelled, none, none⟩
        state := ⟨stage, attemptOutcome, FlashAttemptOutcome.cancel {}⟩ } := by
      rw [nextPlanned, if_neg hstage]
      rfl
    simp only [Kline.next, hplan, hr]
    refine ⟨⟨fun _ => rfl, fun _ _ h => (nomatch h), fun _ => rfl, fun _ =>
      hfailure.mono fun _ _ h => h.elim⟩, ?_⟩
    refine .cancelled plan hplan hstage rfl ?_ (hfailure.concat (fun _ h => nomatch h))
    rw [ledger_concat, hledger, answered_concat]
    simp [Ledger.after]
  | bound plan hplan hledger hfailure hnotice =>
    have hr : nextPlanned request plan ⟨.done, "", {}⟩ =
        { step := .completed ⟨.failed, none, none⟩, state := ⟨.done, "", {}⟩ } := rfl
    simp only [Kline.next, hplan, hr]
    refine ⟨.of_accepted ?_ (fun _ _ h => nomatch h) (fun _ => hfailure.mono fun _ _ h => h.elim), ?_⟩
    · rw [answered_eq hledger]
      exact accepted_map _ _
    · refine .bound plan hplan ?_ (hfailure.concat (fun _ h => nomatch h))
        (hnotice.concat (fun _ _ _ h => nomatch h))
      rw [ledger_concat, hledger]
      rfl
  | notice plan prompt answered hplan hstage hprompt hanswered hledger hafter =>
    simp only [Kline.next, hplan, nextPlanned, hstage, if_true]
    refine ⟨.of_accepted ?_ (fun _ _ h => nomatch h) (fun _ => ?_), ?_⟩
    · rw [answered_eq hledger]
      exact hanswered
    · refine hafter.mono fun result after h => ⟨fun _ => ?_, fun hne => absurd h.1 hne⟩
      rw [h.2.2]
    · refine .notice plan (some (removeVppPrompt request s.attemptOutcome)) answered hplan hstage ?_
        hanswered ?_ (hafter.concat (fun _ h => nomatch h) ?_)
      · rintro _ ⟨⟩
        exact List.mem_singleton_self _
      · rw [ledger_concat, hledger]
        rfl
      · intro result after h
        rw [responses_concat_next]
        exact h
  | settled plan answered hplan hstage hanswered hledger hafter =>
    obtain ⟨step, outcome, hr, houtcome, hof⟩ := nextPlanned_done request plan hstage
    simp only [Kline.next, hplan, hr]
    refine ⟨.of_accepted ?_ ?_ (fun hwrite => ?_), ?_⟩
    · rw [answered_eq hledger]
      exact hanswered
    · rintro plan executor rfl
      cases houtcome
    · exact (hafter hwrite).mono fun result after h =>
        ⟨fun hnone => absurd hnone h.1, fun _ => (hof result h.2).1⟩
    · refine .settled plan answered hplan hstage hanswered ?_ fun hwrite =>
        (hafter hwrite).concat (fun _ h => nomatch h) ?_
      · rw [ledger_concat, hledger, Ledger.after_outcome houtcome]
      · intro result after h
        rw [responses_concat_next]
        exact ⟨h.1, (hof result h.2).2⟩

/-- A response in every phase in which a prompt is open. -/
theorem Phase.respond (h : Phase request events s) (response : FlashPromptResponse)
    (hopen : (openPrompt events).isSome) :
    Allowed request events (.respond response) ∧
      Phase request (events ++ [.respond response]) (Kline.respond request response s) := by
  cases h with
  | failed e hplan hall =>
    rw [openPrompt_eq (ledger_of_failures hall)] at hopen
    cases hopen
  | asking plan accepted prompt hplan hle hprompt hledger hfailure hnotice =>
    refine ⟨fun _ _ _ _ => requests_eq hledger, ?_⟩
    rw [openPrompt_eq hledger] at hopen
    obtain ⟨p, rfl⟩ := Option.isSome_iff_exists.1 hopen
    have hget := hprompt p rfl
    have hlt : accepted < (confirmed request).length := (List.getElem?_eq_some_iff.1 hget).1
    have hfailure' : NoFailure (events ++ [.respond response]) :=
      hfailure.concat (fun _ h => nomatch h)
    by_cases haccept : response = .accept
    · subst haccept
      rw [respond_accept hget]
      refine .asking plan (accepted + 1) none hplan hlt (fun _ h => nomatch h) ?_ hfailure'
        (hnotice.concat (fun _ _ _ h => nomatch h))
      rw [ledger_concat, hledger, List.take_add_one, hget, List.map_append]
      rfl
    · obtain ⟨stage, hstage, hr⟩ : ∃ stage, stage ≠ Stage.removeVpp ∧
          Kline.respond request response ⟨askingStage request accepted, "", {}⟩ =
            ⟨stage, "", FlashAttemptOutcome.cancel {}⟩ := by
        rcases askingStage_cases hle with ⟨hstage, -⟩ | ⟨hstage, -⟩ | ⟨-, hlen⟩
        · exact ⟨.begin, by decide, by simp [Kline.respond, hstage, haccept]⟩
        · exact ⟨.applyVpp, by decide, by simp [Kline.respond, hstage, haccept]⟩
        · omega
      rw [hr]
      refine .cancelled plan hplan hstage rfl ?_ hfailure'
      rw [ledger_concat, hledger, answered_concat, answered_eq hledger, openPrompt_eq hledger]
      rfl
  | cancelled plan hplan hstage houtcome hledger hfailure =>
    rw [openPrompt_eq hledger] at hopen
    cases hopen
  | bound plan hplan hledger hfailure hnotice =>
    rw [openPrompt_eq hledger] at hopen
    cases hopen
  | notice plan prompt answered hplan hstage hprompt hanswered hledger hafter =>
    refine ⟨fun p hp hkind _ => ?_, ?_⟩
    · rw [openPrompt_eq hledger] at hp
      exact absurd (hprompt p hp) hkind
    · simp only [Kline.respond, hstage]
      refine .settled plan (answered ++ [(prompt, response)]) hplan rfl (hanswered.concat hprompt) ?_
        fun _ => hafter.concat (fun _ h => nomatch h) ?_
      · rw [ledger_concat, hledger]
        rfl
      · intro result after h
        exact ⟨by simp [responses_concat], h.2.1⟩
  | settled plan answered hplan hstage hanswered hledger hafter =>
    rw [openPrompt_eq hledger] at hopen
    cases hopen

/-- A result in every phase in which an attempt is open. -/
theorem Phase.finish (h : Phase request events s) (result : FlashAttemptResult)
    (hopen : (openAttempt events).isSome) :
    Allowed request events (.finish result) ∧
      Phase request (events ++ [.finish result]) (Kline.finish request result s) := by
  cases h with
  | failed e hplan hall =>
    rw [openAttempt_eq (ledger_of_failures hall)] at hopen
    cases hopen
  | asking plan accepted prompt hplan hle hprompt hledger hfailure hnotice =>
    rw [openAttempt_eq hledger] at hopen
    cases hopen
  | cancelled plan hplan hstage houtcome hledger hfailure =>
    rw [openAttempt_eq hledger] at hopen
    cases hopen
  | bound plan hplan hledger hfailure hnotice =>
    refine ⟨fun _ _ => hnotice, ?_⟩
    have hledger' : ledger (events ++ [.finish result]) = {
        answered := (confirmed request).map fun p => (some p, .accept)
        requests := [.kline]
        attempts := [(plan, .kline)] } := by
      rw [ledger_concat, hledger]
      rfl
    by_cases hremove : request.isWrite ∧ (request.needsVpp ∨ ¬result.success)
    · simp only [Kline.finish, hremove, and_self, if_true]
      refine .notice plan none _ hplan rfl (fun _ h => nomatch h) (accepted_map _ _) hledger' ?_
      exact hfailure.finish fun hfail => ⟨rfl, FlashAttemptOutcome.of_record hfail, rfl⟩
    · simp only [Kline.finish, hremove, if_false]
      refine .settled plan _ hplan rfl (accepted_map _ _) hledger' fun hwrite => ?_
      -- a write that failed has its notice first
      exact hfailure.finish fun hfail => absurd ⟨hwrite, .inr (by simp [hfail])⟩ hremove
  | notice plan prompt answered hplan hstage hprompt hanswered hledger hafter =>
    rw [openAttempt_eq hledger] at hopen
    cases hopen
  | settled plan answered hplan hstage hanswered hledger hafter =>
    rw [openAttempt_eq hledger] at hopen
    cases hopen

/-- Every call of every interleaving is allowed. -/
theorem phase_of_interleaving (h : Interleaving (workflow (φ := φ) request) events s) :
    Phase request events s ∧ Each (Allowed request) events := by
  induction h with
  | initial =>
    refine ⟨?_, .nil⟩
    cases hplan : request.plan with
    | error e => exact .failed e hplan fun _ h => nomatch h
    | ok plan =>
      exact .asking plan 0 none hplan (Nat.zero_le _) (fun _ h => nomatch h) rfl .nil .nil
  | next files _ ih =>
    obtain ⟨hphase, heach⟩ := ih
    obtain ⟨hallowed, hnext⟩ := hphase.next files
    exact ⟨hnext, heach.concat hallowed⟩
  | respond response _ hopen ih =>
    obtain ⟨hphase, heach⟩ := ih
    obtain ⟨hallowed, hnext⟩ := hphase.respond response hopen
    exact ⟨hnext, heach.concat hallowed⟩
  | finish result _ hopen ih =>
    obtain ⟨hphase, heach⟩ := ih
    obtain ⟨hallowed, hnext⟩ := hphase.finish result hopen
    exact ⟨hnext, heach.concat hallowed⟩

end Kline

/-- What holds of the calls of the workflow on K-line. -/
structure KlineSpec {φ β : Type} (request : KlineRequest β) (events : List (FlashEvent φ β)) :
    Prop where
  /-- At most one attempt is bound. -/
  once : (attempts events).length ≤ 1
  /-- It is bound with the plan of the request, when `Begin` has been accepted, and the programming
  voltage if the plan asks for it. -/
  bound : ∀ before files plan executor requested after,
    events = before ++ .next files (.attempt plan executor) requested :: after →
    request.plan = .ok plan ∧
      answered before = (Kline.confirmed request).map fun p => (some p, .accept)
  /-- A response that is no acceptance cancels the workflow, and no transport is ever requested. -/
  cancelled : ∀ before prompt response after, events = before ++ .respond response :: after →
    openPrompt before = some prompt → prompt.kind ∉ Kline.later →
    response ≠ .accept → requests events = [] ∧ ∀ files step requested,
      .next files step requested ∈ after → step = .completed ⟨.cancelled, none, none⟩
  /-- If the plan cannot be built, the workflow fails from the first call on. -/
  unprepared : ∀ e, request.plan = .error e → ∀ event ∈ events,
    ∃ files, event = .next files (.failure e) []
  /-- The notice of a write that failed. -/
  notice : request.isWrite →
    NoticeOnce (fun result => Kline.removeVppPrompt request (attemptOutcomeName result)) events

section KlineSpec

open Kline

variable {φ β : Type} {request : KlineRequest β} {events : List (FlashEvent φ β)}

/-- **The workflow on K-line**: every interleaving keeps `KlineSpec`. -/
theorem klineSpec_of_interleaving {s : State} (h : Interleaving (workflow request) events s) :
    KlineSpec request events := by
  obtain ⟨hphase, heach⟩ := phase_of_interleaving h
  exact {
    once := by
      cases hphase with
      | failed e hplan hall => simp [attempts_eq (ledger_of_failures hall)]
      | asking plan accepted prompt hplan hle hprompt hledger => simp [attempts_eq hledger]
      | cancelled plan hplan hstage houtcome hledger => simp [attempts_eq hledger]
      | bound plan hplan hledger => simp [attempts_eq hledger]
      | notice plan prompt answered hplan hstage hprompt hanswered hledger =>
        simp [attempts_eq hledger]
      | settled plan answered hplan hstage hanswered hledger => simp [attempts_eq hledger]
    bound := by
      intro before files plan executor requested after hl
      obtain ⟨hplan, -, hanswered⟩ := (heach before _ after hl).attempt plan executor rfl
      exact ⟨hplan, hanswered⟩
    cancelled := cancelled_of_each heach (fun before files step requested hallowed hrejected =>
      hallowed.cancelled_quiet hrejected) (fun _ _ hallowed => hallowed)
    unprepared := by
      intro e he
      cases hphase with
      | failed e' hplan hall =>
        rw [hplan] at he
        cases he
        exact hall
      | asking plan accepted prompt hplan => cases hplan.symm.trans he
      | cancelled plan hplan => cases hplan.symm.trans he
      | bound plan hplan => cases hplan.symm.trans he
      | notice plan prompt answered hplan => cases hplan.symm.trans he
      | settled plan answered hplan => cases hplan.symm.trans he
    notice := fun hwrite => noticeOnce_of_each heach
      (fun before files step requested hallowed => hallowed.warned hwrite)
      (fun before result hallowed hfail => hallowed hwrite hfail) }

end KlineSpec

end FastEcu.Flash
