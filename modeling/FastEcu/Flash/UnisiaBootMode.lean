import FastEcu.Flash.Unisia

/-!
# The Unisia JECS M32R workflow in boot mode

`SubaruUnisiaJecsM32rBootModeWorkflow` of `src/backend/flash/workflow/flash_workflow.cpp`: a read is one
attempt on K-line, a write two, the upload of the kernel and the programming, with the operator
removing MOD1 between them.

* `BootMode.workflow` : the workflow.
* `bootModeSpec_of_interleaving` : every interleaving keeps `BootModeSpec`.
* `flashWorkflows_spec` : the workflows of all routes but those of the EEPROM.
-/

namespace FastEcu.Flash

open Memory
open Calibration (Error ErrorKind)
open Data

/-! ### The workflow -/

/-- `SubaruUnisiaJecsM32rBootModePlans`. -/
structure BootModePlans (β : Type) where
  first : Option (FlashPlan β) := none
  program : Option (FlashPlan β) := none

/-- The operation, and how `PrepareSubaruUnisiaJecsM32rBootModePlans` builds the plans from the files. -/
structure BootModeRequest (φ β : Type) where
  operation : FlashOperation
  prepare : φ → Except Error (BootModePlans β)

/-- `IsWrite`. -/
def BootModeRequest.isWrite {φ β : Type} (request : BootModeRequest φ β) : Bool :=
  request.operation ≠ .read

namespace BootMode

/-- `SubaruUnisiaJecsM32rBootModeWorkflow::Stage`. -/
inductive Stage
  | begin
  | applyVoltages
  | firstAttempt
  | awaitFirst
  | removeMod1
  | programAttempt
  | awaitProgram
  | notice
  | done
deriving DecidableEq, Repr

/-- The fields of `SubaruUnisiaJecsM32rBootModeWorkflow` that change. -/
structure State (β : Type) where
  built : Option (Except Error (BootModePlans β)) := none
  stage : Stage := .begin
  noticeOutcome : String := ""
  outcome : FlashAttemptOutcome := {}

variable {φ β : Type} (request : BootModeRequest φ β)

/-- The prompt of `kApplyVoltages`. -/
def applyVoltagesPrompt : FlashPromptStep := ⟨.applyBootModeVoltages, []⟩

/-- The prompt of `kRemoveMod1`. -/
def removeMod1Prompt : FlashPromptStep := ⟨.removeMod1, []⟩

/-- The notice. -/
def noticePrompt (outcome : String) : FlashPromptStep :=
  ⟨.removeProgrammingVoltage,
    [("outcome", outcome), ("external_vpp", "yes"), ("power_off_advice", "no")]⟩

/-- The executor of `FirstAttempt`. -/
def firstExecutor : ExecutorKind := if request.isWrite then .bootModeKernel else .kline

/-- `SubaruUnisiaJecsM32rBootModeWorkflow::Next` at the stage, with the plans. -/
def nextStage (plans : BootModePlans β) (s : State β) : NextResult (State β) β :=
  match s.stage with
  | .begin => { step := .prompt beginPrompt, state := s }
  | .applyVoltages => { step := .prompt applyVoltagesPrompt, state := s }
  | .firstAttempt =>
    let s := { s with stage := .awaitFirst }
    match plans.first with
    | none =>
      { step := .failure ⟨.internal, "the Unisia JECS first-stage plan was not built"⟩, state := s }
    | some plan =>
      { step := .attempt plan (firstExecutor request), requested := [.kline], state := s }
  | .removeMod1 => { step := .prompt removeMod1Prompt, state := s }
  | .programAttempt =>
    match plans.program with
    | none =>
      { step := .failure ⟨.internal, "the Unisia JECS program plan was not built"⟩, state := s }
    | some plan =>
      { step := .attempt plan .bootModeProgram
        requested := [.kline]
        state := { s with stage := .awaitProgram } }
  | _ =>
    { step := .completed s.outcome.completedStep.1
      state := { s with outcome := s.outcome.completedStep.2 } }

/-- `SubaruUnisiaJecsM32rBootModeWorkflow::Next` once the plans are there: the rest of
`StepBeforeStage`, and the stage. -/
def nextBuilt (plans : BootModePlans β) (s : State β) : NextResult (State β) β :=
  if s.stage = .notice then { step := .prompt (noticePrompt s.noticeOutcome), state := s }
  else
    match s.outcome.finishedStep with
    | (some step, outcome) => { step, state := { s with outcome } }
    | (none, _) => nextStage request plans s

/-- `SubaruUnisiaJecsM32rBootModeWorkflow::Next`. -/
def next (files : φ) (s : State β) : NextResult (State β) β :=
  let built := s.built.getD (request.prepare files)
  let s := { s with built := some built }
  match built with
  | .error e => { step := .failure e, state := s }
  | .ok plans => nextBuilt request plans s

/-- `SubaruUnisiaJecsM32rBootModeWorkflow::Submit` of a response. -/
def respond (response : FlashPromptResponse) (s : State β) : State β :=
  match s.stage with
  | .begin =>
    if response ≠ .accept then { s with outcome := s.outcome.cancel }
    else { s with stage := if request.isWrite then .applyVoltages else .firstAttempt }
  | .applyVoltages =>
    if response ≠ .accept then { s with outcome := s.outcome.cancel }
    else { s with stage := .firstAttempt }
  | .removeMod1 =>
    if response ≠ .accept then
      { s with noticeOutcome := "cancelled", stage := .notice, outcome := s.outcome.cancel }
    else { s with stage := .programAttempt }
  | .notice => { s with stage := .done }
  | .firstAttempt => s
  | .awaitFirst => s
  | .programAttempt => s
  | .awaitProgram => s
  | .done => s

/-- `SubaruUnisiaJecsM32rBootModeWorkflow::Submit` of a result. -/
def finish (result : FlashAttemptResult) (s : State β) : State β :=
  if ¬request.isWrite then { s with outcome := s.outcome.record result }
  else if s.stage = .awaitFirst ∧ result.success then { s with stage := .removeMod1 }
  else
    { s with
      noticeOutcome := attemptOutcomeName result
      stage := .notice
      outcome := s.outcome.record result }

/-- `SubaruUnisiaJecsM32rBootModeWorkflow`. -/
def workflow : FlashWorkflow (State β) φ β where
  initial := {}
  next := next request
  respond := respond request
  finish := finish request

/-! ### Phases -/

/-- The prompts before the first attempt. -/
def confirmed : List FlashPromptStep :=
  if request.isWrite then [beginPrompt, applyVoltagesPrompt] else [beginPrompt]

/-- The stage when the first of them have been accepted. -/
def askingStage (accepted : ℕ) : Stage :=
  match accepted with
  | 0 => .begin
  | 1 => if request.isWrite then .applyVoltages else .firstAttempt
  | _ => .firstAttempt

/-- The kinds of the prompts after the first attempt. -/
def later : List FlashPromptKind := [.removeProgrammingVoltage, .removeMod1]

/-- The answers when the prompts before the first attempt have been accepted. -/
def confirmations : List (Option FlashPromptStep × FlashPromptResponse) :=
  (confirmed request).map fun p => (some p, .accept)

/-- The attempts that the plans allow, the first one first. -/
def Bound (plans : BootModePlans β) (attempts : List (FlashPlan β × ExecutorKind)) : Prop :=
  attempts = [] ∨ ∃ first, plans.first = some first ∧
    (attempts = [(first, firstExecutor request)] ∨ ∃ program, plans.program = some program ∧
      attempts = [(first, firstExecutor request), (program, .bootModeProgram)])

/-- The kernel has been uploaded: it was the first attempt, with all confirmations, and its result was
a success. -/
def Uploaded (events : List (FlashEvent φ β)) : Prop :=
  ∃ before result after first, events = before ++ .finish result :: after ∧ result.success ∧
    attempts before = [(first, .bootModeKernel)] ∧ answered before = confirmations request

/-- Where the workflow is after a sequence of calls. -/
inductive Phase : List (FlashEvent φ β) → State β → Prop
  /-- Nothing has been called. -/
  | fresh : Phase [] {}
  /-- The plans could not be built. -/
  | failed {events : List (FlashEvent φ β)} {s : State β} (e : Error)
      (hbuilt : Prepared request.prepare events (.error e)) (hs : s.built = some (.error e))
      (hall : ∀ event ∈ events, ∃ files, event = .next files (.failure e) []) : Phase events s
  /-- The first of the prompts have been accepted. -/
  | asking {events : List (FlashEvent φ β)} (plans : BootModePlans β) (accepted : ℕ)
      (prompt : Option FlashPromptStep) (hbuilt : Prepared request.prepare events (.ok plans))
      (hle : accepted ≤ (confirmed request).length)
      (hprompt : ∀ p, prompt = some p → (confirmed request)[accepted]? = some p)
      (hledger : ledger events = {
        prompt
        answered := ((confirmed request).take accepted).map fun p => (some p, .accept) })
      (hfailure : NoFailure events) (hnotice : NoNotice events) :
      Phase events ⟨some (.ok plans), askingStage request accepted, "", {}⟩
  /-- A prompt before the first attempt has not been accepted. -/
  | cancelled {events : List (FlashEvent φ β)} {s : State β} (plans : BootModePlans β)
      (hbuilt : Prepared request.prepare events (.ok plans)) (hs : s.built = some (.ok plans))
      (hstage : s.stage ≠ .notice) (houtcome : s.outcome = FlashAttemptOutcome.cancel {})
      (hledger : ledger events = { answered := answered events })
      (hfailure : NoFailure events) : Phase events s
  /-- There is no first plan, or the first attempt is bound and its result is not there. -/
  | awaitFirst {events : List (FlashEvent φ β)} (plans : BootModePlans β)
      (attempt : Option ExecutorKind) (requests : List TransportKind)
      (attempts : List (FlashPlan β × ExecutorKind))
      (hbuilt : Prepared request.prepare events (.ok plans))
      (hattempt : attempt = none ∧ attempts = [] ∨
        ∃ first, plans.first = some first ∧ attempts = [(first, firstExecutor request)])
      (hledger : ledger events = { attempt, answered := confirmations request, requests, attempts })
      (hfailure : NoFailure events) (hnotice : NoNotice events) :
      Phase events ⟨some (.ok plans), .awaitFirst, "", {}⟩
  /-- The kernel has been uploaded. -/
  | removeMod1 {events : List (FlashEvent φ β)} (plans : BootModePlans β)
      (prompt : Option FlashPromptStep) (requests : List TransportKind) (first : FlashPlan β)
      (hbuilt : Prepared request.prepare events (.ok plans)) (hfirst : plans.first = some first)
      (hprompt : ∀ p, prompt = some p → p = removeMod1Prompt)
      (hledger : ledger events = {
        prompt
        answered := confirmations request
        requests
        attempts := [(first, firstExecutor request)] })
      (huploaded : Uploaded request events) (hfailure : NoFailure events)
      (hnotice : NoNotice events) : Phase events ⟨some (.ok plans), .removeMod1, "", {}⟩
  /-- MOD1 has been removed. -/
  | programAttempt {events : List (FlashEvent φ β)} (plans : BootModePlans β)
      (requests : List TransportKind) (first : FlashPlan β)
      (hbuilt : Prepared request.prepare events (.ok plans)) (hfirst : plans.first = some first)
      (hledger : ledger events = {
        answered := confirmations request ++ [(some removeMod1Prompt, .accept)]
        requests
        attempts := [(first, firstExecutor request)] })
      (huploaded : Uploaded request events) (hfailure : NoFailure events)
      (hnotice : NoNotice events) : Phase events ⟨some (.ok plans), .programAttempt, "", {}⟩
  /-- The program attempt is bound, and its result is not there. -/
  | awaitProgram {events : List (FlashEvent φ β)} (plans : BootModePlans β)
      (requests : List TransportKind) (first program : FlashPlan β)
      (hbuilt : Prepared request.prepare events (.ok plans)) (hfirst : plans.first = some first)
      (hprogram : plans.program = some program)
      (hledger : ledger events = {
        attempt := some .bootModeProgram
        answered := confirmations request ++ [(some removeMod1Prompt, .accept)]
        requests
        attempts := [(first, firstExecutor request), (program, .bootModeProgram)] })
      (hfailure : NoFailure events) (hnotice : NoNotice events) :
      Phase events ⟨some (.ok plans), .awaitProgram, "", {}⟩
  /-- The notice is due. -/
  | notice {events : List (FlashEvent φ β)} {s : State β} (plans : BootModePlans β)
      (prompt : Option FlashPromptStep)
      (answered : List (Option FlashPromptStep × FlashPromptResponse))
      (requests : List TransportKind) (attempts : List (FlashPlan β × ExecutorKind))
      (hbuilt : Prepared request.prepare events (.ok plans)) (hs : s.built = some (.ok plans))
      (hstage : s.stage = .notice) (hterminal : s.outcome.terminal)
      (hprompt : ∀ p, prompt = some p → p.kind = .removeProgrammingVoltage)
      (hanswered : Accepted later answered) (hattempts : Bound request plans attempts)
      (hledger : ledger events = { prompt, answered, requests, attempts })
      (hafter : AfterFailure (fun result after => responses after = [] ∧ s.outcome.Of result ∧
        s.noticeOutcome = attemptOutcomeName result) events) : Phase events s
  /-- The outcome is given. -/
  | settled {events : List (FlashEvent φ β)} {s : State β} (plans : BootModePlans β)
      (answered : List (Option FlashPromptStep × FlashPromptResponse))
      (requests : List TransportKind) (attempts : List (FlashPlan β × ExecutorKind))
      (hbuilt : Prepared request.prepare events (.ok plans)) (hs : s.built = some (.ok plans))
      (hstage : s.stage ≠ .notice) (hterminal : s.outcome.terminal)
      (hanswered : Accepted later answered) (hattempts : Bound request plans attempts)
      (hledger : ledger events = { answered, requests, attempts })
      (hafter : request.isWrite → AfterFailure (fun result after => responses after ≠ [] ∧
        s.outcome.Of result) events) : Phase events s

/-- What `Next` may give after the calls before it. -/
structure AllowedNext (before : List (FlashEvent φ β)) (step : FlashWorkflowStep β)
    (requested : List TransportKind) : Prop where
  cancelled : ¬Accepted later (answered before) → step = .completed ⟨.cancelled, none, none⟩
  first : ∀ plan executor, step = .attempt plan executor → executor ≠ .bootModeProgram →
    attempts before = [] ∧ answered before = confirmations request
  program : ∀ plan, step = .attempt plan .bootModeProgram → Uploaded request before ∧
    answered before = confirmations request ++ [(some removeMod1Prompt, .accept)]
  quiet : (∀ plan executor, step ≠ .attempt plan executor) → requested = []
  warned : request.isWrite → AfterFailure
    (Warned (fun result => noticePrompt (attemptOutcomeName result)) step) before

/-- What a call may give after those before it. -/
def Allowed (before : List (FlashEvent φ β)) : FlashEvent φ β → Prop
  | .next _ step requested => AllowedNext request before step requested
  | .respond response => ∀ prompt, openPrompt before = some prompt → prompt.kind ∉ later →
      response ≠ .accept → requests before = []
  | .finish result => request.isWrite → result.success = false → NoNotice before

/-! ### Every interleaving -/

variable {request} {events : List (FlashEvent φ β)} {s : State β}

/-- When all prompts have been accepted, nothing but the notice of a failure is left to show. -/
theorem AllowedNext.of_accepted {step : FlashWorkflowStep β}
    (haccepted : Accepted later (answered events))
    (hattempt : ∀ plan executor, step ≠ .attempt plan executor)
    (hwarned : request.isWrite → AfterFailure
      (Warned (fun result => noticePrompt (attemptOutcomeName result)) step) events) :
    AllowedNext request events step [] where
  cancelled h := absurd haccepted h
  first plan executor h := absurd h (hattempt plan executor)
  program plan h := absurd h (hattempt plan .bootModeProgram)
  quiet _ := rfl
  warned := hwarned

theorem AllowedNext.cancelled_quiet {step : FlashWorkflowStep β} {requested : List TransportKind}
    (h : AllowedNext request events step requested) (hrejected : ¬Accepted later (answered events)) :
    step = .completed ⟨.cancelled, none, none⟩ ∧ requested = [] := by
  have hstep := h.cancelled hrejected
  refine ⟨hstep, h.quiet ?_⟩
  intro plan executor heq
  rw [heq] at hstep
  cases hstep

/-- The stage before the first attempt, by the prompt that is due. -/
theorem askingStage_cases {accepted : ℕ} (hle : accepted ≤ (confirmed request).length) :
    (askingStage request accepted = .begin ∧ (confirmed request)[accepted]? = some beginPrompt) ∨
    (askingStage request accepted = .applyVoltages ∧
      (confirmed request)[accepted]? = some applyVoltagesPrompt) ∨
    (askingStage request accepted = .firstAttempt ∧ accepted = (confirmed request).length) := by
  simp only [confirmed] at hle ⊢
  by_cases hwrite : request.isWrite
  · simp only [hwrite, if_true, askingStage] at hle ⊢
    match accepted, hle with
    | 0, _ => exact .inl ⟨rfl, rfl⟩
    | 1, _ => exact .inr (.inl ⟨rfl, rfl⟩)
    | 2, _ => exact .inr (.inr ⟨rfl, rfl⟩)
  · simp only [hwrite, askingStage] at hle ⊢
    match accepted, hle with
    | 0, _ => exact .inl ⟨rfl, rfl⟩
    | 1, _ => exact .inr (.inr ⟨rfl, rfl⟩)

/-- An acceptance moves to the next stage. -/
theorem respond_accept {plans : BootModePlans β} {accepted : ℕ} {p : FlashPromptStep}
    (hprompt : (confirmed request)[accepted]? = some p) :
    respond request .accept ⟨some (.ok plans), askingStage request accepted, "", {}⟩ =
      ⟨some (.ok plans), askingStage request (accepted + 1), "", {}⟩ := by
  simp only [confirmed] at hprompt
  by_cases hwrite : request.isWrite
  · simp only [hwrite, if_true] at hprompt
    match accepted, hprompt with
    | 0, _ => simp [respond, askingStage, hwrite]
    | 1, _ => simp [respond, askingStage, hwrite]
  · simp only [hwrite] at hprompt
    match accepted, hprompt with
    | 0, _ => simp [respond, askingStage, hwrite]

theorem kind_of_confirmed {accepted : ℕ} {p : FlashPromptStep}
    (hprompt : (confirmed request)[accepted]? = some p) : p.kind ≠ .removeProgrammingVoltage := by
  have hmem := List.mem_of_getElem? hprompt
  rw [confirmed] at hmem
  split at hmem
  · simp only [List.mem_cons, List.not_mem_nil, or_false] at hmem
    rcases hmem with rfl | rfl
    · decide
    · decide
  · cases List.mem_singleton.1 hmem
    decide

theorem Uploaded.concat (h : Uploaded request events) (event : FlashEvent φ β) :
    Uploaded request (events ++ [event]) := by
  obtain ⟨before, result, after, first, rfl, hrest⟩ := h
  exact ⟨before, result, after ++ [event], first, by simp, hrest⟩

/-- What is due after no failure. -/
theorem warned_of_noFailure {notice : FlashAttemptResult → FlashPromptStep}
    (h : NoFailure events) (step : FlashWorkflowStep β) : AfterFailure (Warned notice step) events :=
  h.mono fun _ _ h => h.elim

/-- A terminal outcome is given each time it is asked for. -/
theorem finishedStep_of_terminal {o : FlashAttemptOutcome} (h : o.terminal) :
    ∃ (step : FlashWorkflowStep β) (o' : FlashAttemptOutcome),
      o.finishedStep = (some step, o') ∧ step.isOutcome ∧ o'.terminal := by
  cases hfailure : o.failure with
  | some error =>
    refine ⟨.failure error, { o with failure := some ⟨error.kind, ""⟩ }, ?_, rfl, h⟩
    simp [FlashAttemptOutcome.finishedStep, hfailure]
  | none =>
    refine ⟨.completed o.completedStep.1, o.completedStep.2, ?_, rfl, h⟩
    simp [FlashAttemptOutcome.finishedStep, hfailure, h]

theorem record_terminal (o : FlashAttemptOutcome) (result : FlashAttemptResult) :
    (o.record result).terminal := by
  rw [FlashAttemptOutcome.record]
  split
  · rfl
  · split <;> rfl

/-- `Next` while no attempt has been bound. -/
theorem asking_next {plans : BootModePlans β} {accepted : ℕ} {prompt : Option FlashPromptStep}
    (files : φ)
    (hbuilt : ∀ step requested, Prepared request.prepare (events ++ [.next files step requested])
      (.ok plans))
    (hle : accepted ≤ (confirmed request).length)
    (hledger : ledger events = {
      prompt
      answered := ((confirmed request).take accepted).map fun p => (some p, .accept) })
    (hfailure : NoFailure events) (hnotice : NoNotice events) :
    let r := nextBuilt request plans ⟨some (.ok plans), askingStage request accepted, "", {}⟩
    AllowedNext request events r.step r.requested ∧
      Phase request (events ++ [.next files r.step r.requested]) r.state := by
  intro r
  have haccepted : Accepted later (answered events) := by
    rw [answered_eq hledger]
    exact accepted_map _ _
  have hask {p : FlashPromptStep} (hget : (confirmed request)[accepted]? = some p)
      (hr : r = { step := .prompt p
                  state := ⟨some (.ok plans), askingStage request accepted, "", {}⟩ }) :
      AllowedNext request events r.step r.requested ∧
        Phase request (events ++ [.next files r.step r.requested]) r.state := by
    rw [hr]
    refine ⟨.of_accepted haccepted (fun _ _ h => (by cases h))
      (fun _ => warned_of_noFailure hfailure _), ?_⟩
    refine .asking plans accepted (some p) (hbuilt _ _) hle ?_ ?_
      (hfailure.concat (fun _ h => (by cases h))) (hnotice.concat ?_)
    · rintro _ ⟨⟩
      exact hget
    · rw [ledger_concat, hledger]
      rfl
    · intro _ _ _ heq
      cases heq
      exact kind_of_confirmed hget
  rcases askingStage_cases hle with ⟨hstage, hget⟩ | ⟨hstage, hget⟩ | ⟨hstage, hlen⟩
  · refine hask hget ?_
    simp [r, nextBuilt, nextStage, hstage, FlashAttemptOutcome.finishedStep]
  · refine hask hget ?_
    simp [r, nextBuilt, nextStage, hstage, FlashAttemptOutcome.finishedStep]
  · rw [hlen, List.take_length] at hledger
    cases hfirst : plans.first with
    | none =>
      have hr : r = {
          step := .failure ⟨.internal, "the Unisia JECS first-stage plan was not built"⟩
          state := ⟨some (.ok plans), .awaitFirst, "", {}⟩ } := by
        simp [r, nextBuilt, nextStage, hstage, hfirst, FlashAttemptOutcome.finishedStep]
      rw [hr]
      refine ⟨.of_accepted haccepted (fun _ _ h => (by cases h))
        (fun _ => warned_of_noFailure hfailure _), ?_⟩
      refine .awaitFirst plans none [] [] (hbuilt _ _) (.inl ⟨rfl, rfl⟩) ?_
        (hfailure.concat (fun _ h => (by cases h))) (hnotice.concat (fun _ _ _ h => (by cases h)))
      rw [ledger_concat, hledger]
      rfl
    | some first =>
      have hr : r = {
          step := .attempt first (firstExecutor request)
          requested := [.kline]
          state := ⟨some (.ok plans), .awaitFirst, "", {}⟩ } := by
        simp [r, nextBuilt, nextStage, hstage, hfirst, FlashAttemptOutcome.finishedStep]
      rw [hr]
      refine ⟨⟨fun h => absurd haccepted h, ?_, ?_, fun h => absurd rfl (h first _),
        fun _ => warned_of_noFailure hfailure _⟩, ?_⟩
      · intro _ _ heq _
        cases heq
        exact ⟨attempts_eq hledger, answered_eq hledger⟩
      · -- the first attempt is not the program attempt
        intro _ heq
        have hexecutor : firstExecutor request = .bootModeProgram := by
          injection heq
        rw [firstExecutor] at hexecutor
        split at hexecutor
        · cases hexecutor
        · cases hexecutor
      · refine .awaitFirst plans (some (firstExecutor request)) [.kline] _ (hbuilt _ _)
          (.inr ⟨first, hfirst, rfl⟩) ?_ (hfailure.concat (fun _ h => (by cases h)))
          (hnotice.concat (fun _ _ _ h => (by cases h)))
        rw [ledger_concat, hledger]
        rfl

theorem accepted_confirmations : Accepted later (confirmations request) := accepted_map _ _

theorem accepted_removeMod1 {response : FlashPromptResponse} :
    Accepted later (confirmations request ++ [(some removeMod1Prompt, response)]) := by
  refine accepted_confirmations.concat ?_
  rintro _ ⟨⟩
  decide

/-- `Next` once the plans have been built. -/
theorem next_of_built {built : Except Error (BootModePlans β)} (h : s.built = some built)
    (files : φ) : BootMode.next request files s =
      match built with
      | .error e => { step := .failure e, state := s }
      | .ok plans => nextBuilt request plans s := by
  obtain ⟨_, stage, noticeOutcome, outcome⟩ := s
  cases h
  cases built with
  | error e => rfl
  | ok plans => rfl

/-- `Next` when the outcome is there. -/
theorem nextBuilt_terminal (request : BootModeRequest φ β) (plans : BootModePlans β) (hstage : s.stage ≠ .notice)
    (hterminal : s.outcome.terminal) : ∃ step outcome,
      nextBuilt request plans s = { step, state := { s with outcome } } ∧ step.isOutcome ∧
      outcome.terminal ∧
      ∀ result, s.outcome.Of result → Reports result step ∧ outcome.Of result := by
  obtain ⟨step, outcome, hfinished, houtcome, hterminal'⟩ :=
    finishedStep_of_terminal (β := β) hterminal
  refine ⟨step, outcome, ?_, houtcome, hterminal', fun result hof => ?_⟩
  · simp only [nextBuilt, if_neg hstage, hfinished]
  · obtain ⟨step', outcome', heq, hreports, hof'⟩ := hof.finishedStep (β := β)
    rw [hfinished] at heq
    cases heq
    exact ⟨hreports, hof'⟩

/-- `Next` in every phase. -/
theorem Phase.next (h : Phase request events s) (files : φ) :
    let r := BootMode.next request files s
    AllowedNext request events r.step r.requested ∧
      Phase request (events ++ [.next files r.step r.requested]) r.state := by
  cases h with
  | fresh =>
    cases hprepare : request.prepare files with
    | error e =>
      simp only [BootMode.next, Option.getD_none, hprepare]
      refine ⟨.of_accepted (accepted_map _ []) (fun _ _ h => (by cases h))
        (fun _ => warned_of_noFailure .nil _), ?_⟩
      refine .failed e ⟨files, _, _, [], rfl, hprepare⟩ rfl ?_
      intro event hmem
      exact ⟨files, List.mem_singleton.1 hmem⟩
    | ok plans =>
      simp only [BootMode.next, Option.getD_none, hprepare]
      exact asking_next files (fun _ _ => ⟨files, _, _, [], rfl, hprepare⟩) (Nat.zero_le _) rfl
        .nil .nil
  | failed e hbuilt hs hall =>
    simp only [next_of_built hs]
    have hledger := ledger_of_failures hall
    refine ⟨.of_accepted ?_ (fun _ _ h => (by cases h)) ?_, .failed e (hbuilt.concat _) hs ?_⟩
    · rw [answered_eq hledger]
      exact accepted_map _ []
    · intro _ before event after hl result heq
      obtain ⟨files, hevent⟩ := hall event (by simp [hl])
      rw [hevent] at heq
      cases heq
    · intro event hmem
      rcases List.mem_append.1 hmem with hmem | hmem
      · exact hall event hmem
      · exact ⟨files, List.mem_singleton.1 hmem⟩
  | asking plans accepted prompt hbuilt hle hprompt hledger hfailure hnotice =>
    simp only [BootMode.next, Option.getD_some]
    exact asking_next files (fun _ _ => hbuilt.concat _) hle hledger hfailure hnotice
  | cancelled plans hbuilt hs hstage houtcome hledger hfailure =>
    obtain ⟨built, stage, noticeOutcome, outcome⟩ := s
    simp only at hs hstage houtcome
    subst hs houtcome
    have hr : nextBuilt request plans
        ⟨some (.ok plans), stage, noticeOutcome, FlashAttemptOutcome.cancel {}⟩ = {
        step := .completed ⟨.cancelled, none, none⟩
        state := ⟨some (.ok plans), stage, noticeOutcome, FlashAttemptOutcome.cancel {}⟩ } := by
      rw [nextBuilt, if_neg hstage]
      rfl
    simp only [BootMode.next, Option.getD_some, hr]
    refine ⟨⟨fun _ => rfl, fun _ _ h => (by cases h), fun _ h => (by cases h), fun _ => rfl,
      fun _ => warned_of_noFailure hfailure _⟩, ?_⟩
    refine .cancelled plans (hbuilt.concat _) rfl hstage rfl ?_ (hfailure.concat (fun _ h => (by cases h)))
    rw [ledger_concat, hledger, answered_concat]
    simp [Ledger.after]
  | awaitFirst plans attempt requests attempts hbuilt hattempt hledger hfailure hnotice =>
    have hr : nextBuilt request plans ⟨some (.ok plans), .awaitFirst, "", {}⟩ = {
        step := .completed ⟨.failed, none, none⟩
        state := ⟨some (.ok plans), .awaitFirst, "", {}⟩ } := rfl
    simp only [BootMode.next, Option.getD_some, hr]
    refine ⟨.of_accepted ?_ (fun _ _ h => (by cases h)) (fun _ => warned_of_noFailure hfailure _), ?_⟩
    · rw [answered_eq hledger]
      exact accepted_confirmations
    · refine .awaitFirst plans attempt requests attempts (hbuilt.concat _) hattempt ?_
        (hfailure.concat (fun _ h => (by cases h))) (hnotice.concat (fun _ _ _ h => (by cases h)))
      rw [ledger_concat, hledger]
      simp [Ledger.after]
  | removeMod1 plans prompt requests first hbuilt hfirst hprompt hledger huploaded hfailure hnotice =>
    have hr : nextBuilt request plans ⟨some (.ok plans), .removeMod1, "", {}⟩ = {
        step := .prompt removeMod1Prompt
        state := ⟨some (.ok plans), .removeMod1, "", {}⟩ } := rfl
    simp only [BootMode.next, Option.getD_some, hr]
    refine ⟨.of_accepted ?_ (fun _ _ h => (by cases h)) (fun _ => warned_of_noFailure hfailure _), ?_⟩
    · rw [answered_eq hledger]
      exact accepted_confirmations
    · refine .removeMod1 plans (some removeMod1Prompt) requests first (hbuilt.concat _) hfirst ?_ ?_
        (huploaded.concat _) (hfailure.concat (fun _ h => (by cases h))) (hnotice.concat ?_)
      · rintro _ ⟨⟩
        rfl
      · rw [ledger_concat, hledger]
        simp [Ledger.after]
      · intro _ _ _ heq
        cases heq
        decide
  | programAttempt plans requests first hbuilt hfirst hledger huploaded hfailure hnotice =>
    simp only [BootMode.next, Option.getD_some]
    have haccepted : Accepted later (answered events) := by
      rw [answered_eq hledger]
      exact accepted_removeMod1
    cases hprogram : plans.program with
    | none =>
      have hr : nextBuilt request plans ⟨some (.ok plans), .programAttempt, "", {}⟩ = {
          step := .failure ⟨.internal, "the Unisia JECS program plan was not built"⟩
          state := ⟨some (.ok plans), .programAttempt, "", {}⟩ } := by
        simp [nextBuilt, nextStage, hprogram, FlashAttemptOutcome.finishedStep]
      rw [hr]
      refine ⟨.of_accepted haccepted (fun _ _ h => (by cases h))
        (fun _ => warned_of_noFailure hfailure _), ?_⟩
      refine .programAttempt plans requests first (hbuilt.concat _) hfirst ?_ (huploaded.concat _)
        (hfailure.concat (fun _ h => (by cases h))) (hnotice.concat (fun _ _ _ h => (by cases h)))
      rw [ledger_concat, hledger]
      simp [Ledger.after]
    | some program =>
      have hr : nextBuilt request plans ⟨some (.ok plans), .programAttempt, "", {}⟩ = {
          step := .attempt program .bootModeProgram
          requested := [.kline]
          state := ⟨some (.ok plans), .awaitProgram, "", {}⟩ } := by
        simp [nextBuilt, nextStage, hprogram, FlashAttemptOutcome.finishedStep]
      rw [hr]
      refine ⟨⟨fun h => absurd haccepted h, ?_, fun _ _ => ⟨huploaded, answered_eq hledger⟩,
        fun h => absurd rfl (h program _), fun _ => warned_of_noFailure hfailure _⟩, ?_⟩
      · intro _ _ heq hne
        cases heq
        exact absurd rfl hne
      · refine .awaitProgram plans (requests ++ [.kline]) first program (hbuilt.concat _) hfirst
          hprogram ?_ (hfailure.concat (fun _ h => (by cases h)))
          (hnotice.concat (fun _ _ _ h => (by cases h)))
        rw [ledger_concat, hledger]
        rfl
  | awaitProgram plans requests first program hbuilt hfirst hprogram hledger hfailure hnotice =>
    have hr : nextBuilt request plans ⟨some (.ok plans), .awaitProgram, "", {}⟩ = {
        step := .completed ⟨.failed, none, none⟩
        state := ⟨some (.ok plans), .awaitProgram, "", {}⟩ } := rfl
    simp only [BootMode.next, Option.getD_some, hr]
    refine ⟨.of_accepted ?_ (fun _ _ h => (by cases h)) (fun _ => warned_of_noFailure hfailure _), ?_⟩
    · rw [answered_eq hledger]
      exact accepted_removeMod1
    · refine .awaitProgram plans requests first program (hbuilt.concat _) hfirst hprogram ?_
        (hfailure.concat (fun _ h => (by cases h))) (hnotice.concat (fun _ _ _ h => (by cases h)))
      rw [ledger_concat, hledger]
      simp [Ledger.after]
  | notice plans prompt answered requests attempts hbuilt hs hstage hterminal hprompt hanswered
      hattempts hledger hafter =>
    simp only [next_of_built hs, nextBuilt, hstage, if_true]
    refine ⟨.of_accepted ?_ (fun _ _ h => (by cases h)) (fun _ => ?_), ?_⟩
    · rw [answered_eq hledger]
      exact hanswered
    · refine hafter.mono fun result after h => ⟨fun _ => ?_, fun hne => absurd h.1 hne⟩
      rw [h.2.2]
    · refine .notice plans (some (noticePrompt s.noticeOutcome)) answered requests attempts
        (hbuilt.concat _) hs hstage hterminal ?_ hanswered hattempts ?_
        (hafter.concat (fun _ h => (by cases h)) ?_)
      · rintro _ ⟨⟩
        rfl
      · rw [ledger_concat, hledger]
        simp [Ledger.after]
      · intro result after h
        rw [responses_concat_next]
        exact h
  | settled plans answered requests attempts hbuilt hs hstage hterminal hanswered hattempts hledger
      hafter =>
    obtain ⟨step, outcome, hr, houtcome, hterminal', hof⟩ :=
      nextBuilt_terminal request plans hstage hterminal
    simp only [next_of_built hs, hr]
    refine ⟨.of_accepted ?_ ?_ (fun hwrite => ?_), ?_⟩
    · rw [answered_eq hledger]
      exact hanswered
    · rintro plan executor rfl
      cases houtcome
    · exact (hafter hwrite).mono fun result after h =>
        ⟨fun hnone => absurd hnone h.1, fun _ => (hof result h.2).1⟩
    · refine .settled plans answered requests attempts (hbuilt.concat _) hs hstage hterminal' hanswered
        hattempts ?_ fun hwrite => (hafter hwrite).concat (fun _ h => (by cases h)) ?_
      · rw [ledger_concat, hledger, Ledger.after_outcome houtcome]
      · intro result after h
        rw [responses_concat_next]
        exact ⟨h.1, (hof result h.2).2⟩

theorem Bound.first {plans : BootModePlans β} {attempts : List (FlashPlan β × ExecutorKind)}
    {attempt : Option ExecutorKind} (h : attempt = none ∧ attempts = [] ∨
      ∃ first, plans.first = some first ∧ attempts = [(first, firstExecutor request)]) :
    Bound request plans attempts := by
  rcases h with ⟨-, hnone⟩ | ⟨first, hfirst, hone⟩
  · exact .inl hnone
  · exact .inr ⟨first, hfirst, .inl hone⟩

/-- A response in every phase in which a prompt is open. -/
theorem Phase.respond (h : Phase request events s) (response : FlashPromptResponse)
    (hopen : (openPrompt events).isSome) :
    Allowed request events (.respond response) ∧
      Phase request (events ++ [.respond response]) (BootMode.respond request response s) := by
  cases h with
  | fresh => cases hopen
  | failed e hbuilt hs hall =>
    rw [openPrompt_eq (ledger_of_failures hall)] at hopen
    cases hopen
  | asking plans accepted prompt hbuilt hle hprompt hledger hfailure hnotice =>
    refine ⟨fun _ _ _ _ => requests_eq hledger, ?_⟩
    rw [openPrompt_eq hledger] at hopen
    obtain ⟨p, rfl⟩ := Option.isSome_iff_exists.1 hopen
    have hget := hprompt p rfl
    have hlt : accepted < (confirmed request).length := (List.getElem?_eq_some_iff.1 hget).1
    have hfailure' : NoFailure (events ++ [.respond response]) :=
      hfailure.concat (fun _ h => nomatch h)
    by_cases haccept : response = .accept
    · subst haccept
      rw [respond_accept hget]
      refine .asking plans (accepted + 1) none (hbuilt.concat _) hlt (fun _ h => nomatch h) ?_
        hfailure' (hnotice.concat (fun _ _ _ h => nomatch h))
      rw [ledger_concat, hledger, List.take_add_one, hget, List.map_append]
      rfl
    · obtain ⟨stage, hstage, hr⟩ : ∃ stage, stage ≠ Stage.notice ∧
          BootMode.respond request response
            ⟨some (.ok plans), askingStage request accepted, "", {}⟩ =
            ⟨some (.ok plans), stage, "", FlashAttemptOutcome.cancel {}⟩ := by
        rcases askingStage_cases hle with ⟨hstage, -⟩ | ⟨hstage, -⟩ | ⟨-, hlen⟩
        · exact ⟨.begin, by decide, by simp [BootMode.respond, hstage, haccept]⟩
        · exact ⟨.applyVoltages, by decide, by simp [BootMode.respond, hstage, haccept]⟩
        · omega
      rw [hr]
      refine .cancelled plans (hbuilt.concat _) rfl hstage rfl ?_ hfailure'
      rw [ledger_concat, hledger, answered_concat, answered_eq hledger, openPrompt_eq hledger]
      rfl
  | cancelled plans hbuilt hs hstage houtcome hledger hfailure =>
    rw [openPrompt_eq hledger] at hopen
    cases hopen
  | awaitFirst plans attempt requests attempts hbuilt hattempt hledger hfailure hnotice =>
    rw [openPrompt_eq hledger] at hopen
    cases hopen
  | removeMod1 plans prompt requests first hbuilt hfirst hprompt hledger huploaded hfailure hnotice =>
    rw [openPrompt_eq hledger] at hopen
    obtain ⟨p, rfl⟩ := Option.isSome_iff_exists.1 hopen
    have hp := hprompt p rfl
    subst hp
    refine ⟨fun p hp hkind _ => ?_, ?_⟩
    · rw [openPrompt_eq hledger] at hp
      cases hp
      exact absurd (by decide) hkind
    · have hfailure' : NoFailure (events ++ [.respond response]) :=
        hfailure.concat (fun _ h => nomatch h)
      by_cases haccept : response = .accept
      · subst haccept
        refine .programAttempt plans requests first (hbuilt.concat _) hfirst ?_ (huploaded.concat _)
          hfailure' (hnotice.concat (fun _ _ _ h => nomatch h))
        rw [ledger_concat, hledger]
        rfl
      · -- the kernel runs, so the notice comes before the outcome
        simp only [BootMode.respond, ne_eq, haccept, not_false_eq_true, if_true]
        refine .notice plans none (confirmations request ++ [(some removeMod1Prompt, response)])
          requests [(first, firstExecutor request)] (hbuilt.concat _) rfl rfl rfl
          (fun _ h => nomatch h) accepted_removeMod1 (.inr ⟨first, hfirst, .inl rfl⟩) ?_
          (hfailure'.mono fun _ _ h => h.elim)
        rw [ledger_concat, hledger]
        rfl
  | programAttempt plans requests first hbuilt hfirst hledger huploaded hfailure hnotice =>
    rw [openPrompt_eq hledger] at hopen
    cases hopen
  | awaitProgram plans requests first program hbuilt hfirst hprogram hledger hfailure hnotice =>
    rw [openPrompt_eq hledger] at hopen
    cases hopen
  | notice plans prompt answered requests attempts hbuilt hs hstage hterminal hprompt hanswered
      hattempts hledger hafter =>
    have hkinds : ∀ p, prompt = some p → p.kind ∈ later := by
      intro p hp
      rw [hprompt p hp]
      decide
    refine ⟨fun p hp hkind _ => ?_, ?_⟩
    · rw [openPrompt_eq hledger] at hp
      exact absurd (hkinds p hp) hkind
    · simp only [BootMode.respond, hstage]
      refine .settled plans (answered ++ [(prompt, response)]) requests attempts (hbuilt.concat _) hs
        (fun h => nomatch h) hterminal (hanswered.concat hkinds) hattempts ?_
        fun _ => hafter.concat (fun _ h => nomatch h) ?_
      · rw [ledger_concat, hledger]
        rfl
      · intro result after h
        exact ⟨by simp [responses_concat], h.2.1⟩
  | settled plans answered requests attempts hbuilt hs hstage hterminal hanswered hattempts hledger
      hafter =>
    rw [openPrompt_eq hledger] at hopen
    cases hopen

/-- A result in every phase in which an attempt is open. -/
theorem Phase.finish (h : Phase request events s) (result : FlashAttemptResult)
    (hopen : (openAttempt events).isSome) :
    Allowed request events (.finish result) ∧
      Phase request (events ++ [.finish result]) (BootMode.finish request result s) := by
  cases h with
  | fresh => cases hopen
  | failed e hbuilt hs hall =>
    rw [openAttempt_eq (ledger_of_failures hall)] at hopen
    cases hopen
  | asking plans accepted prompt hbuilt hle hprompt hledger hfailure hnotice =>
    rw [openAttempt_eq hledger] at hopen
    cases hopen
  | cancelled plans hbuilt hs hstage houtcome hledger hfailure =>
    rw [openAttempt_eq hledger] at hopen
    cases hopen
  | awaitFirst plans attempt requests attempts hbuilt hattempt hledger hfailure hnotice =>
    refine ⟨fun _ _ => hnotice, ?_⟩
    rw [openAttempt_eq hledger] at hopen
    have hledger' : ledger (events ++ [.finish result]) =
        { answered := confirmations request, requests, attempts } := by
      rw [ledger_concat, hledger]
      rfl
    by_cases hwrite : request.isWrite
    · by_cases hsuccess : result.success
      · simp only [BootMode.finish, hwrite, hsuccess, not_true_eq_false, if_false, and_self, if_true]
        rcases hattempt with ⟨rfl, -⟩ | ⟨first, hfirst, rfl⟩
        · cases hopen
        · refine .removeMod1 plans none requests first (hbuilt.concat _) hfirst
            (fun _ h => nomatch h) hledger' ?_ (hfailure.concat ?_)
            (hnotice.concat (fun _ _ _ h => nomatch h))
          · refine ⟨events, result, [], first, rfl, hsuccess, ?_, answered_eq hledger⟩
            rw [attempts_eq hledger, firstExecutor, if_pos hwrite]
          · rintro _ ⟨⟩
            exact hsuccess
      · simp only [BootMode.finish, hwrite, hsuccess, not_true_eq_false, if_false]
        refine .notice plans none _ requests attempts (hbuilt.concat _) rfl rfl
          (record_terminal _ _) (fun _ h => nomatch h) accepted_confirmations (.first hattempt)
          hledger' ?_
        exact hfailure.finish fun hfail => ⟨rfl, FlashAttemptOutcome.of_record hfail, rfl⟩
    · simp only [BootMode.finish, hwrite]
      refine .settled plans _ requests attempts (hbuilt.concat _) rfl (fun h => nomatch h)
        (record_terminal _ _) accepted_confirmations (.first hattempt) hledger' fun h => ?_
      exact absurd h hwrite
  | removeMod1 plans prompt requests first hbuilt hfirst hprompt hledger huploaded hfailure hnotice =>
    rw [openAttempt_eq hledger] at hopen
    cases hopen
  | programAttempt plans requests first hbuilt hfirst hledger huploaded hfailure hnotice =>
    rw [openAttempt_eq hledger] at hopen
    cases hopen
  | awaitProgram plans requests first program hbuilt hfirst hprogram hledger hfailure hnotice =>
    refine ⟨fun _ _ => hnotice, ?_⟩
    have hledger' : ledger (events ++ [.finish result]) = {
        answered := confirmations request ++ [(some removeMod1Prompt, .accept)]
        requests
        attempts := [(first, firstExecutor request), (program, .bootModeProgram)] } := by
      rw [ledger_concat, hledger]
      rfl
    have hbound : Bound request plans
        [(first, firstExecutor request), (program, .bootModeProgram)] :=
      .inr ⟨first, hfirst, .inr ⟨program, hprogram, rfl⟩⟩
    by_cases hwrite : request.isWrite
    · simp only [BootMode.finish, hwrite, not_true_eq_false, if_false, reduceCtorEq, false_and]
      refine .notice plans none _ requests _ (hbuilt.concat _) rfl rfl (record_terminal _ _)
        (fun _ h => nomatch h) accepted_removeMod1 hbound hledger' ?_
      exact hfailure.finish fun hfail => ⟨rfl, FlashAttemptOutcome.of_record hfail, rfl⟩
    · simp only [BootMode.finish, hwrite]
      refine .settled plans _ requests _ (hbuilt.concat _) rfl (fun h => nomatch h)
        (record_terminal _ _) accepted_removeMod1 hbound hledger' fun h => ?_
      exact absurd h hwrite
  | notice plans prompt answered requests attempts hbuilt hs hstage hterminal hprompt hanswered
      hattempts hledger hafter =>
    rw [openAttempt_eq hledger] at hopen
    cases hopen
  | settled plans answered requests attempts hbuilt hs hstage hterminal hanswered hattempts hledger
      hafter =>
    rw [openAttempt_eq hledger] at hopen
    cases hopen

/-- Every call of every interleaving is allowed. -/
theorem phase_of_interleaving (h : Interleaving (workflow request) events s) :
    Phase request events s ∧ Each (Allowed request) events := by
  induction h with
  | initial => exact ⟨.fresh, .nil⟩
  | next files _ ih =>
    obtain ⟨hphase, heach⟩ := ih
    obtain ⟨hallowed, hnext⟩ := hphase.next files
    exact ⟨hnext, heach.concat hallowed⟩
  | respond response _ hopen ih =>
    obtain ⟨hphase, heach⟩ := ih
    obtain ⟨hallowed, hnext⟩ := hphase.respond response hopen
    exact ⟨hnext, heach.concat hallowed⟩
  | finish result _ hopen ih =>
    obtain ⟨hphase, heach⟩ := ih
    obtain ⟨hallowed, hnext⟩ := hphase.finish result hopen
    exact ⟨hnext, heach.concat hallowed⟩

end BootMode

/-- What holds of the calls of the workflow in boot mode. -/
structure BootModeSpec {φ β : Type} (request : BootModeRequest φ β)
    (events : List (FlashEvent φ β)) : Prop where
  /-- The attempts are those of the plans that the first call prepared, each bound at most once. -/
  snapshot : attempts events = [] ∨ ∃ plans, Prepared request.prepare events (.ok plans) ∧
    BootMode.Bound request plans (attempts events)
  /-- The first one is bound when the prompts before it have been accepted. -/
  first : ∀ before files plan executor requested after,
    events = before ++ .next files (.attempt plan executor) requested :: after →
    executor ≠ .bootModeProgram →
    attempts before = [] ∧ answered before = BootMode.confirmations request
  /-- The program attempt is bound when the kernel has been uploaded and then the removal of MOD1
  accepted. -/
  program : ∀ before files plan requested after,
    events = before ++ .next files (.attempt plan .bootModeProgram) requested :: after →
    BootMode.Uploaded request before ∧ answered before =
      BootMode.confirmations request ++ [(some BootMode.removeMod1Prompt, .accept)]
  /-- A response before the first attempt that is no acceptance cancels the workflow, and no transport
  is ever requested. -/
  cancelled : ∀ before prompt response after, events = before ++ .respond response :: after →
    openPrompt before = some prompt → prompt.kind ∉ BootMode.later →
    response ≠ .accept → requests events = [] ∧ ∀ files step requested,
      .next files step requested ∈ after → step = .completed ⟨.cancelled, none, none⟩
  /-- If the plans cannot be built, the workflow fails from the first call on. -/
  unprepared : ∀ files step requested rest e, events = .next files step requested :: rest →
    request.prepare files = .error e → ∀ event ∈ events, ∃ files, event = .next files (.failure e) []
  /-- The notice of a write of which an attempt failed. -/
  notice : request.isWrite →
    NoticeOnce (fun result => BootMode.noticePrompt (attemptOutcomeName result)) events

section BootModeSpec

open BootMode

variable {φ β : Type} {request : BootModeRequest φ β} {events : List (FlashEvent φ β)}

/-- The attempts are those of the plans. -/
theorem BootMode.Phase.bound {s : State β} (h : Phase request events s) : attempts events = [] ∨
    ∃ plans, Prepared request.prepare events (.ok plans) ∧ Bound request plans (attempts events) := by
  cases h with
  | fresh => exact .inl rfl
  | failed e hbuilt hs hall => exact .inl (attempts_eq (ledger_of_failures hall))
  | asking plans accepted prompt hbuilt hle hprompt hledger => exact .inl (attempts_eq hledger)
  | cancelled plans hbuilt hs hstage houtcome hledger => exact .inl (attempts_eq hledger)
  | awaitFirst plans attempt requests attempts hbuilt hattempt hledger =>
    rw [attempts_eq hledger]
    exact .inr ⟨plans, hbuilt, .first hattempt⟩
  | removeMod1 plans prompt requests first hbuilt hfirst hprompt hledger =>
    rw [attempts_eq hledger]
    exact .inr ⟨plans, hbuilt, .inr ⟨first, hfirst, .inl rfl⟩⟩
  | programAttempt plans requests first hbuilt hfirst hledger =>
    rw [attempts_eq hledger]
    exact .inr ⟨plans, hbuilt, .inr ⟨first, hfirst, .inl rfl⟩⟩
  | awaitProgram plans requests first program hbuilt hfirst hprogram hledger =>
    rw [attempts_eq hledger]
    exact .inr ⟨plans, hbuilt, .inr ⟨first, hfirst, .inr ⟨program, hprogram, rfl⟩⟩⟩
  | notice plans prompt answered requests attempts hbuilt hs hstage hterminal hprompt hanswered
      hattempts hledger =>
    rw [attempts_eq hledger]
    exact .inr ⟨plans, hbuilt, hattempts⟩
  | settled plans answered requests attempts hbuilt hs hstage hterminal hanswered hattempts hledger =>
    rw [attempts_eq hledger]
    exact .inr ⟨plans, hbuilt, hattempts⟩

/-- When the plans could not be built, there are only failures. -/
theorem BootMode.Phase.failures {s : State β} {e : Error} (h : Phase request events s)
    (herror : Prepared request.prepare events (.error e)) :
    ∀ event ∈ events, ∃ files, event = .next files (.failure e) [] := by
  cases h with
  | fresh =>
    obtain ⟨files, step, requested, rest, hl, -⟩ := herror
    cases hl
  | failed e' hbuilt hs hall =>
    cases hbuilt.unique herror
    exact hall
  | asking plans accepted prompt hbuilt => cases hbuilt.unique herror
  | cancelled plans hbuilt => cases hbuilt.unique herror
  | awaitFirst plans attempt requests attempts hbuilt => cases hbuilt.unique herror
  | removeMod1 plans prompt requests first hbuilt => cases hbuilt.unique herror
  | programAttempt plans requests first hbuilt => cases hbuilt.unique herror
  | awaitProgram plans requests first program hbuilt => cases hbuilt.unique herror
  | notice plans prompt answered requests attempts hbuilt => cases hbuilt.unique herror
  | settled plans answered requests attempts hbuilt => cases hbuilt.unique herror

/-- **The workflow in boot mode**: every interleaving keeps `BootModeSpec`. -/
theorem bootModeSpec_of_interleaving {s : State β} (h : Interleaving (workflow request) events s) :
    BootModeSpec request events := by
  obtain ⟨hphase, heach⟩ := phase_of_interleaving h
  exact {
    snapshot := hphase.bound
    first := fun before files plan executor requested after hl hne =>
      (heach before _ after hl).first plan executor rfl hne
    program := fun before files plan requested after hl =>
      (heach before _ after hl).program plan rfl
    cancelled := cancelled_of_each heach (fun before files step requested hallowed hrejected =>
      hallowed.cancelled_quiet hrejected) (fun _ _ hallowed => hallowed)
    unprepared := fun files step requested rest e hl he =>
      hphase.failures ⟨files, step, requested, rest, hl, he⟩
    notice := fun hwrite => noticeOnce_of_each heach
      (fun before files step requested hallowed => hallowed.warned hwrite)
      (fun before result hallowed hfail => hallowed hwrite hfail) }

end BootModeSpec

/-! ### The routes -/

/-- **The workflows of the routes**: of a single attempt for every family, and the two of the Unisia
JECS M32R, in every interleaving of their calls. -/
theorem flashWorkflows_spec (φ β : Type) :
    (∀ (family : FlashFamily φ β) (events : List (FlashEvent φ β)) (s : SingleAttempt β),
      Interleaving (SingleAttempt.workflow family) events s → SingleAttemptSpec family events) ∧
    (∀ (request : KlineRequest β) (events : List (FlashEvent φ β)) (s : Kline.State),
      Interleaving (Kline.workflow request) events s → KlineSpec request events) ∧
    (∀ (request : BootModeRequest φ β) (events : List (FlashEvent φ β)) (s : BootMode.State β),
      Interleaving (BootMode.workflow request) events s → BootModeSpec request events) :=
  ⟨fun _ _ _ h => singleAttemptSpec_of_interleaving h, fun _ _ _ h => klineSpec_of_interleaving h,
    fun _ _ _ h => bootModeSpec_of_interleaving h⟩

end FastEcu.Flash
