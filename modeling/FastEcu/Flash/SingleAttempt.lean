import FastEcu.Flash.Workflow

/-!
# Workflows of a single attempt

`SingleAttemptFlashWorkflow` of `src/backend/flash/workflow/flash_workflow.cpp`, which all routes but
those of the EEPROM and of the Unisia JECS M32R instantiate: the plan is prepared, the operator accepts
`Begin` and each confirmation of the plan, and the attempt is bound.

* `SingleAttempt.workflow` : the workflow of a family, given how its plan is prepared and which
  transport it uses.
* `SingleAttempt.Phase` : where the workflow is after a sequence of calls.
* `SingleAttempt.Allowed` : what a call may give after those before it.
* `singleAttempt_allowed` : every call of every interleaving is allowed.
-/

namespace FastEcu.Flash

open Memory
open Calibration (Error ErrorKind)
open Data

/-! ### The workflow -/

/-- The number of an id, as the source prints it. -/
def ConfirmationId.number : ConfirmationId → ℕ
  | .beginEepromRead => 0
  | .inspectEepromBytes => 1
  | .cycleIgnition => 2
  | .eraseTrigger => 3
  | .topRegionBootstrap => 4
  | .applyProgrammingVoltage => 5
  | .applyBootModeVoltages => 6
  | .startKlineRead => 7
  | .kernelBootstrap => 8

/-- `ConfirmationPrompt`. -/
def confirmationPrompt (confirmation : ConfirmationSpec) : Except Error FlashPromptStep :=
  match confirmation.id with
  | .cycleIgnition => .ok ⟨.cycleIgnition, confirmation.arguments⟩
  | .eraseTrigger => .ok ⟨.coltEraseTrigger, confirmation.arguments⟩
  | .topRegionBootstrap => .ok ⟨.coltTopRegionBootstrap, confirmation.arguments⟩
  | .startKlineRead => .ok ⟨.confirmSh7058Read, confirmation.arguments⟩
  | .kernelBootstrap => .ok ⟨.confirmBdmKernelBootstrap, confirmation.arguments⟩
  | id => .error ⟨.internal, s!"confirmation {id.number} has no single-attempt prompt"⟩

/-- The loop of `PromptSequence`, with the prompts before. -/
def confirmationPrompts : List FlashPromptStep → List ConfirmationSpec →
    Except Error (List FlashPromptStep)
  | prompts, [] => .ok prompts
  | prompts, confirmation :: rest =>
    match confirmationPrompt confirmation with
    | .error e => .error e
    | .ok prompt => confirmationPrompts (prompts ++ [prompt]) rest

/-- `PromptSequence`. -/
def promptSequence {β : Type} (plan : FlashPlan β) : Except Error (List FlashPromptStep) :=
  confirmationPrompts [beginPrompt] plan.confirmations

/-- What a route gives to `SingleAttemptFlashWorkflow`: the preparation of the plan from the files, for
the request, and the transport that the executor is bound to. -/
structure FlashFamily (φ β : Type) where
  prepare : φ → Except Error (FlashPlan β)
  transport : TransportKind

/-- The fields of `SingleAttemptFlashWorkflow`. -/
structure SingleAttempt (β : Type) where
  plan : Option (Except Error (FlashPlan β)) := none
  prompts : Option (Except Error (List FlashPromptStep)) := none
  accepted : ℕ := 0
  attempted : Bool := false
  outcome : FlashAttemptOutcome := {}

namespace SingleAttempt

variable {φ β : Type} (family : FlashFamily φ β)

/-- `SingleAttemptFlashWorkflow::Next` once the prompts are there. -/
def nextPrompted (plan : FlashPlan β) (prompts : List FlashPromptStep) (s : SingleAttempt β) :
    NextResult (SingleAttempt β) β :=
  match s.outcome.finishedStep with
  | (some step, outcome) => { step, state := { s with outcome } }
  | (none, _) =>
    match prompts[s.accepted]? with
    | some prompt => { step := .prompt prompt, state := s }
    | none =>
      if s.attempted then
        { step := .completed s.outcome.completedStep.1
          state := { s with outcome := s.outcome.completedStep.2 } }
      else
        { step := .attempt plan .single
          requested := [family.transport]
          state := { s with attempted := true } }

/-- `SingleAttemptFlashWorkflow::Next`. -/
def next (files : φ) (s : SingleAttempt β) : NextResult (SingleAttempt β) β :=
  let prepared := s.plan.getD (family.prepare files)
  let s := { s with plan := some prepared }
  match prepared with
  | .error e => { step := .failure e, state := s }
  | .ok plan =>
    let sequence := s.prompts.getD (promptSequence plan)
    let s := { s with prompts := some sequence }
    match sequence with
    | .error e => { step := .failure e, state := s }
    | .ok prompts => nextPrompted family plan prompts s

/-- `SingleAttemptFlashWorkflow::Submit` of a response. -/
def respond (response : FlashPromptResponse) (s : SingleAttempt β) : SingleAttempt β :=
  if response ≠ .accept then { s with outcome := s.outcome.cancel }
  else { s with accepted := s.accepted + 1 }

/-- `SingleAttemptFlashWorkflow::Submit` of a result. -/
def finish (result : FlashAttemptResult) (s : SingleAttempt β) : SingleAttempt β :=
  { s with outcome := s.outcome.record result }

/-- `SingleAttemptFlashWorkflow`. -/
def workflow : FlashWorkflow (SingleAttempt β) φ β where
  initial := {}
  next := next family
  respond := respond
  finish := finish

/-! ### Phases -/

/-- Nothing has been asked for that is not answered, and no transport requested. -/
structure Idle (events : List (FlashEvent φ β)) : Prop where
  prompt : openPrompt events = none
  attempt : openAttempt events = none
  requests : requests events = []
  attempts : attempts events = []

/-- Where the workflow is after a sequence of calls. -/
inductive Phase : List (FlashEvent φ β) → SingleAttempt β → Prop
  /-- Nothing has been called. -/
  | fresh : Phase [] {}
  /-- The plan could not be prepared, or it has a confirmation without a prompt. -/
  | failed {events : List (FlashEvent φ β)} {s : SingleAttempt β}
      (prepared : Except Error (FlashPlan β)) (e : Error) (hprepared : Prepared family.prepare events prepared)
      (herror : prepared = .error e ∨
        ∃ plan, prepared = .ok plan ∧ promptSequence plan = .error e ∧ s.prompts = some (.error e))
      (hs : s.plan = some prepared) (hidle : Idle events) (hresponses : responses events = [])
      (hall : ∀ event ∈ events, ∃ files, event = .next files (.failure e) []) : Phase events s
  /-- The first of the prompts have been accepted. -/
  | asking {events : List (FlashEvent φ β)} (plan : FlashPlan β) (prompts : List FlashPromptStep)
      (accepted : ℕ) (hprepared : Prepared family.prepare events (.ok plan))
      (hprompts : promptSequence plan = .ok prompts) (hle : accepted ≤ prompts.length)
      (hanswered : answered events = (prompts.take accepted).map fun p => (some p, .accept))
      (hresponses : ∀ r ∈ responses events, r = .accept)
      (hprompt : ∀ p, openPrompt events = some p → prompts[accepted]? = some p)
      (hattempt : openAttempt events = none) (hrequests : requests events = [])
      (hattempts : attempts events = []) :
      Phase events ⟨some (.ok plan), some (.ok prompts), accepted, false, {}⟩
  /-- A prompt has not been accepted. -/
  | cancelled {events : List (FlashEvent φ β)} {s : SingleAttempt β} (plan : FlashPlan β)
      (prompts : List FlashPromptStep) (hprepared : Prepared family.prepare events (.ok plan))
      (hplan : s.plan = some (.ok plan)) (hs : s.prompts = some (.ok prompts))
      (houtcome : s.outcome = FlashAttemptOutcome.cancel {}) (hidle : Idle events) : Phase events s
  /-- All have been accepted, and the attempt is bound. -/
  | attempted {events : List (FlashEvent φ β)} {s : SingleAttempt β} (plan : FlashPlan β)
      (prompts : List FlashPromptStep) (hprepared : Prepared family.prepare events (.ok plan))
      (hplan : s.plan = some (.ok plan)) (hs : s.prompts = some (.ok prompts))
      (haccepted : s.accepted = prompts.length) (hattempted : s.attempted = true)
      (hresponses : ∀ r ∈ responses events, r = .accept) (hprompt : openPrompt events = none)
      (hattempts : attempts events = [(plan, .single)]) : Phase events s

/-- What a call may give after those before it. -/
def Allowed (before : List (FlashEvent φ β)) : FlashEvent φ β → Prop
  | .next files step requested =>
    -- the plan of the first call cannot be built
    (∀ e, Prepared family.prepare (before ++ [.next files step requested]) (.error e) → step = .failure e) ∧
    -- a response was not an acceptance
    ((∃ r ∈ responses before, r ≠ .accept) → step = .completed ⟨.cancelled, none, none⟩) ∧
    -- a transport is requested for an attempt and for nothing else
    (∀ plan executor, step = .attempt plan executor → attempts before = [] ∧
      requested = [family.transport] ∧ Prepared family.prepare before (.ok plan) ∧
      ∃ prompts, promptSequence plan = .ok prompts ∧
        answered before = prompts.map fun p => (some p, .accept)) ∧
    ((∀ plan executor, step ≠ .attempt plan executor) → requested = [])
  | .respond response => response ≠ .accept → requests before = []
  | .finish _ => True

/-! ### Every interleaving -/

variable {family} {events : List (FlashEvent φ β)} {s : SingleAttempt β}

theorem confirmationPrompts_prefix {prompts result : List FlashPromptStep}
    {confirmations : List ConfirmationSpec}
    (h : confirmationPrompts prompts confirmations = .ok result) : prompts <+: result := by
  induction confirmations generalizing prompts with
  | nil =>
    cases h
    exact List.prefix_rfl
  | cons confirmation rest ih =>
    simp only [confirmationPrompts] at h
    split at h
    · cases h
    · exact (List.prefix_append _ _).trans (ih h)

/-- The first prompt is `Begin`. -/
theorem promptSequence_head {plan : FlashPlan β} {prompts : List FlashPromptStep}
    (h : promptSequence plan = .ok prompts) : prompts[0]? = some beginPrompt := by
  obtain ⟨rest, rfl⟩ := confirmationPrompts_prefix h
  rfl

/-- A call that asks for nothing leaves the workflow idle. -/
theorem Idle.next (h : Idle events) (files : φ) {step : FlashWorkflowStep β}
    (hprompt : ∀ p, step ≠ .prompt p) (hattempt : ∀ plan executor, step ≠ .attempt plan executor) :
    Idle (events ++ [.next files step []]) := by
  cases step with
  | prompt p => exact absurd rfl (hprompt p)
  | attempt plan executor => exact absurd rfl (hattempt plan executor)
  | completed c =>
    exact ⟨by simp [promptAfter], by simp [attemptAfter, h.attempt],
      by simp [requests_concat, h.requests], by simp [attempts_concat, h.attempts]⟩
  | failure e =>
    exact ⟨by simp [promptAfter], by simp [attemptAfter, h.attempt],
      by simp [requests_concat, h.requests], by simp [attempts_concat, h.attempts]⟩

theorem Idle.nil : Idle ([] : List (FlashEvent φ β)) := ⟨rfl, rfl, rfl, rfl⟩

theorem responses_next (files : φ) (step : FlashWorkflowStep β) (requested : List TransportKind) :
    responses (events ++ [.next files step requested]) = responses events := by
  simp [responses_concat]

theorem answered_next (files : φ) (step : FlashWorkflowStep β) (requested : List TransportKind) :
    answered (events ++ [.next files step requested]) = answered events := by
  simp [answered_concat]

/-- A step that is no attempt and requests nothing is allowed while all responses are acceptances and
the plan is there. -/
theorem Allowed.quiet {files : φ} {step : FlashWorkflowStep β} {plan : FlashPlan β}
    (hprepared : Prepared family.prepare (events ++ [.next files step []]) (.ok plan))
    (hresponses : ∀ r ∈ responses events, r = .accept)
    (hattempt : ∀ plan executor, step ≠ .attempt plan executor) :
    Allowed family events (.next files step []) := by
  refine ⟨fun e he => ?_, fun hr => ?_, fun plan executor h => absurd h (hattempt plan executor),
    fun _ => rfl⟩
  · cases hprepared.unique he
  · obtain ⟨r, hmem, hne⟩ := hr
    exact absurd (hresponses r hmem) hne

/-- `Next` while prompts are accepted: the next prompt, or the attempt when there is none left. -/
theorem nextPrompted_asking (family : FlashFamily φ β) (plan : FlashPlan β)
    (prompts : List FlashPromptStep) (accepted : ℕ) :
    let s : SingleAttempt β := ⟨some (.ok plan), some (.ok prompts), accepted, false, {}⟩
    (∃ p, prompts[accepted]? = some p ∧
      nextPrompted family plan prompts s = { step := .prompt p, state := s }) ∨
    (prompts.length ≤ accepted ∧ nextPrompted family plan prompts s =
      { step := .attempt plan .single
        requested := [family.transport]
        state := { s with attempted := true } }) := by
  intro s
  cases hp : prompts[accepted]? with
  | some p =>
    refine .inl ⟨p, rfl, ?_⟩
    simp [nextPrompted, s, FlashAttemptOutcome.finishedStep, hp]
  | none =>
    refine .inr ⟨List.getElem?_eq_none_iff.1 hp, ?_⟩
    simp [nextPrompted, s, FlashAttemptOutcome.finishedStep, hp]

theorem asking_next {plan : FlashPlan β} {prompts : List FlashPromptStep} {accepted : ℕ} {files : φ}
    (hprepared : events = [] ∧ family.prepare files = .ok plan ∨ Prepared family.prepare events (.ok plan))
    (hprompts : promptSequence plan = .ok prompts) (hle : accepted ≤ prompts.length)
    (hanswered : answered events = (prompts.take accepted).map fun p => (some p, .accept))
    (hresponses : ∀ r ∈ responses events, r = .accept) (hattempt : openAttempt events = none)
    (hrequests : requests events = []) (hattempts : attempts events = []) :
    let r := nextPrompted family plan prompts
      ⟨some (.ok plan), some (.ok prompts), accepted, false, {}⟩
    Allowed family events (.next files r.step r.requested) ∧
      Phase family (events ++ [.next files r.step r.requested]) r.state := by
  intro r
  have hconcat (step : FlashWorkflowStep β) (requested : List TransportKind) :
      Prepared family.prepare (events ++ [.next files step requested]) (.ok plan) := by
    rcases hprepared with ⟨rfl, hprepare⟩ | hprepared
    · exact ⟨files, step, requested, [], rfl, hprepare⟩
    · exact hprepared.concat _
  rcases nextPrompted_asking family plan prompts accepted with ⟨p, hp, hr⟩ | ⟨hlen, hr⟩
  · simp only [r, hr]
    refine ⟨.quiet (hconcat _ _) hresponses (fun _ _ h => nomatch h), ?_⟩
    refine .asking plan prompts accepted (hconcat _ _) hprompts hle ?_ ?_ ?_ ?_ ?_ ?_
    · rw [answered_next, hanswered]
    · rw [responses_next]
      exact hresponses
    · intro p' hp'
      rw [openPrompt_concat] at hp'
      cases hp'
      exact hp
    · rw [openAttempt_concat]
      exact hattempt
    · simp [requests_concat, hrequests]
    · simp [attempts_concat, hattempts]
  · simp only [r, hr]
    have hall : answered events = prompts.map fun p => (some p, .accept) := by
      rw [hanswered, List.take_of_length_le hlen]
    have hprep : Prepared family.prepare events (.ok plan) := by
      rcases hprepared with ⟨rfl, -⟩ | hprepared
      · -- `Begin` has not been answered, so there is a prompt left
        have hhead := promptSequence_head hprompts
        cases prompts with
        | nil => cases hhead
        | cons p rest => cases hall
      · exact hprepared
    refine ⟨⟨fun e he => ?_, fun hne => ?_, ?_, fun h => absurd rfl (h plan .single)⟩, ?_⟩
    · cases (hconcat _ _).unique he
    · obtain ⟨r, hmem, hne⟩ := hne
      exact absurd (hresponses r hmem) hne
    · rintro plan' executor heq
      cases heq
      exact ⟨hattempts, rfl, hprep, prompts, hprompts, hall⟩
    · refine .attempted plan prompts (hconcat _ _) rfl rfl (Nat.le_antisymm hle hlen) rfl ?_ ?_ ?_
      · rw [responses_next]
        exact hresponses
      · rw [openPrompt_concat]
        rfl
      · simp [attempts_concat, hattempts]

/-- A failure leaves the workflow as it was. -/
theorem failed_next {prepared : Except Error (FlashPlan β)} {e : Error} {files : φ}
    (hprepared : Prepared family.prepare (events ++ [.next files (.failure e) []]) prepared)
    (herror : prepared = .error e ∨
      ∃ plan, prepared = .ok plan ∧ promptSequence plan = .error e ∧ s.prompts = some (.error e))
    (hs : s.plan = some prepared) (hidle : Idle events) (hresponses : responses events = [])
    (hall : ∀ event ∈ events, ∃ files, event = .next files (.failure e) []) :
    Allowed family events (.next files (.failure e) []) ∧
      Phase family (events ++ [.next files (.failure e) []]) s := by
  refine ⟨⟨fun e' he' => ?_, fun hne => ?_, fun _ _ h => (nomatch h), fun _ => rfl⟩, ?_⟩
  · have := hprepared.unique he'
    rcases herror with rfl | ⟨plan, rfl, -⟩
    · cases this
      rfl
    · cases this
  · obtain ⟨r, hmem, -⟩ := hne
    rw [hresponses] at hmem
    cases hmem
  · refine .failed prepared e hprepared herror hs
      (hidle.next files (fun _ h => nomatch h) (fun _ _ h => nomatch h)) ?_ ?_
    · rw [responses_next]
      exact hresponses
    · intro event hmem
      rcases List.mem_append.1 hmem with hmem | hmem
      · exact hall event hmem
      · exact ⟨files, List.mem_singleton.1 hmem⟩

/-- `Next` in every phase. -/
theorem Phase.next (h : Phase family events s) (files : φ) :
    let r := SingleAttempt.next family files s
    Allowed family events (.next files r.step r.requested) ∧
      Phase family (events ++ [.next files r.step r.requested]) r.state := by
  cases h with
  | fresh =>
    have hprep (step : FlashWorkflowStep β) (requested : List TransportKind) :
        Prepared family.prepare ([] ++ [.next files step requested]) (family.prepare files) :=
      ⟨files, step, requested, [], rfl, rfl⟩
    simp only [SingleAttempt.next, Option.getD_none]
    cases hprepare : family.prepare files with
    | error e =>
      rw [hprepare] at hprep
      exact failed_next (hprep _ _) (.inl rfl) rfl .nil rfl (fun _ h => nomatch h)
    | ok plan =>
      rw [hprepare] at hprep
      simp only
      cases hprompts : promptSequence plan with
      | error e =>
        exact failed_next (hprep _ _) (.inr ⟨plan, rfl, hprompts, rfl⟩) rfl .nil rfl
          (fun _ h => nomatch h)
      | ok prompts =>
        exact asking_next (.inl ⟨rfl, hprepare⟩) hprompts (Nat.zero_le _) rfl
          (fun _ hr => nomatch hr) rfl rfl rfl
  | failed prepared e hprepared herror hs hidle hresponses hall =>
    simp only [SingleAttempt.next, hs, Option.getD_some]
    rcases herror with rfl | ⟨plan, rfl, hprompts, hsequence⟩
    · exact failed_next (hprepared.concat _) (.inl rfl) rfl hidle hresponses hall
    · simp only [hsequence, Option.getD_some]
      exact failed_next (hprepared.concat _) (.inr ⟨plan, rfl, hprompts, rfl⟩) rfl hidle hresponses
        hall
  | asking plan prompts accepted hprepared hprompts hle hanswered hresponses hprompt hattempt
      hrequests hattempts =>
    simp only [SingleAttempt.next, Option.getD_some]
    exact asking_next (.inr hprepared) hprompts hle hanswered hresponses hattempt hrequests hattempts
  | cancelled plan prompts hprepared hplan hs houtcome hidle =>
    simp only [SingleAttempt.next, hplan, hs, Option.getD_some, nextPrompted, houtcome]
    refine ⟨⟨fun e he => ?_, fun _ => rfl, fun _ _ h => (nomatch h), fun _ => rfl⟩, ?_⟩
    · cases hprepared.of_concat he
    · exact .cancelled plan prompts (hprepared.concat _) rfl rfl rfl
        (hidle.next files (fun _ h => nomatch h) (fun _ _ h => nomatch h))
  | attempted plan prompts hprepared hplan hs haccepted hattempted hresponses hprompt hattempts =>
    obtain ⟨_, _, accepted, attempted, outcome⟩ := s
    simp only at hplan hs haccepted hattempted
    subst hplan hs haccepted hattempted
    obtain ⟨step, outcome', hnext, houtcome⟩ : ∃ step outcome',
        SingleAttempt.next family files ⟨some (.ok plan), some (.ok prompts), prompts.length, true,
          outcome⟩ =
          { step, state := ⟨some (.ok plan), some (.ok prompts), prompts.length, true, outcome'⟩ } ∧
          step.isOutcome := by
      simp only [SingleAttempt.next, Option.getD_some, nextPrompted]
      rcases hfinished : (outcome.finishedStep : Option (FlashWorkflowStep β) × _) with
        ⟨finished, outcome'⟩
      cases finished with
      | some step => exact ⟨step, outcome', rfl, outcome.isOutcome_finishedStep hfinished⟩
      | none =>
        have hnone : prompts[prompts.length]? = none := List.getElem?_eq_none_iff.2 (Nat.le_refl _)
        simp only [hnone, if_true]
        exact ⟨_, _, rfl, rfl⟩
    have hstep : (∀ p, step ≠ .prompt p) ∧ ∀ plan executor, step ≠ .attempt plan executor := by
      constructor
      · rintro p rfl
        cases houtcome
      · rintro plan executor rfl
        cases houtcome
    simp only [hnext]
    refine ⟨.quiet (hprepared.concat _) hresponses hstep.2, ?_⟩
    refine .attempted plan prompts (hprepared.concat _) rfl rfl rfl rfl ?_ ?_ ?_
    · rw [responses_next]
      exact hresponses
    · rw [openPrompt_concat]
      cases step with
      | prompt p => cases houtcome
      | _ => rfl
    · rw [attempts_concat, hattempts]
      cases step with
      | attempt plan executor => cases houtcome
      | _ => rfl

/-- A response in every phase in which a prompt is open. -/
theorem Phase.respond (h : Phase family events s) (response : FlashPromptResponse)
    (hopen : (openPrompt events).isSome) :
    Allowed family events (.respond response) ∧
      Phase family (events ++ [.respond response]) (SingleAttempt.respond response s) := by
  cases h with
  | fresh => cases hopen
  | failed prepared e hprepared herror hs hidle hresponses hall =>
    rw [hidle.prompt] at hopen
    cases hopen
  | asking plan prompts accepted hprepared hprompts hle hanswered hresponses hprompt hattempt
      hrequests hattempts =>
    refine ⟨fun _ => hrequests, ?_⟩
    obtain ⟨p, hp⟩ := Option.isSome_iff_exists.1 hopen
    have hget := hprompt p hp
    by_cases haccept : response = .accept
    · subst haccept
      have hlt : accepted < prompts.length := (List.getElem?_eq_some_iff.1 hget).1
      refine .asking plan prompts (accepted + 1) (hprepared.concat _) hprompts hlt ?_ ?_ ?_ ?_ ?_ ?_
      · rw [answered_concat, hanswered, hp, List.take_add_one, hget, List.map_append]
        rfl
      · intro r hr
        rw [responses_concat] at hr
        rcases List.mem_append.1 hr with hr | hr
        · exact hresponses r hr
        · exact List.mem_singleton.1 hr
      · intro p' hp'
        rw [openPrompt_concat] at hp'
        cases hp'
      · rw [openAttempt_concat]
        exact hattempt
      · rw [requests_concat, hrequests]
        rfl
      · rw [attempts_concat, hattempts]
        rfl
    · rw [SingleAttempt.respond, if_pos haccept]
      refine .cancelled plan prompts (hprepared.concat _) rfl rfl rfl ⟨?_, ?_, ?_, ?_⟩
      · rw [openPrompt_concat]
        rfl
      · rw [openAttempt_concat]
        exact hattempt
      · rw [requests_concat, hrequests]
        rfl
      · rw [attempts_concat, hattempts]
        rfl
  | cancelled plan prompts hprepared hplan hs houtcome hidle =>
    rw [hidle.prompt] at hopen
    cases hopen
  | attempted plan prompts hprepared hplan hs haccepted hattempted hresponses hprompt hattempts =>
    rw [hprompt] at hopen
    cases hopen

/-- A result in every phase in which an attempt is open. -/
theorem Phase.finish (h : Phase family events s) (result : FlashAttemptResult)
    (hopen : (openAttempt events).isSome) :
    Phase family (events ++ [.finish result]) (SingleAttempt.finish result s) := by
  cases h with
  | fresh => cases hopen
  | failed prepared e hprepared herror hs hidle hresponses hall =>
    rw [hidle.attempt] at hopen
    cases hopen
  | asking plan prompts accepted hprepared hprompts hle hanswered hresponses hprompt hattempt
      hrequests hattempts =>
    rw [hattempt] at hopen
    cases hopen
  | cancelled plan prompts hprepared hplan hs houtcome hidle =>
    rw [hidle.attempt] at hopen
    cases hopen
  | attempted plan prompts hprepared hplan hs haccepted hattempted hresponses hprompt hattempts =>
    refine .attempted plan prompts (hprepared.concat _) hplan hs haccepted hattempted ?_ ?_ ?_
    · rw [responses_concat, List.append_nil]
      exact hresponses
    · rw [openPrompt_concat]
      exact hprompt
    · rw [attempts_concat, hattempts]
      rfl

/-- Every call of every interleaving is allowed. -/
theorem allowed_of_interleaving (h : Interleaving (workflow family) events s) :
    Phase family events s ∧ Each (Allowed family) events := by
  induction h with
  | initial => exact ⟨.fresh, .nil⟩
  | next files _ ih =>
    obtain ⟨hphase, heach⟩ := ih
    obtain ⟨hallowed, hnext⟩ := hphase.next files
    exact ⟨hnext, heach.concat hallowed⟩
  | respond response _ hopen ih =>
    obtain ⟨hphase, heach⟩ := ih
    obtain ⟨hallowed, hnext⟩ := hphase.respond response hopen
    exact ⟨hnext, heach.concat hallowed⟩
  | finish result _ hopen ih =>
    obtain ⟨hphase, heach⟩ := ih
    exact ⟨hphase.finish result hopen, heach.concat trivial⟩

theorem confirmationPrompts_eq_ok {prompts result : List FlashPromptStep}
    {confirmations : List ConfirmationSpec}
    (h : confirmationPrompts prompts confirmations = .ok result) : ∃ rest, result = prompts ++ rest ∧
      List.Forall₂ (fun c p => confirmationPrompt c = .ok p) confirmations rest := by
  induction confirmations generalizing prompts with
  | nil =>
    cases h
    exact ⟨[], by simp, .nil⟩
  | cons confirmation tail ih =>
    simp only [confirmationPrompts] at h
    split at h
    · cases h
    · rename_i prompt hprompt
      obtain ⟨rest, rfl, hall⟩ := ih h
      exact ⟨prompt :: rest, by simp, .cons hprompt hall⟩

end SingleAttempt

/-- What holds of the calls of a workflow of a single attempt. -/
structure SingleAttemptSpec {φ β : Type} (family : FlashFamily φ β)
    (events : List (FlashEvent φ β)) : Prop where
  /-- At most one attempt is bound. -/
  once : (attempts events).length ≤ 1
  /-- It is bound when `Begin` and then each confirmation of its plan have been accepted. -/
  bound : ∀ before files plan executor requested after,
    events = before ++ .next files (.attempt plan executor) requested :: after →
    ∃ prompts, List.Forall₂ (fun c p => confirmationPrompt c = .ok p) plan.confirmations prompts ∧
      answered before = (beginPrompt :: prompts).map fun p => (some p, .accept)
  /-- Its plan is the one that the first call prepared. -/
  snapshot : ∀ attempt ∈ attempts events, Prepared family.prepare events (.ok attempt.1)
  /-- A response that is no acceptance cancels the workflow, and no transport is ever requested. -/
  cancelled : ∀ before response after, events = before ++ .respond response :: after →
    response ≠ .accept → requests events = [] ∧ ∀ files step requested,
      .next files step requested ∈ after → step = .completed ⟨.cancelled, none, none⟩
  /-- If the plan cannot be prepared, the workflow fails from the first call on. -/
  unprepared : ∀ files step requested rest e, events = .next files step requested :: rest →
    family.prepare files = .error e → ∀ event ∈ events, ∃ files, event = .next files (.failure e) []

section Spec

open SingleAttempt

variable {φ β : Type} {family : FlashFamily φ β} {events : List (FlashEvent φ β)}

/-- After a response that is no acceptance nothing is requested. -/
theorem requests_of_cancelled (heach : Each (Allowed family) events)
    {before after : List (FlashEvent φ β)} {response : FlashPromptResponse}
    (hl : events = before ++ .respond response :: after) (hne : response ≠ .accept) :
    requests events = [] ∧ ∀ files step requested,
      .next files step requested ∈ after → step = .completed ⟨.cancelled, none, none⟩ := by
  have hafter : ∀ files step requested, .next files step requested ∈ after →
      step = .completed ⟨.cancelled, none, none⟩ ∧ requested = [] := by
    intro files step requested hmem
    obtain ⟨a, b, rfl⟩ := List.append_of_mem hmem
    have hallowed := heach (before ++ .respond response :: a) (.next files step requested) b
      (by simp [hl])
    have hstep := hallowed.2.1 ⟨response, by simp [responses], hne⟩
    refine ⟨hstep, hallowed.2.2.2 ?_⟩
    intro plan executor h
    rw [h] at hstep
    cases hstep
  refine ⟨?_, fun files step requested hmem => (hafter files step requested hmem).1⟩
  rw [hl]
  exact requests_eq_nil (heach before (.respond response) after hl hne)
    fun files step requested hmem => (hafter files step requested hmem).2

/-- **The workflow of a single attempt**: every interleaving keeps `SingleAttemptSpec`. -/
theorem singleAttemptSpec_of_interleaving {s : SingleAttempt β}
    (h : Interleaving (workflow family) events s) : SingleAttemptSpec family events := by
  obtain ⟨hphase, heach⟩ := allowed_of_interleaving h
  have hattempts : attempts events = [] ∨
      ∃ plan, attempts events = [(plan, .single)] ∧ Prepared family.prepare events (.ok plan) := by
    cases hphase with
    | fresh => exact .inl rfl
    | failed prepared e hprepared herror hs hidle hresponses hall => exact .inl hidle.attempts
    | asking plan prompts accepted hprepared hprompts hle hanswered hresponses hprompt hattempt
        hrequests hattempts => exact .inl hattempts
    | cancelled plan prompts hprepared hplan hs houtcome hidle => exact .inl hidle.attempts
    | attempted plan prompts hprepared hplan hs haccepted hattempted hresponses hprompt hattempts =>
      exact .inr ⟨plan, hattempts, hprepared⟩
  exact {
    once := by
      rcases hattempts with hnone | ⟨plan, hone, -⟩
      · rw [hnone]
        exact Nat.zero_le _
      · rw [hone]
        exact Nat.le_refl _
    bound := by
      intro before files plan executor requested after hl
      obtain ⟨-, -, hattempt, -⟩ := heach before _ after hl
      obtain ⟨-, -, -, prompts, hprompts, hanswered⟩ := hattempt plan executor rfl
      obtain ⟨rest, rfl, hall⟩ := confirmationPrompts_eq_ok hprompts
      exact ⟨rest, hall, hanswered⟩
    snapshot := by
      intro attempt hmem
      rcases hattempts with hnone | ⟨plan, hone, hprepared⟩
      · rw [hnone] at hmem
        cases hmem
      · rw [hone] at hmem
        rw [List.mem_singleton.1 hmem]
        exact hprepared
    cancelled := fun before response after hl hne => requests_of_cancelled heach hl hne
    unprepared := by
      intro files step requested rest e hl he
      have herror : Prepared family.prepare events (.error e) := ⟨files, step, requested, rest, hl, he⟩
      cases hphase with
      | fresh => cases hl
      | failed prepared e' hprepared herror' hs hidle hresponses hall =>
        have hunique := hprepared.unique herror
        subst hunique
        rcases herror' with heq | ⟨plan, heq, -⟩
        · cases heq
          exact hall
        · cases heq
      | asking plan prompts accepted hprepared => cases hprepared.unique herror
      | cancelled plan prompts hprepared => cases hprepared.unique herror
      | attempted plan prompts hprepared => cases hprepared.unique herror }

end Spec

end FastEcu.Flash
