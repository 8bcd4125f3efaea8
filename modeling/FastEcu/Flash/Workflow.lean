import FastEcu.Calibration.Definition
import FastEcu.Data.History

/-!
# Flash workflows

The steps between the operator, the worker and the ECU (`src/backend/flash/workflow/flash_workflow.cpp`):
a workflow is asked for its next step, which is a prompt, an attempt or an outcome, and is told the
response to a prompt and the result of an attempt.

* `FlashAttemptOutcome` : how a workflow ends, which all of them share.
* `FlashWorkflow` : a workflow as a state with its calls.
* `Interleaving` : the calls in any order, where a response answers a prompt and a result an attempt.
* `openPrompt`, `openAttempt`, `answered`, `requests` : what has been asked, answered and requested.
* `Prepared` : what the first call prepared.
-/

namespace FastEcu.Flash

open Memory
open Calibration (Error ErrorKind)
open Data

/-! ### Steps -/

/-- `FlashOperation`. -/
inductive FlashOperation
  | read
  | testWrite
  | write
deriving DecidableEq, Repr

/-- `ConfirmationSpec::Id`. -/
inductive ConfirmationId
  | beginEepromRead
  | inspectEepromBytes
  | cycleIgnition
  | eraseTrigger
  | topRegionBootstrap
  | applyProgrammingVoltage
  | applyBootModeVoltages
  | startKlineRead
  | kernelBootstrap
deriving DecidableEq, Repr

/-- `ConfirmationSpec`. -/
structure ConfirmationSpec where
  id : ConfirmationId
  arguments : List (String × String) := []
deriving DecidableEq, Repr

/-- `FlashPlan`: the confirmations it asks for, and what the executor reads of it. -/
structure FlashPlan (β : Type) where
  confirmations : List ConfirmationSpec
  content : β

/-- `FlashPromptKind`. -/
inductive FlashPromptKind
  | begin
  | coltEraseTrigger
  | coltTopRegionBootstrap
  | inspectRead
  | cycleIgnition
  | confirmSh7058Read
  | confirmBdmKernelBootstrap
  | applyProgrammingVoltage
  | removeProgrammingVoltage
  | applyBootModeVoltages
  | removeMod1
deriving DecidableEq, Repr

/-- `FlashPromptResponse`. -/
inductive FlashPromptResponse
  | accept
  | decline
  | save
  | discard
deriving DecidableEq, Repr

/-- `FlashWorkflowOutcome`. -/
inductive FlashWorkflowOutcome
  | succeeded
  | cancelled
  | discarded
  | failed
deriving DecidableEq, Repr

/-- `FlashPromptStep`. -/
structure FlashPromptStep where
  kind : FlashPromptKind
  arguments : List (String × String) := []
deriving DecidableEq, Repr

/-- `FlashAttemptResult`. -/
structure FlashAttemptResult where
  success : Bool := false
  errorKind : ErrorKind := .internal
  errorDetail : String := ""
  readBytes : Option Bytes := none
  romId : Option String := none
deriving DecidableEq

/-- `FlashCompletedStep`. -/
structure FlashCompletedStep where
  outcome : FlashWorkflowOutcome
  acceptedReadBytes : Option Bytes := none
  romId : Option String := none
deriving DecidableEq

/-- The transports of `IFlashTransportSource`. -/
inductive TransportKind
  | kline
  | can
  | mixedCan
deriving DecidableEq, Repr

/-- The executors that the Unisia JECS M32R workflows bind, and the one of a single attempt. -/
inductive ExecutorKind
  | single
  | kline
  | bootModeKernel
  | bootModeProgram
deriving DecidableEq, Repr

/-- `FlashWorkflowStep`. -/
inductive FlashWorkflowStep (β : Type)
  | prompt (prompt : FlashPromptStep)
  | attempt (plan : FlashPlan β) (executor : ExecutorKind)
  | completed (step : FlashCompletedStep)
  | failure (error : Error)

/-- The step that a workflow starts with. -/
def beginPrompt : FlashPromptStep := ⟨.begin, []⟩

/-! ### How a workflow ends -/

/-- `FlashAttemptOutcome`. -/
structure FlashAttemptOutcome where
  terminal : Bool := false
  outcome : FlashWorkflowOutcome := .failed
  bytes : Option Bytes := none
  romId : Option String := none
  failure : Option Error := none
deriving DecidableEq

namespace FlashAttemptOutcome

/-- `FlashAttemptOutcome::Succeed`. -/
def succeed (o : FlashAttemptOutcome) (bytes : Option Bytes) (romId : Option String) :
    FlashAttemptOutcome :=
  { o with terminal := true, outcome := .succeeded, bytes, romId }

/-- `FlashAttemptOutcome::Cancel`. -/
def cancel (o : FlashAttemptOutcome) : FlashAttemptOutcome :=
  { o with terminal := true, outcome := .cancelled }

/-- `FlashAttemptOutcome::Discard`. -/
def discard (o : FlashAttemptOutcome) : FlashAttemptOutcome :=
  { o with terminal := true, outcome := .discarded }

/-- `FlashAttemptOutcome::Fail`. -/
def fail (o : FlashAttemptOutcome) (error : Error) : FlashAttemptOutcome :=
  { o with terminal := true, outcome := .failed, failure := some error }

/-- `FlashAttemptOutcome::Record`. -/
def record (o : FlashAttemptOutcome) (result : FlashAttemptResult) : FlashAttemptOutcome :=
  if result.success then o.succeed result.readBytes result.romId
  else if result.errorKind = .cancelled then o.cancel
  else o.fail ⟨result.errorKind, result.errorDetail⟩

/-- `FlashAttemptOutcome::CompletedStep`.  The bytes and the id are moved out, which leaves empty
ones. -/
def completedStep (o : FlashAttemptOutcome) : FlashCompletedStep × FlashAttemptOutcome :=
  (⟨o.outcome, o.bytes, o.romId⟩,
    { o with bytes := o.bytes.map fun _ => [], romId := o.romId.map fun _ => "" })

/-- `FlashAttemptOutcome::FinishedStep`.  The failure is moved out, which leaves an empty text. -/
def finishedStep {β : Type} (o : FlashAttemptOutcome) :
    Option (FlashWorkflowStep β) × FlashAttemptOutcome :=
  match o.failure with
  | some error => (some (.failure error), { o with failure := some ⟨error.kind, ""⟩ })
  | none =>
    if o.terminal then (some (.completed o.completedStep.1), o.completedStep.2) else (none, o)

end FlashAttemptOutcome

/-- The step is an outcome. -/
def FlashWorkflowStep.isOutcome {β : Type} : FlashWorkflowStep β → Bool
  | .completed _ => true
  | .failure _ => true
  | _ => false

/-- `AttemptOutcomeName`. -/
def attemptOutcomeName (result : FlashAttemptResult) : String :=
  if result.success then "succeeded"
  else if result.errorKind = .cancelled then "cancelled" else "failed"

theorem FlashAttemptOutcome.isOutcome_finishedStep {β : Type} {o o' : FlashAttemptOutcome}
    {step : FlashWorkflowStep β} (h : o.finishedStep = (some step, o')) : step.isOutcome := by
  simp only [finishedStep] at h
  split at h
  · cases h
    rfl
  · split at h
    · cases h
      rfl
    · cases h

/-! ### Calls in any order -/

/-- What a call of `Next` gives: the step and the transports that were requested for it. -/
structure NextResult (σ β : Type) where
  step : FlashWorkflowStep β
  requested : List TransportKind := []
  state : σ

/-- `FlashWorkflow`: the state and its calls.  `Next` may read files, which are a parameter of each
call, as they may change between two. -/
structure FlashWorkflow (σ φ β : Type) where
  initial : σ
  next : φ → σ → NextResult σ β
  respond : FlashPromptResponse → σ → σ
  finish : FlashAttemptResult → σ → σ

/-- A call, and what it gave. -/
inductive FlashEvent (φ β : Type)
  /-- `Next`, with the files at that time. -/
  | next (files : φ) (step : FlashWorkflowStep β) (requested : List TransportKind)
  /-- `Submit` of a response. -/
  | respond (response : FlashPromptResponse)
  /-- `Submit` of a result. -/
  | finish (result : FlashAttemptResult)

section Events

variable {φ β : Type}

/-- The prompt that is open after an event. -/
def promptAfter (prompt : Option FlashPromptStep) : FlashEvent φ β → Option FlashPromptStep
  | .next _ (.prompt prompt) _ => some prompt
  | .next _ _ _ => none
  | .respond _ => none
  | .finish _ => prompt

/-- The prompt that the last step was, if it has not been answered. -/
def openPrompt (events : List (FlashEvent φ β)) : Option FlashPromptStep :=
  events.foldl promptAfter none

/-- The attempt that is open after an event. -/
def attemptAfter (attempt : Option ExecutorKind) : FlashEvent φ β → Option ExecutorKind
  | .next _ (.attempt _ executor) _ => some executor
  | .finish _ => none
  | _ => attempt

/-- The executor of the attempt that has been bound last, if its result is not there. -/
def openAttempt (events : List (FlashEvent φ β)) : Option ExecutorKind :=
  events.foldl attemptAfter none

/-- The responses, each with the prompt it answers. -/
def answered (events : List (FlashEvent φ β)) :
    List (Option FlashPromptStep × FlashPromptResponse) :=
  (events.foldl (fun (acc : List _ × Option FlashPromptStep) event =>
    (match event with
      | .respond response => acc.1 ++ [(acc.2, response)]
      | _ => acc.1,
      promptAfter acc.2 event)) ([], none)).1

/-- The responses. -/
def responses (events : List (FlashEvent φ β)) : List FlashPromptResponse :=
  events.filterMap fun
    | .respond response => some response
    | _ => none

/-- The transports that have been requested. -/
def requests (events : List (FlashEvent φ β)) : List TransportKind :=
  events.flatMap fun
    | .next _ _ requested => requested
    | _ => []

/-- The plans and executors of the attempts that have been bound. -/
def attempts (events : List (FlashEvent φ β)) : List (FlashPlan β × ExecutorKind) :=
  events.filterMap fun
    | .next _ (.attempt plan executor) _ => some (plan, executor)
    | _ => none

/-- The first call was a `Next`, and this is what was prepared from the files then. -/
def Prepared {γ : Type} (prepare : φ → γ) (events : List (FlashEvent φ β)) (prepared : γ) : Prop :=
  ∃ files step requested rest, events = .next files step requested :: rest ∧
    prepare files = prepared

/-- The calls of a workflow, in any order in which a response answers a prompt and a result an
attempt. -/
inductive Interleaving {σ : Type} (w : FlashWorkflow σ φ β) : List (FlashEvent φ β) → σ → Prop
  | initial : Interleaving w [] w.initial
  | next {events : List (FlashEvent φ β)} {s : σ} (files : φ) (h : Interleaving w events s) :
      Interleaving w (events ++ [.next files (w.next files s).step (w.next files s).requested])
        (w.next files s).state
  | respond {events : List (FlashEvent φ β)} {s : σ} (response : FlashPromptResponse)
      (h : Interleaving w events s) (hopen : (openPrompt events).isSome) :
      Interleaving w (events ++ [.respond response]) (w.respond response s)
  | finish {events : List (FlashEvent φ β)} {s : σ} (result : FlashAttemptResult)
      (h : Interleaving w events s) (hopen : (openAttempt events).isSome) :
      Interleaving w (events ++ [.finish result]) (w.finish result s)

variable {events : List (FlashEvent φ β)} {event : FlashEvent φ β}

@[simp]
theorem openPrompt_concat : openPrompt (events ++ [event]) = promptAfter (openPrompt events) event := by
  simp [openPrompt]

@[simp]
theorem openAttempt_concat :
    openAttempt (events ++ [event]) = attemptAfter (openAttempt events) event := by
  simp [openAttempt]

theorem responses_concat : responses (events ++ [event]) =
    responses events ++ match event with
      | .respond response => [response]
      | _ => [] := by
  cases event <;> simp [responses]

theorem requests_concat : requests (events ++ [event]) =
    requests events ++ match event with
      | .next _ _ requested => requested
      | _ => [] := by
  cases event <;> simp [requests]

theorem attempts_concat : attempts (events ++ [event]) =
    attempts events ++ match event with
      | .next _ (.attempt plan executor) _ => [(plan, executor)]
      | _ => [] := by
  cases event with
  | next files step requested => cases step <;> simp [attempts]
  | respond response => simp [attempts]
  | finish result => simp [attempts]

theorem answered_fold (events : List (FlashEvent φ β)) :
    (events.foldl (fun (acc : List _ × Option FlashPromptStep) event =>
      (match event with
        | .respond response => acc.1 ++ [(acc.2, response)]
        | _ => acc.1,
        promptAfter acc.2 event)) ([], none)).2 = openPrompt events := by
  induction events using List.reverseRecOn with
  | nil => rfl
  | append_singleton events event ih =>
    rw [List.foldl_append, List.foldl_cons, List.foldl_nil, ih, openPrompt_concat]

theorem answered_concat : answered (events ++ [event]) =
    answered events ++ match event with
      | .respond response => [(openPrompt events, response)]
      | _ => [] := by
  rw [answered, List.foldl_append, List.foldl_cons, List.foldl_nil, answered_fold]
  cases event <;> simp [answered]

theorem answered_append (after : List (FlashEvent φ β)) :
    answered events <+: answered (events ++ after) := by
  induction after using List.reverseRecOn with
  | nil => simp
  | append_singleton after event ih =>
    rw [← List.append_assoc, answered_concat]
    exact ih.trans (List.prefix_append _ _)

/-- A response stays among the answers. -/
theorem mem_answered (response : FlashPromptResponse) (after : List (FlashEvent φ β)) :
    (openPrompt events, response) ∈ answered (events ++ .respond response :: after) := by
  rw [List.append_cons]
  refine (answered_append after).subset ?_
  rw [answered_concat]
  exact List.mem_append_right _ (List.mem_singleton_self _)

/-- When nothing is requested before a response and after it, nothing is requested. -/
theorem requests_eq_nil {after : List (FlashEvent φ β)} {response : FlashPromptResponse}
    (hbefore : requests events = [])
    (hafter : ∀ files step requested, .next files step requested ∈ after → requested = []) :
    requests (events ++ .respond response :: after) = [] := by
  rw [requests] at hbefore
  rw [requests, List.flatMap_append, List.flatMap_cons, hbefore, List.nil_append, List.nil_append,
    List.flatMap_eq_nil_iff]
  intro event hmem
  cases event with
  | next files step requested => exact hafter files step requested hmem
  | respond response => rfl
  | finish result => rfl

variable {γ : Type} {prepare : φ → γ} {prepared prepared' : γ}

theorem Prepared.concat (h : Prepared prepare events prepared) (event : FlashEvent φ β) :
    Prepared prepare (events ++ [event]) prepared := by
  obtain ⟨files, step, requested, rest, rfl, hprepared⟩ := h
  exact ⟨files, step, requested, rest ++ [event], by simp, hprepared⟩

theorem Prepared.unique (h : Prepared prepare events prepared)
    (h' : Prepared prepare events prepared') : prepared = prepared' := by
  obtain ⟨files, step, requested, rest, rfl, rfl⟩ := h
  obtain ⟨files', step', requested', rest', heq, rfl⟩ := h'
  cases heq
  rfl

theorem Prepared.of_concat (h : Prepared prepare events prepared)
    (h' : Prepared prepare (events ++ [event]) prepared') : prepared = prepared' :=
  (h.concat event).unique h'

end Events

end FastEcu.Flash
