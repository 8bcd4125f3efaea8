import FastEcu.Flash.Workflow

/-!
# EEPROM workflows

`EepromWorkflow` of `src/backend/flash/workflow/flash_workflow.cpp`: the operator accepts `Begin`, and the
EEPROM is read in the modes 2, 3 and 4 until the operator saves what was read.

* `Eeprom.workflow` : the workflow of a route.
* `Conversation` : the steps of a workflow, each with its answer.
* `EepromSpec` : what the attempts, the prompts and the outcome of a conversation are.
* `Turn.Meets` : the answer leaves the order of the prompts as the plans ask for it.
* `conversation_spec` : every conversation with such answers has the property.
* `conversation_failed` : a conversation with a failed attempt, which has not.
-/

namespace FastEcu.Flash

open Memory
open Calibration (Error ErrorKind)
open Data

/-! ### The workflow -/

/-- `EepromReadMode`. -/
inductive EepromReadMode
  | mode2
  | mode3
  | mode4
deriving DecidableEq, Repr

/-- `ConfirmationsForMode`. -/
def confirmationsForMode : EepromReadMode → List ConfirmationSpec
  | .mode2 => [{ id := .beginEepromRead }, { id := .inspectEepromBytes }]
  | _ => [{ id := .beginEepromRead }, { id := .cycleIgnition }, { id := .inspectEepromBytes }]

/-- `EepromWorkflow::Advance`. -/
def EepromReadMode.advance : EepromReadMode → EepromReadMode
  | .mode2 => .mode3
  | _ => .mode4

/-- What a route gives to `EepromWorkflow`: the operation, the rest of the plan of a mode, and the
transport. -/
structure EepromRoute (φ β : Type) where
  operation : FlashOperation
  build : φ → EepromReadMode → Except Error β
  transport : TransportKind

/-- The fields of `EepromWorkflow`. -/
structure Eeprom where
  mode : EepromReadMode := .mode2
  begun : Bool := false
  needCycle : Bool := false
  inspect : Bool := false
  pending : Option Bytes := none
  outcome : FlashAttemptOutcome := {}

/-- The prompt for the ignition. -/
def cyclePrompt : FlashPromptStep := ⟨.cycleIgnition, []⟩

/-- The prompt for what was read. -/
def inspectPrompt : FlashPromptStep := ⟨.inspectRead, []⟩

namespace Eeprom

variable {φ β : Type} (route : EepromRoute φ β)

/-- `BuildEepromReadPlan`: the confirmations are those of the mode. -/
def buildEepromReadPlan (files : φ) (mode : EepromReadMode) :
    Except Error (FlashPlan (EepromReadMode × β)) :=
  match route.build files mode with
  | .error e => .error e
  | .ok rest => .ok ⟨confirmationsForMode mode, (mode, rest)⟩

/-- `EepromWorkflow::Next` before the outcome. -/
def nextOpen (files : φ) (s : Eeprom) : NextResult Eeprom (EepromReadMode × β) :=
  if !s.begun then { step := .prompt beginPrompt, state := s }
  else if s.needCycle then { step := .prompt cyclePrompt, state := s }
  else if s.inspect then { step := .prompt inspectPrompt, state := s }
  else
    match buildEepromReadPlan route files s.mode with
    | .error e => { step := .failure e, state := s }
    | .ok plan => { step := .attempt plan .single, requested := [route.transport], state := s }

/-- `EepromWorkflow::Next`. -/
def next (files : φ) (s : Eeprom) : NextResult Eeprom (EepromReadMode × β) :=
  if route.operation ≠ .read then
    { step := .failure ⟨.unsupported, "EEPROM workflows support read operations only"⟩, state := s }
  else
    match s.outcome.finishedStep with
    | (some step, outcome) => { step, state := { s with outcome } }
    | (none, _) => nextOpen route files s

/-- `EepromWorkflow::Submit` of a response to what was read. -/
def respondInspect (response : FlashPromptResponse) (s : Eeprom) : Eeprom :=
  if response = .save then
    -- the bytes are moved out, which leaves empty ones
    { s with inspect := false, outcome := s.outcome.succeed s.pending none
             pending := s.pending.map fun _ => [] }
  else if s.mode = .mode4 then { s with inspect := false, outcome := s.outcome.discard }
  else { s with inspect := false, mode := s.mode.advance, needCycle := true, pending := none }

/-- `EepromWorkflow::Submit` of a response. -/
def respond (response : FlashPromptResponse) (s : Eeprom) : Eeprom :=
  if !s.begun then
    if response = .accept then { s with begun := true } else { s with outcome := s.outcome.cancel }
  else if s.needCycle then
    if response = .accept then { s with needCycle := false }
    else { s with needCycle := false, outcome := s.outcome.cancel }
  else if s.inspect then respondInspect response s
  else s

/-- `EepromWorkflow::Submit` of a result. -/
def finish (result : FlashAttemptResult) (s : Eeprom) : Eeprom :=
  if result.success then { s with pending := result.readBytes, inspect := true }
  else if result.errorKind = .cancelled then { s with outcome := s.outcome.cancel }
  else if s.mode ≠ .mode4 then { s with mode := s.mode.advance }
  else { s with outcome := s.outcome.fail ⟨result.errorKind, result.errorDetail⟩ }

/-- `EepromWorkflow`. -/
def workflow : FlashWorkflow Eeprom φ (EepromReadMode × β) where
  initial := {}
  next := next route
  respond := respond
  finish := finish

end Eeprom

/-! ### Conversations -/

/-- A step with its answer. -/
inductive Turn (β : Type)
  | prompt (prompt : FlashPromptStep) (response : FlashPromptResponse)
  | attempt (plan : FlashPlan β) (result : FlashAttemptResult)

/-- The steps of a workflow, each with its answer: a step that is an outcome has none, and ends the
conversation. -/
inductive Conversation {σ φ β : Type} (w : FlashWorkflow σ φ β) : List (Turn β) → σ → Prop
  | initial : Conversation w [] w.initial
  | prompt {turns : List (Turn β)} {s : σ} (files : φ) {prompt : FlashPromptStep}
      (h : Conversation w turns s) (hstep : (w.next files s).step = .prompt prompt)
      (response : FlashPromptResponse) :
      Conversation w (turns ++ [.prompt prompt response]) (w.respond response (w.next files s).state)
  | attempt {turns : List (Turn β)} {s : σ} (files : φ) {plan : FlashPlan β} {executor : ExecutorKind}
      (h : Conversation w turns s) (hstep : (w.next files s).step = .attempt plan executor)
      (result : FlashAttemptResult) :
      Conversation w (turns ++ [.attempt plan result]) (w.finish result (w.next files s).state)

namespace Turn

variable {β : Type}

/-- The mode of an attempt. -/
def mode? : Turn (EepromReadMode × β) → Option EepromReadMode
  | .attempt plan _ => some plan.content.1
  | .prompt _ _ => none

/-- A prompt was declined: the question was not accepted, or what was read was declined. -/
def Declined : Turn β → Prop
  | .prompt p response => response = .decline ∨ p.kind ≠ .inspectRead ∧ response ≠ .accept
  | .attempt _ _ => False

/-- An attempt was cancelled. -/
def Cancelled : Turn β → Prop
  | .attempt _ result => result.success = false ∧ result.errorKind = .cancelled
  | .prompt _ _ => False

/-- The answer leaves the order of the prompts as the plans ask for it: no attempt but the last fails,
if it is not cancelled, and what was read is saved or discarded. -/
def Meets : Turn (EepromReadMode × β) → Prop
  | .attempt plan result =>
    plan.content.1 = .mode4 ∨ result.success = true ∨ result.errorKind = .cancelled
  | .prompt p response => p.kind = .inspectRead → response ≠ .decline

end Turn

section Spec

variable {β : Type}

/-- The mode of a step that is an attempt. -/
def FlashWorkflowStep.mode? : FlashWorkflowStep (EepromReadMode × β) → Option EepromReadMode
  | .attempt plan _ => some plan.content.1
  | _ => none

/-- The modes of the attempts. -/
def modes (turns : List (Turn (EepromReadMode × β))) : List EepromReadMode := turns.filterMap Turn.mode?

/-- The ignition was cycled since the last attempt. -/
def Cycled (turns : List (Turn (EepromReadMode × β))) : Prop :=
  ∃ before after, turns = before ++ .prompt cyclePrompt .accept :: after ∧ modes after = []

/-- The ignition was cycled if the plan asks for it. -/
def Honoured (turns : List (Turn (EepromReadMode × β))) (plan : FlashPlan (EepromReadMode × β)) :
    Prop :=
  (∃ spec ∈ plan.confirmations, spec.id = .cycleIgnition) → Cycled turns

/-- What a conversation of an EEPROM workflow is, with the step that comes after it. -/
structure EepromSpec (turns : List (Turn (EepromReadMode × β)))
    (step : FlashWorkflowStep (EepromReadMode × β)) : Prop where
  /-- The modes are taken in order, each at most once. -/
  modes : modes turns ++ step.mode?.toList <+: [.mode2, .mode3, .mode4]
  /-- The confirmations for the ignition are honoured. -/
  honoured : (∀ before plan result after, turns = before ++ .attempt plan result :: after →
      Honoured before plan) ∧ ∀ plan executor, step = .attempt plan executor → Honoured turns plan
  /-- Bytes are those of the last attempt, which the operator saved. -/
  returned : ∀ c bytes, step = .completed c → c.acceptedReadBytes = some bytes →
    ∃ before plan result, turns = before ++ [.attempt plan result, .prompt inspectPrompt .save] ∧
      result.success = true ∧ result.readBytes = some bytes
  /-- What is declined or cancelled ends the workflow as cancelled. -/
  cancelled : ∀ before turn after, turns = before ++ turn :: after →
    turn.Declined ∨ turn.Cancelled → after = [] ∧ step = .completed { outcome := .cancelled }
  /-- The conversation ends. -/
  ended : turns.length ≤ 9

end Spec

/-! ### Phases -/

namespace EepromReadMode

/-- The modes before a mode. -/
def before : EepromReadMode → List EepromReadMode
  | .mode2 => []
  | .mode3 => [.mode2]
  | .mode4 => [.mode2, .mode3]

theorem before_concat_isPrefix (mode : EepromReadMode) :
    mode.before ++ [mode] <+: [.mode2, .mode3, .mode4] := by
  cases mode <;> decide

theorem before_advance {mode : EepromReadMode} (h : mode ≠ .mode4) :
    mode.advance.before = mode.before ++ [mode] := by
  cases mode with
  | mode4 => exact absurd rfl h
  | _ => rfl

end EepromReadMode

namespace Eeprom

variable {φ β : Type} {route : EepromRoute φ β} {turns : List (Turn (EepromReadMode × β))}
  {turn : Turn (EepromReadMode × β)} {s : Eeprom}

/-- The confirmations of every attempt are honoured. -/
def EachHonoured (turns : List (Turn (EepromReadMode × β))) : Prop :=
  Each (fun before turn => ∀ plan result, turn = .attempt plan result → Honoured before plan) turns

/-- Nothing was declined or cancelled. -/
def Open (turns : List (Turn (EepromReadMode × β))) : Prop :=
  ∀ turn ∈ turns, ¬ (turn.Declined ∨ turn.Cancelled)

/-- How a conversation has ended. -/
inductive Ended (turns : List (Turn (EepromReadMode × β))) : FlashAttemptOutcome → Prop
  | cancelled : Ended turns (FlashAttemptOutcome.cancel {})
  | saved (before : List (Turn (EepromReadMode × β))) (plan : FlashPlan (EepromReadMode × β))
      (result : FlashAttemptResult)
      (hturns : turns = before ++ [.attempt plan result, .prompt inspectPrompt .save])
      (hsuccess : result.success = true) : Ended turns (FlashAttemptOutcome.succeed {} result.readBytes none)
  | discarded : Ended turns (FlashAttemptOutcome.discard {})
  | failed (e : Error) : Ended turns (FlashAttemptOutcome.fail {} e)

/-- Where the workflow is in a conversation.  A mode takes at most three turns: the ignition, the attempt
and what was read. -/
inductive Phase : List (Turn (EepromReadMode × β)) → Eeprom → Prop
  | fresh : Phase [] {}
  /-- The ignition must be cycled before the attempt. -/
  | cycling {turns : List (Turn (EepromReadMode × β))} (mode : EepromReadMode)
      (hmodes : modes turns = mode.before) (hlength : turns.length ≤ 3 * mode.before.length)
      (hhonoured : EachHonoured turns) (hopen : Open turns) :
      Phase turns { mode, begun := true, needCycle := true }
  /-- The attempt is next. -/
  | ready {turns : List (Turn (EepromReadMode × β))} (mode : EepromReadMode)
      (hmodes : modes turns = mode.before) (hlength : turns.length ≤ 1 + 3 * mode.before.length)
      (hcycled : mode ≠ .mode2 → Cycled turns) (hhonoured : EachHonoured turns) (hopen : Open turns) :
      Phase turns { mode, begun := true }
  /-- The operator looks at what was read. -/
  | inspecting {turns : List (Turn (EepromReadMode × β))} (mode : EepromReadMode)
      (before : List (Turn (EepromReadMode × β))) (plan : FlashPlan (EepromReadMode × β))
      (result : FlashAttemptResult) (hturns : turns = before ++ [.attempt plan result])
      (hsuccess : result.success = true) (hmodes : modes turns = mode.before ++ [mode])
      (hlength : turns.length ≤ 2 + 3 * mode.before.length)
      (hhonoured : EachHonoured turns) (hopen : Open turns) :
      Phase turns { mode, begun := true, inspect := true, pending := result.readBytes }
  /-- The workflow has an outcome. -/
  | ended {turns : List (Turn (EepromReadMode × β))} {s : Eeprom} (hended : Ended turns s.outcome)
      (hmodes : modes turns <+: [.mode2, .mode3, .mode4]) (hlength : turns.length ≤ 9)
      (hhonoured : EachHonoured turns)
      (hlast : ∀ before turn after, turns = before ++ turn :: after →
        turn.Declined ∨ turn.Cancelled → after = [] ∧ s.outcome = FlashAttemptOutcome.cancel {}) :
      Phase turns s

/-! ### Turns -/

theorem modes_concat_prompt (p : FlashPromptStep) (response : FlashPromptResponse) :
    modes (turns ++ [.prompt p response]) = modes turns := by
  simp [modes, Turn.mode?]

theorem modes_concat_attempt (plan : FlashPlan (EepromReadMode × β)) (result : FlashAttemptResult) :
    modes (turns ++ [.attempt plan result]) = modes turns ++ [plan.content.1] := by
  simp [modes, Turn.mode?]

theorem EachHonoured.prompt (h : EachHonoured turns) (p : FlashPromptStep)
    (response : FlashPromptResponse) : EachHonoured (turns ++ [.prompt p response]) :=
  h.concat fun _ _ hturn => (nomatch hturn)

theorem Open.concat (h : Open turns) (hturn : ¬ (turn.Declined ∨ turn.Cancelled)) :
    Open (turns ++ [turn]) := by
  intro turn' hmem
  rcases List.mem_append.1 hmem with hmem | hmem
  · exact h turn' hmem
  · rw [List.mem_singleton.1 hmem]
    exact hturn

/-- A turn that closes a conversation is its last. -/
theorem Open.last (h : Open turns) {o : FlashAttemptOutcome}
    (hturn : turn.Declined ∨ turn.Cancelled → o = FlashAttemptOutcome.cancel {}) :
    ∀ before turn' after, turns ++ [turn] = before ++ turn' :: after →
      turn'.Declined ∨ turn'.Cancelled → after = [] ∧ o = FlashAttemptOutcome.cancel {} := by
  intro before turn' after hturns hcloses
  rcases List.eq_nil_or_concat after with rfl | ⟨rest, c, rfl⟩
  · obtain ⟨rfl, hlast⟩ := List.append_inj' hturns rfl
    cases hlast
    exact ⟨rfl, hturn hcloses⟩
  · have hmem : turn' ∈ turns := by
      have hl : turns ++ [turn] = (before ++ turn' :: rest) ++ [c] := by simpa using hturns
      obtain ⟨rfl, -⟩ := List.append_inj' hl rfl
      simp
    exact absurd hcloses (h turn' hmem)

/-- The ignition has been cycled by the last turn. -/
theorem cycled_concat : Cycled (turns ++ [.prompt cyclePrompt .accept]) := ⟨turns, [], rfl, rfl⟩

/-- The plan of a mode asks for the ignition unless the mode is the first. -/
theorem honoured_of_cycled {mode : EepromReadMode} {rest : β} (h : mode ≠ .mode2 → Cycled turns) :
    Honoured turns ⟨confirmationsForMode mode, (mode, rest)⟩ := by
  rintro ⟨spec, hmem, hid⟩
  refine h ?_
  rintro rfl
  simp only [confirmationsForMode, List.mem_cons, List.not_mem_nil, or_false] at hmem
  rcases hmem with rfl | rfl <;> cases hid

/-! ### Steps -/

theorem buildEepromReadPlan_eq_ok {files : φ} {mode : EepromReadMode}
    {plan : FlashPlan (EepromReadMode × β)} (h : buildEepromReadPlan route files mode = .ok plan) :
    ∃ rest, plan = ⟨confirmationsForMode mode, (mode, rest)⟩ := by
  unfold buildEepromReadPlan at h
  split at h
  · cases h
  · rename_i rest _
    cases h
    exact ⟨rest, rfl⟩

/-- A workflow without an outcome goes on. -/
theorem next_of_open {files : φ} (hread : route.operation = .read) (h : s.outcome = {}) :
    next route files s = nextOpen route files s := by
  unfold next
  rw [if_neg (not_not.2 hread), h]
  rfl

/-- The step of an outcome: what is saved is returned. -/
theorem Ended.finished {o : FlashAttemptOutcome} (h : Ended turns o) :
    ∃ step o', o.finishedStep (β := EepromReadMode × β) = (some step, o') ∧ step.mode? = none ∧
      (o = FlashAttemptOutcome.cancel {} → step = .completed { outcome := .cancelled }) ∧
      ∀ c bytes, step = .completed c → c.acceptedReadBytes = some bytes →
        ∃ before plan result, turns = before ++ [.attempt plan result, .prompt inspectPrompt .save] ∧
          result.success = true ∧ result.readBytes = some bytes := by
  cases h with
  | cancelled =>
    refine ⟨_, _, rfl, rfl, fun _ => rfl, ?_⟩
    intro c bytes hc hbytes
    cases hc
    cases hbytes
  | saved before plan result hturns hsuccess =>
    refine ⟨_, _, rfl, rfl, fun h => (nomatch h), ?_⟩
    intro c bytes hc hbytes
    cases hc
    exact ⟨before, plan, result, hturns, hsuccess, hbytes⟩
  | discarded =>
    refine ⟨_, _, rfl, rfl, fun h => (nomatch h), ?_⟩
    intro c bytes hc hbytes
    cases hc
    cases hbytes
  | failed e =>
    refine ⟨_, _, rfl, rfl, fun h => (nomatch h), ?_⟩
    intro c bytes hc
    cases hc

/-- A workflow with an outcome gives it. -/
theorem next_of_ended {files : φ} {step : FlashWorkflowStep (EepromReadMode × β)}
    {o : FlashAttemptOutcome} (hread : route.operation = .read)
    (h : s.outcome.finishedStep = (some step, o)) : (next route files s).step = step := by
  unfold next
  rw [if_neg (not_not.2 hread), h]

/-- A workflow that does not read only fails. -/
theorem next_of_not_read {files : φ} (hread : route.operation ≠ .read) :
    (next route files s).step =
      .failure ⟨.unsupported, "EEPROM workflows support read operations only"⟩ := by
  unfold next
  rw [if_pos hread]

/-- A step that is answered is that of a read. -/
theorem read_of_step (files : φ) (s : Eeprom) (h : (next route files s).step.isOutcome = false) :
    route.operation = .read := by
  by_contra hread
  rw [next_of_not_read hread] at h
  cases h

theorem isOutcome_of_ended (files : φ) (hread : route.operation = .read)
    (hended : Ended turns s.outcome) :
    (next route files s).step.isOutcome := by
  obtain ⟨step, o, hfinished, -⟩ := hended.finished
  rw [next_of_ended hread hfinished]
  exact FlashAttemptOutcome.isOutcome_finishedStep hfinished

/-- The attempt of a mode, or the failure of its plan. -/
theorem nextOpen_ready (files : φ) (mode : EepromReadMode) :
    (∃ e, (nextOpen route files { mode, begun := true }).step = .failure e) ∨
    ∃ rest, nextOpen route files { mode, begun := true } =
      { step := .attempt ⟨confirmationsForMode mode, (mode, rest)⟩ .single
        requested := [route.transport], state := { mode, begun := true } } := by
  cases hplan : buildEepromReadPlan route files mode with
  | error e =>
    refine .inl ⟨e, ?_⟩
    simp [nextOpen, hplan]
  | ok plan =>
    obtain ⟨rest, rfl⟩ := buildEepromReadPlan_eq_ok hplan
    refine .inr ⟨rest, ?_⟩
    simp [nextOpen, hplan]

/-- A turn that ends a conversation in which nothing was declined or cancelled before. -/
theorem Phase.close (hopen : Open turns) (hended : Ended (turns ++ [turn]) s.outcome)
    (hmodes : modes (turns ++ [turn]) <+: [.mode2, .mode3, .mode4]) (hlength : turns.length ≤ 8)
    (hhonoured : EachHonoured (turns ++ [turn]))
    (hturn : turn.Declined ∨ turn.Cancelled → s.outcome = FlashAttemptOutcome.cancel {}) :
    Phase (turns ++ [turn]) s :=
  .ended hended hmodes (by rw [List.length_append, List.length_singleton]; omega) hhonoured
    (hopen.last hturn)

theorem length_before_le (mode : EepromReadMode) : mode.before.length ≤ 2 := by
  cases mode <;> decide

/-- An answer to a prompt leads from a phase to a phase. -/
theorem Phase.prompt {files : φ} {p : FlashPromptStep} (h : Phase turns s)
    (hstep : (next route files s).step = .prompt p) (response : FlashPromptResponse)
    (hmeets : (Turn.prompt p response : Turn (EepromReadMode × β)).Meets) :
    Phase (turns ++ [.prompt p response]) (respond response (next route files s).state) := by
  have hread : route.operation = .read := read_of_step files s (by rw [hstep]; rfl)
  cases h with
  | fresh =>
    rw [next_of_open hread rfl] at hstep ⊢
    cases hstep
    have hhonoured : EachHonoured ([] ++ [.prompt beginPrompt response] :
        List (Turn (EepromReadMode × β))) := EachHonoured.prompt Each.nil _ _
    by_cases haccept : response = .accept
    · subst haccept
      refine .ready .mode2 rfl (by simp) (fun h => absurd rfl h) hhonoured ?_
      exact Open.concat (fun _ hmem => (nomatch hmem))
        (by simp [Turn.Declined, Turn.Cancelled])
    · have hs : respond response (nextOpen route files {}).state =
          { outcome := FlashAttemptOutcome.cancel {} } := if_neg haccept
      rw [hs]
      exact .close (fun _ hmem => (nomatch hmem)) .cancelled (List.nil_prefix) (by simp) hhonoured
        fun _ => rfl
  | cycling mode hmodes hlength hhonoured hopen =>
    rw [next_of_open hread rfl] at hstep ⊢
    cases hstep
    by_cases haccept : response = .accept
    · subst haccept
      refine .ready mode ?_ ?_ (fun _ => cycled_concat) (hhonoured.prompt _ _) ?_
      · rw [modes_concat_prompt, hmodes]
      · rw [List.length_append, List.length_singleton]
        omega
      · exact hopen.concat (by simp [Turn.Declined, Turn.Cancelled])
    · have hs : respond response (nextOpen route files { mode, begun := true, needCycle := true }).state =
          { mode, begun := true, outcome := FlashAttemptOutcome.cancel {} } := if_neg haccept
      have hbound := length_before_le mode
      rw [hs]
      refine .close hopen .cancelled ?_ (by omega) (hhonoured.prompt _ _) fun _ => rfl
      rw [modes_concat_prompt, hmodes]
      exact (List.prefix_append _ _).trans mode.before_concat_isPrefix
  | ready mode hmodes hlength hcycled hhonoured hopen =>
    -- the step is the attempt or the failure of its plan
    rw [next_of_open hread rfl] at hstep
    rcases nextOpen_ready files mode with ⟨e, hnext⟩ | ⟨rest, hnext⟩
    · rw [hnext] at hstep
      cases hstep
    · rw [hnext] at hstep
      cases hstep
  | inspecting mode before plan result hturns hsuccess hmodes hlength hhonoured hopen =>
    rw [next_of_open hread rfl] at hstep ⊢
    cases hstep
    have hbound := length_before_le mode
    have hmodes' : modes (turns ++ [.prompt inspectPrompt response]) = mode.before ++ [mode] := by
      rw [modes_concat_prompt, hmodes]
    have hkept : ¬ ((Turn.prompt inspectPrompt response : Turn (EepromReadMode × β)).Declined ∨
        (Turn.prompt inspectPrompt response : Turn (EepromReadMode × β)).Cancelled) := by
      rintro ((h | ⟨h, -⟩) | h)
      · exact hmeets rfl h
      · exact h rfl
      · exact h
    by_cases hsave : response = .save
    · subst hsave
      refine .close hopen (.saved before plan result ?_ hsuccess) ?_ (by omega)
        (hhonoured.prompt _ _) fun h => absurd h hkept
      · rw [hturns, List.append_assoc]
        rfl
      · rw [hmodes']
        exact mode.before_concat_isPrefix
    · by_cases hlast : mode = .mode4
      · subst hlast
        have hs : respond response (nextOpen route files
            { mode := .mode4, begun := true, inspect := true, pending := result.readBytes }).state =
            { mode := .mode4, begun := true, pending := result.readBytes
              outcome := FlashAttemptOutcome.discard {} } := if_neg hsave
        rw [hs]
        refine .close hopen .discarded ?_ (by omega) (hhonoured.prompt _ _) fun h => absurd h hkept
        rw [hmodes']
        exact EepromReadMode.before_concat_isPrefix _
      · -- the next mode is read after the ignition was cycled
        have hs : respond response (nextOpen route files
            { mode, begun := true, inspect := true, pending := result.readBytes }).state =
            { mode := mode.advance, begun := true, needCycle := true } :=
          (if_neg hsave).trans (if_neg hlast)
        rw [hs]
        refine .cycling mode.advance ?_ ?_ (hhonoured.prompt _ _) (hopen.concat hkept)
        · rw [hmodes', EepromReadMode.before_advance hlast]
        · rw [EepromReadMode.before_advance hlast, List.length_append, List.length_append,
            List.length_singleton, List.length_singleton]
          omega
  | ended hended hmodes hlength hhonoured hlast =>
    have hout := isOutcome_of_ended files hread hended
    rw [hstep] at hout
    cases hout

/-- The result of an attempt leads from a phase to a phase. -/
theorem Phase.attempt {files : φ} {plan : FlashPlan (EepromReadMode × β)} {executor : ExecutorKind}
    (h : Phase turns s) (hstep : (next route files s).step = .attempt plan executor)
    (result : FlashAttemptResult) (hmeets : (Turn.attempt plan result).Meets) :
    Phase (turns ++ [.attempt plan result]) (finish result (next route files s).state) := by
  have hread : route.operation = .read := read_of_step files s (by rw [hstep]; rfl)
  cases h with
  | ready mode hmodes hlength hcycled hhonoured hopen =>
    rw [next_of_open hread rfl] at hstep ⊢
    rcases nextOpen_ready files mode with ⟨e, hnext⟩ | ⟨rest, hnext⟩
    · rw [hnext] at hstep
      cases hstep
    rw [hnext] at hstep ⊢
    cases hstep
    have hbound := length_before_le mode
    have hmodes' : modes (turns ++ [.attempt ⟨confirmationsForMode mode, (mode, rest)⟩ result]) =
        mode.before ++ [mode] := by
      rw [modes_concat_attempt, hmodes]
    have hhonoured' : EachHonoured
        (turns ++ [.attempt ⟨confirmationsForMode mode, (mode, rest)⟩ result]) := by
      refine hhonoured.concat ?_
      intro plan' result' hturn
      cases hturn
      exact honoured_of_cycled hcycled
    cases hsuccess : result.success with
    | true =>
      have hs : finish result { mode, begun := true } =
          { mode, begun := true, inspect := true, pending := result.readBytes } := if_pos hsuccess
      rw [hs]
      refine .inspecting mode turns _ result rfl hsuccess hmodes' ?_ hhonoured' (hopen.concat ?_)
      · rw [List.length_append, List.length_singleton]
        omega
      · simp [Turn.Declined, Turn.Cancelled, hsuccess]
    | false =>
      have hfailed : ¬ result.success = true := by simp [hsuccess]
      by_cases hcancelled : result.errorKind = .cancelled
      · have hs : finish result { mode, begun := true } =
            { mode, begun := true, outcome := FlashAttemptOutcome.cancel {} } :=
          (if_neg hfailed).trans (if_pos hcancelled)
        rw [hs]
        refine .close hopen .cancelled ?_ (by omega) hhonoured' fun _ => rfl
        rw [hmodes']
        exact mode.before_concat_isPrefix
      · -- only the last attempt may fail
        have hlast : mode = .mode4 := by
          rcases hmeets with h | h | h
          · exact h
          · exact absurd h hfailed
          · exact absurd h hcancelled
        subst hlast
        have hs : finish result { mode := .mode4, begun := true } =
            { mode := .mode4, begun := true
              outcome := FlashAttemptOutcome.fail {} ⟨result.errorKind, result.errorDetail⟩ } :=
          (if_neg hfailed).trans ((if_neg hcancelled).trans (if_neg (not_not.2 rfl)))
        rw [hs]
        refine .close hopen (.failed _) ?_ (by omega) hhonoured' ?_
        · rw [hmodes']
          exact EepromReadMode.before_concat_isPrefix _
        · rintro (h | ⟨-, h⟩)
          · exact h.elim
          · exact absurd h hcancelled
  | ended hended hmodes hlength hhonoured hlast =>
    have hout := isOutcome_of_ended files hread hended
    rw [hstep] at hout
    cases hout
  | _ =>
    rw [next_of_open hread rfl] at hstep
    cases hstep

/-- Every conversation whose answers leave the order of the prompts is in a phase. -/
theorem phase_of_conversation (h : Conversation (workflow route) turns s)
    (hmeets : ∀ turn ∈ turns, turn.Meets) : Phase turns s := by
  induction h with
  | initial => exact .fresh
  | prompt files h hstep response ih =>
    have hlast := hmeets _ (List.mem_append_right _ (List.mem_singleton_self _))
    exact (ih fun turn hmem => hmeets turn (List.mem_append_left _ hmem)).prompt hstep response hlast
  | attempt files h hstep result ih =>
    have hlast := hmeets _ (List.mem_append_right _ (List.mem_singleton_self _))
    exact (ih fun turn hmem => hmeets turn (List.mem_append_left _ hmem)).attempt hstep result hlast

/-! ### Every conversation -/

theorem EachHonoured.apply (h : EachHonoured turns) (before : List (Turn (EepromReadMode × β)))
    (plan : FlashPlan (EepromReadMode × β)) (result : FlashAttemptResult)
    (after : List (Turn (EepromReadMode × β))) (hturns : turns = before ++ .attempt plan result :: after) :
    Honoured before plan :=
  h before _ after hturns plan result rfl

/-- A step that is no outcome of a conversation in which nothing was declined or cancelled. -/
theorem spec_of_open {step : FlashWorkflowStep (EepromReadMode × β)} (hopen : Open turns)
    (hhonoured : EachHonoured turns) (hlength : turns.length ≤ 9)
    (hmodes : modes turns ++ step.mode?.toList <+: [.mode2, .mode3, .mode4])
    (hattempt : ∀ plan executor, step = .attempt plan executor → Honoured turns plan)
    (hcompleted : ∀ c, step ≠ .completed c) : EepromSpec turns step where
  modes := hmodes
  honoured := ⟨hhonoured.apply, hattempt⟩
  returned c _ hstep := absurd hstep (hcompleted c)
  cancelled before turn after hturns hcloses := by
    refine absurd hcloses (hopen turn ?_)
    rw [hturns]
    exact List.mem_append_right _ (List.mem_cons_self ..)
  ended := hlength

/-- A prompt or a failure of a conversation in which nothing was declined or cancelled. -/
theorem spec_of_quiet {step : FlashWorkflowStep (EepromReadMode × β)} (hopen : Open turns)
    (hhonoured : EachHonoured turns) (hlength : turns.length ≤ 9)
    (hmodes : modes turns <+: [.mode2, .mode3, .mode4]) (hmode : step.mode? = none)
    (hcompleted : ∀ c, step ≠ .completed c) : EepromSpec turns step := by
  refine spec_of_open hopen hhonoured hlength ?_ ?_ hcompleted
  · rw [hmode, Option.toList_none, List.append_nil]
    exact hmodes
  · rintro plan executor rfl
    cases hmode

theorem Phase.spec (h : Phase turns s) (files : φ) (hread : route.operation = .read) :
    EepromSpec turns (next route files s).step := by
  cases h with
  | fresh =>
    rw [next_of_open hread rfl]
    exact spec_of_quiet (fun _ hmem => (nomatch hmem)) Each.nil (by simp) List.nil_prefix rfl
      fun c hc => (nomatch hc)
  | cycling mode hmodes hlength hhonoured hopen =>
    have hbound := length_before_le mode
    rw [next_of_open hread rfl]
    refine spec_of_quiet hopen hhonoured (by omega) ?_ rfl fun c hc => (nomatch hc)
    rw [hmodes]
    exact (List.prefix_append _ _).trans mode.before_concat_isPrefix
  | ready mode hmodes hlength hcycled hhonoured hopen =>
    have hbound := length_before_le mode
    have hbefore : modes turns <+: [.mode2, .mode3, .mode4] := by
      rw [hmodes]
      exact (List.prefix_append _ _).trans mode.before_concat_isPrefix
    rw [next_of_open hread rfl]
    rcases nextOpen_ready files mode with ⟨e, hnext⟩ | ⟨rest, hnext⟩
    · rw [hnext]
      exact spec_of_quiet hopen hhonoured (by omega) hbefore rfl fun c hc => (nomatch hc)
    · rw [hnext]
      refine spec_of_open hopen hhonoured (by omega) ?_ ?_ fun c hc => (nomatch hc)
      · rw [hmodes]
        exact mode.before_concat_isPrefix
      · intro plan executor hplan
        cases hplan
        exact honoured_of_cycled hcycled
  | inspecting mode before plan result hturns hsuccess hmodes hlength hhonoured hopen =>
    have hbound := length_before_le mode
    rw [next_of_open hread rfl]
    refine spec_of_quiet hopen hhonoured (by omega) ?_ rfl fun c hc => (nomatch hc)
    rw [hmodes]
    exact mode.before_concat_isPrefix
  | ended hended hmodes hlength hhonoured hlast =>
    obtain ⟨step, o, hfinished, hmode, hcancel, hreturned⟩ := hended.finished
    rw [next_of_ended hread hfinished]
    refine ⟨?_, ⟨hhonoured.apply, ?_⟩, hreturned, ?_, hlength⟩
    · rw [hmode, Option.toList_none, List.append_nil]
      exact hmodes
    · rintro plan executor rfl
      cases hmode
    · intro before turn after hturns hcloses
      obtain ⟨hafter, houtcome⟩ := hlast before turn after hturns hcloses
      exact ⟨hafter, hcancel houtcome⟩

/-- A workflow that does not read asks nothing. -/
theorem turns_of_not_read (h : Conversation (workflow route) turns s)
    (hread : route.operation ≠ .read) : turns = [] := by
  cases h with
  | initial => rfl
  | prompt files h hstep response =>
    rw [workflow, next_of_not_read hread] at hstep
    cases hstep
  | attempt files h hstep result =>
    rw [workflow, next_of_not_read hread] at hstep
    cases hstep

/-- **A conversation of an EEPROM workflow**: the modes are tried in order, the ignition is cycled
before each attempt whose plan asks for it, the bytes that are returned are those that the operator
saved, and what is declined or cancelled ends it, in at most nine turns, if no attempt before the last
mode fails otherwise and what was read is saved or discarded. -/
theorem conversation_spec (route : EepromRoute φ β) {turns : List (Turn (EepromReadMode × β))}
    {s : Eeprom} (h : Conversation (workflow route) turns s) (hmeets : ∀ turn ∈ turns, turn.Meets)
    (files : φ) : EepromSpec turns ((workflow route).next files s).step := by
  by_cases hread : route.operation = .read
  · exact (phase_of_conversation h hmeets).spec files hread
  · have hnil := turns_of_not_read h hread
    subst hnil
    have hstep : ((workflow route).next files s).step = _ := next_of_not_read hread
    rw [hstep]
    exact spec_of_quiet (fun _ hmem => (nomatch hmem)) Each.nil (by simp) List.nil_prefix rfl
      fun c hc => (nomatch hc)

/-- A route that builds every plan. -/
def sampleRoute : EepromRoute Unit Unit := ⟨.read, fun _ _ => .ok (), .kline⟩

/-- A plan of the route. -/
def samplePlan (mode : EepromReadMode) : FlashPlan (EepromReadMode × Unit) :=
  ⟨confirmationsForMode mode, (mode, ())⟩

/-- The operator has accepted `Begin`. -/
theorem conversation_begun :
    Conversation (workflow sampleRoute) [.prompt beginPrompt .accept] { begun := true } :=
  .prompt () .initial rfl .accept

/-- A conversation in which the first read is discarded and the ignition is cycled. -/
def discardedTurns : List (Turn (EepromReadMode × Unit)) :=
  [.prompt beginPrompt .accept, .attempt (samplePlan .mode2) { success := true },
    .prompt inspectPrompt .discard, .prompt cyclePrompt .accept]

/-- The conversation leads to the second attempt and has the property. -/
theorem conversation_discarded :
    Conversation (workflow sampleRoute) discardedTurns { mode := .mode3, begun := true } ∧
      EepromSpec discardedTurns
        ((workflow sampleRoute).next () { mode := .mode3, begun := true }).step := by
  have hread : Conversation (workflow sampleRoute)
      [.prompt beginPrompt .accept, .attempt (samplePlan .mode2) { success := true }]
      { begun := true, inspect := true } := .attempt () conversation_begun rfl { success := true }
  have hdiscarded : Conversation (workflow sampleRoute)
      [.prompt beginPrompt .accept, .attempt (samplePlan .mode2) { success := true },
        .prompt inspectPrompt .discard]
      { mode := .mode3, begun := true, needCycle := true } := .prompt () hread rfl .discard
  have hcycled : Conversation (workflow sampleRoute) discardedTurns { mode := .mode3, begun := true } :=
    .prompt () hdiscarded rfl .accept
  refine ⟨hcycled, conversation_spec sampleRoute hcycled ?_ ()⟩
  simp [discardedTurns, Turn.Meets, beginPrompt, inspectPrompt, cyclePrompt]

/-- A conversation whose first attempt fails. -/
def failedTurns : List (Turn (EepromReadMode × Unit)) :=
  [.prompt beginPrompt .accept, .attempt (samplePlan .mode2) { errorKind := .timeout }]

/-- The attempt after it is one in mode 3, before the ignition was cycled. -/
theorem conversation_failed :
    Conversation (workflow sampleRoute) failedTurns { mode := .mode3, begun := true } ∧
      ¬ EepromSpec failedTurns
        ((workflow sampleRoute).next () { mode := .mode3, begun := true }).step := by
  refine ⟨.attempt () conversation_begun rfl { errorKind := .timeout }, ?_⟩
  intro hspec
  obtain ⟨before, after, hturns, -⟩ := hspec.honoured.2 (samplePlan .mode3) .single rfl
    ⟨{ id := .cycleIgnition }, by decide, rfl⟩
  have hmem : Turn.prompt cyclePrompt .accept ∈ failedTurns := by
    rw [hturns]
    exact List.mem_append_right _ (List.mem_cons_self ..)
  simp [failedTurns, cyclePrompt, beginPrompt] at hmem

end Eeprom

end FastEcu.Flash
