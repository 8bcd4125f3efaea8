import FastEcu.Data.Script
import FastEcu.Ports.LinkError

/-!
# The attempt and its transport

One attempt of a flash operation (`src/backend/flash/flash_executor.h`): the plan is admitted, the
transport is configured and opened, the executor runs, and the transport is closed.

* `CallEvent` : a call of the transport with its answer.
* `restartIso15765` : the restart that an executor may ask for while it runs.
* `FlashExecutor`, `FamilyParts.executor` : an executor, and how one of a family admits a plan.
* `run` : `BoundAttempt::Run`.
* `run_attemptSpec` : which calls an attempt makes and what it returns.
-/

namespace FastEcu.Flash.BoundAttempt

open Calibration (ErrorKind)
open Data Computation Ports

/-! ### Calls -/

/-- The calls of a transport with the configuration `κ`, which has calls `τ` of its own. -/
inductive TransportCall (κ τ : Type)
  | resetConnection
  | configure (config : κ)
  | openPort
  | close
  | session (call : τ)

/-- A call, and its status. -/
structure CallEvent (κ τ : Type) where
  call : TransportCall κ τ
  status : Except LinkError Unit

/-- What the token says when it is asked, and the status of a call. -/
structure Answer where
  cancelled : Bool := false
  status : Except LinkError Unit := .ok ()

instance : Inhabited Answer := ⟨{}⟩

/-- What an executor does, where `ω` is a call it makes. -/
abbrev ExecutorRun (ω α : Type) := Computation LinkError ω (List Answer) α

variable {π κ τ γ ρ : Type}

/-- `ICancellationToken::Cancelled`. -/
def poll {ω : Type} : ExecutorRun ω Bool := ask fun answer => (.ok answer.cancelled, [])

/-- A call of the transport. -/
def call (c : TransportCall κ τ) : ExecutorRun (CallEvent κ τ) Unit :=
  ask fun answer => (answer.status, [⟨c, answer.status⟩])

/-- A point where a cancelled computation ends. -/
def checkpoint {ω : Type} (detail : String) : ExecutorRun ω Unit := do
  if ← poll then fail (.of .cancelled detail) else pure ()

/-- `ICanFlashTransport::RestartIso15765`. -/
def restartIso15765 (config : κ) : ExecutorRun (CallEvent κ τ) Unit := do
  checkpoint "ISO-15765 restart cancelled before reset"
  call .resetConnection
  checkpoint "ISO-15765 restart cancelled after reset"
  call (.configure config)
  checkpoint "ISO-15765 restart cancelled after configure"
  call .openPort
  checkpoint "ISO-15765 restart cancelled after open"

/-! ### Executors -/

/-- An executor: `TransportSetup`, `BeforeTransportConfigure`, `BeforeTransportOpen`, which is not given
the transport, and `Execute`. -/
structure FlashExecutor (π κ τ ρ : Type) where
  transportSetup : π → Except LinkError κ
  beforeTransportConfigure : ExecutorRun (CallEvent κ τ) Unit := pure ()
  beforeTransportOpen : ExecutorRun Empty Unit := pure ()
  execute : π → ExecutorRun (CallEvent κ τ) ρ

/-- The parts of the executor of a family with the family plan `γ`. -/
structure FamilyParts (π κ τ γ ρ : Type) where
  /-- The family plan, when the plan is of this family. -/
  familyPlan : π → Option γ
  validate : π → Except LinkError Unit
  setup : γ → Except LinkError κ
  run : γ → π → ExecutorRun (CallEvent κ τ) ρ
  beforeTransportConfigure : ExecutorRun (CallEvent κ τ) Unit := pure ()
  beforeTransportOpen : ExecutorRun Empty Unit := pure ()

/-- `FamilyExecutor::CheckPlan`, with the family plan that is read after it. -/
def FamilyParts.checkPlan (parts : FamilyParts π κ τ γ ρ) (plan : π) : Except LinkError γ :=
  match parts.familyPlan plan with
  | none => .error (.of .invalidConfig "plan family does not match this executor")
  | some family => (parts.validate plan).map fun _ => family

/-- `FamilyExecutor`. -/
def FamilyParts.executor (parts : FamilyParts π κ τ γ ρ) : FlashExecutor π κ τ ρ where
  transportSetup plan := (parts.checkPlan plan).bind parts.setup
  beforeTransportConfigure := parts.beforeTransportConfigure
  beforeTransportOpen := parts.beforeTransportOpen
  execute plan := do
    let family ← ofExcept (parts.checkPlan plan)
    checkpoint "cancelled before setup"
    parts.run family plan

/-! ### The attempt -/

/-- What an attempt leaves: its own calls, and what the executor did for it. -/
inductive AttemptEvent (κ τ ρ : Type)
  /-- A call that the attempt makes. -/
  | own (event : CallEvent κ τ)
  /-- `BeforeTransportConfigure`, with the calls it made. -/
  | hook (calls : List (CallEvent κ τ)) (result : Except LinkError Unit)
  /-- `Execute`, with the calls it made. -/
  | execution (calls : List (CallEvent κ τ)) (result : Except LinkError ρ)

/-- A part of an attempt. -/
abbrev AttemptRun (κ τ ρ α : Type) := Computation LinkError (AttemptEvent κ τ ρ) (List Answer) α

/-- The calls of the transport in an event. -/
def AttemptEvent.calls : AttemptEvent κ τ ρ → List (CallEvent κ τ)
  | .own event => [event]
  | .hook calls _ => calls
  | .execution calls _ => calls

variable (executor : FlashExecutor π κ τ ρ)

/-- A call of the attempt itself. -/
def ownCall (c : TransportCall κ τ) : AttemptRun κ τ ρ Unit := mapEvents .own (call c)

/-- `BoundAttempt::Run` up to `Open`. -/
def openTransport (plan : π) : AttemptRun κ τ ρ Unit := do
  let setup ← ofExcept (executor.transportSetup plan)
  checkpoint "cancelled before configure"
  nest .hook executor.beforeTransportConfigure
  ownCall (.configure setup)
  mapEvents Empty.elim executor.beforeTransportOpen
  ownCall .openPort

/-- `BoundAttempt::Run` from `Execute`: the error of the execution wins over that of `Close`. -/
def executeAndClose (plan : π) : AttemptRun κ τ ρ ρ := do
  let outcome ← attempt (nest .execution (executor.execute plan))
  let closed ← attempt (ownCall .close)
  match outcome, closed with
  | .error e, _ => fail e
  | .ok _, .error e => fail e
  | .ok result, .ok () => pure result

/-- `BoundAttempt::Run`. -/
def run (plan : π) : AttemptRun κ τ ρ ρ := do
  openTransport executor plan
  executeAndClose executor plan

/-! ### What an attempt does -/

/-- The attempt has opened the transport. -/
def Opened (events : List (AttemptEvent κ τ ρ)) : Prop := .own ⟨.openPort, .ok ()⟩ ∈ events

/-- The attempt has not closed the transport. -/
def NotClosed (events : List (AttemptEvent κ τ ρ)) : Prop := ∀ status, .own ⟨.close, status⟩ ∉ events

/-- The executor has not run. -/
def NotExecuted (events : List (AttemptEvent κ τ ρ)) : Prop :=
  ∀ calls result, .execution calls result ∉ events

/-- What is left before the executor runs. -/
structure Opening (events : List (AttemptEvent κ τ ρ)) : Prop where
  notClosed : NotClosed events
  notExecuted : NotExecuted events

variable {executor}

theorem Opening.nil : Opening ([] : List (AttemptEvent κ τ ρ)) :=
  ⟨fun _ h => (nomatch h), fun _ _ h => (nomatch h)⟩

theorem Opening.append {events events' : List (AttemptEvent κ τ ρ)} (h : Opening events)
    (h' : Opening events') : Opening (events ++ events') := by
  refine ⟨?_, ?_⟩
  · intro status hmem
    exact (List.mem_append.1 hmem).elim (h.notClosed status) (h'.notClosed status)
  · intro calls result hmem
    exact (List.mem_append.1 hmem).elim (h.notExecuted calls result) (h'.notExecuted calls result)

theorem opening_hook (calls : List (CallEvent κ τ)) (result : Except LinkError Unit) :
    Opening [(.hook calls result : AttemptEvent κ τ ρ)] :=
  ⟨fun _ h => by simp at h, fun _ _ h => by simp at h⟩

theorem opening_configure (config : κ) (status : Except LinkError Unit) :
    Opening [(.own ⟨.configure config, status⟩ : AttemptEvent κ τ ρ)] :=
  ⟨fun _ h => by simp at h, fun _ _ h => by simp at h⟩

theorem opening_openPort (status : Except LinkError Unit) :
    Opening [(.own ⟨.openPort, status⟩ : AttemptEvent κ τ ρ)] :=
  ⟨fun _ h => by simp at h, fun _ _ h => by simp at h⟩

/-- The part before the execution has succeeded exactly when `Open` has. -/
theorem openTransport_meets (plan : π) :
    Meets (fun result events => Opening events ∧ (result = .ok () ↔ Opened events))
      (openTransport executor plan) := by
  have hfailed : ∀ {e : LinkError} {events : List (AttemptEvent κ τ ρ)}, Opening events →
      ¬ Opened events →
      Opening events ∧ ((.error e : Except LinkError Unit) = .ok () ↔ Opened events) :=
    fun h hnot => ⟨h, iff_of_false (fun h => (nomatch h)) hnot⟩
  refine .bind (.ofExcept ?_)
  cases executor.transportSetup plan with
  | error e => exact .error (hfailed .nil (by simp [Opened]))
  | ok setup =>
    refine Then.ok (.bind (.bind (.ask fun polled => .ok (.ite ?_ ?_))))
    · intro _
      exact .fail (hfailed .nil (by simp [Opened]))
    intro _
    refine .pure (.ok (.bind (.nest ?_)))
    rintro (e | u) calls
    · exact .error (hfailed (opening_hook _ _) (by simp [Opened]))
    refine Then.ok (.bind (.mapEvents (.ask fun answer => ?_)))
    cases answer.status with
    | error e => exact hfailed ((opening_hook _ _).append (opening_configure _ _)) (by simp [Opened])
    | ok u =>
      refine Then.ok (.bind (.mapEvents ?_))
      intro script
      -- `BeforeTransportOpen` is not given the transport, so it leaves nothing
      have hempty : (executor.beforeTransportOpen script).events = [] := by
        cases (executor.beforeTransportOpen script).events with
        | nil => rfl
        | cons a l => exact a.elim
      rw [hempty]
      cases (executor.beforeTransportOpen script).result with
      | error e =>
        exact hfailed ((opening_hook _ _).append (opening_configure _ _)) (by simp [Opened])
      | ok u =>
        refine Then.ok (.mapEvents (.ask fun answer => ?_))
        cases answer.status with
        | error e =>
          exact hfailed ((opening_hook _ _).append
            ((opening_configure _ _).append (opening_openPort _))) (by simp [Opened])
        | ok u =>
          refine ⟨(opening_hook _ _).append ((opening_configure _ _).append (opening_openPort _)), ?_⟩
          exact iff_of_true rfl (by simp [Opened])

/-- The executor runs once and the transport is closed once, after it. -/
theorem executeAndClose_meets (plan : π) :
    Meets (fun result events => ∃ calls executed status,
      events = [.execution calls executed, .own ⟨.close, status⟩] ∧
      (∀ e, executed = .error e → result = .error e) ∧
      ∀ r, result = .ok r → executed = .ok r ∧ status = .ok ()) (executeAndClose executor plan) := by
  refine .bind (.attempt (.nest fun executed calls => .ok (.bind (.attempt (.mapEvents
    (.ask fun answer => .ok ?_))))))
  cases executed with
  | error e =>
    refine .fail ⟨calls, .error e, answer.status, rfl, ?_, fun r hr => (nomatch hr)⟩
    intro e' he'
    exact he'
  | ok r =>
    cases answer.status with
    | error e => exact .fail ⟨calls, .ok r, .error e, rfl, fun e' he' => (nomatch he'), fun r hr => (nomatch hr)⟩
    | ok u =>
      refine .pure ⟨calls, .ok r, .ok (), rfl, fun e' he' => (nomatch he'), ?_⟩
      intro r' hr'
      cases hr'
      exact ⟨rfl, rfl⟩

/-- What an attempt leaves and returns. -/
structure AttemptSpec (executor : FlashExecutor π κ τ ρ) (plan : π) (script : List Answer)
    (result : Except LinkError ρ) (events : List (AttemptEvent κ τ ρ)) : Prop where
  /-- A plan that is refused reaches no transport. -/
  refused : ∀ e, executor.transportSetup plan = .error e → events = [] ∧ result = .error e
  /-- Nor does a plan whose session is cancelled already. -/
  cancelled : (script.headD default).cancelled = true → events = [] ∧ ∃ e, result = .error e
  /-- The transport that was opened is closed once, after every other call. -/
  closed : Opened events → ∃ before status, events = before ++ [.own ⟨.close, status⟩] ∧
    NotClosed before
  /-- A transport that was not opened is not closed. -/
  notOpened : ¬ Opened events → NotClosed events
  /-- The error of the execution is returned, whatever `Close` returns. -/
  executionError : ∀ calls e, .execution calls (.error e) ∈ events → result = .error e
  /-- Success is that of every stage. -/
  success : ∀ r, result = .ok r → (∃ config, executor.transportSetup plan = .ok config) ∧
    Opened events ∧ (∃ calls, .execution calls (.ok r) ∈ events) ∧
    .own ⟨.close, .ok ()⟩ ∈ events

theorem run_of_refused {plan : π} {e : LinkError} (h : executor.transportSetup plan = .error e)
    (script : List Answer) : run executor plan script = ⟨.error e, [], script⟩ := by
  have hopen : openTransport executor plan script = ⟨.error e, [], script⟩ := by
    rw [openTransport, h]
    rfl
  rw [run, bind_of_error (e := e) (by rw [hopen]), hopen]

theorem run_of_cancelled {plan : π} {script : List Answer}
    (h : (script.headD default).cancelled = true) :
    (run executor plan script).events = [] ∧ ∃ e, (run executor plan script).result = .error e := by
  cases hsetup : executor.transportSetup plan with
  | error e => simp [run_of_refused hsetup]
  | ok config =>
    have hcheck : (checkpoint "cancelled before configure" : AttemptRun κ τ ρ Unit) script =
        ⟨.error (.of .cancelled "cancelled before configure"), [], script.tail⟩ := by
      unfold checkpoint
      rw [bind_of_ok (a := (script.headD default).cancelled) rfl, h]
      rfl
    have hopen : (openTransport executor plan script).events = [] ∧
        ∃ e, (openTransport executor plan script).result = .error e := by
      rw [openTransport, hsetup, ofExcept_ok_bind, bind_of_error (by rw [hcheck]), hcheck]
      exact ⟨rfl, _, rfl⟩
    obtain ⟨hevents, e, he⟩ := hopen
    rw [run, bind_of_error he]
    exact ⟨hevents, e, rfl⟩

/-- **An attempt makes no call for a plan that is refused or a session that is cancelled, closes the
transport exactly once, last, and exactly when it opened it, returns the error of the execution even
when closing fails, and succeeds only when every stage did**, for every executor, whatever it calls and
the transport answers, the restarts that it asks for included. -/
theorem run_attemptSpec (executor : FlashExecutor π κ τ ρ) (plan : π) (script : List Answer) :
    AttemptSpec executor plan script (run executor plan script).result
      (run executor plan script).events := by
  have hmeets : Meets _ (openTransport executor plan) := openTransport_meets plan
  obtain ⟨hopening, hopened⟩ := hmeets script
  cases hresult : (openTransport executor plan script).result with
  | error e =>
    have hrun : run executor plan script = ⟨.error e, (openTransport executor plan script).events,
        (openTransport executor plan script).state⟩ := bind_of_error hresult
    have hnot : ¬ Opened (openTransport executor plan script).events := by
      rw [hresult] at hopened
      intro h
      exact absurd (hopened.2 h) (fun h => (nomatch h))
    refine ⟨?_, run_of_cancelled, ?_, ?_, ?_, ?_⟩
    · intro e' he'
      rw [run_of_refused he']
      exact ⟨rfl, rfl⟩
    · rw [hrun]
      exact fun h => absurd h hnot
    · rw [hrun]
      exact fun _ => hopening.notClosed
    · rw [hrun]
      exact fun calls e' hmem => absurd hmem (hopening.notExecuted calls _)
    · rw [hrun]
      exact fun r hr => (nomatch hr)
  | ok u =>
    rw [hresult] at hopened
    have hopen := hopened.1 rfl
    have hclose : Meets _ (executeAndClose executor plan) := executeAndClose_meets plan
    obtain ⟨calls, executed, status, hevents, herror, hok⟩ :=
      hclose (openTransport executor plan script).state
    have hrun := bind_of_ok (f := fun _ => executeAndClose executor plan) hresult
    change run executor plan script = _ at hrun
    rw [hevents] at hrun
    have hexecution : ∀ calls' executed', .execution calls' executed' ∈
        (run executor plan script).events → executed' = executed := by
      intro calls' executed' hmem
      rw [hrun] at hmem
      rcases List.mem_append.1 hmem with hmem | hmem
      · exact absurd hmem (hopening.notExecuted _ _)
      · simp only [List.mem_cons, AttemptEvent.execution.injEq, reduceCtorEq, List.not_mem_nil,
          or_false] at hmem
        exact hmem.2
    refine ⟨?_, run_of_cancelled, ?_, ?_, ?_, ?_⟩
    · intro e' he'
      rw [run_of_refused he']
      exact ⟨rfl, rfl⟩
    · intro _
      refine ⟨(openTransport executor plan script).events ++ [.execution calls executed], status, ?_,
        ?_⟩
      · simp [hrun]
      · intro status' hmem
        rcases List.mem_append.1 hmem with hmem | hmem
        · exact hopening.notClosed status' hmem
        · simp at hmem
    · intro hnot
      refine absurd ?_ hnot
      rw [hrun]
      exact List.mem_append_left _ hopen
    · intro calls' e' hmem
      rw [hrun]
      exact herror e' (hexecution _ _ hmem).symm
    · intro r hr
      rw [hrun] at hr ⊢
      obtain ⟨rfl, rfl⟩ := hok r hr
      refine ⟨?_, List.mem_append_left _ hopen, ⟨calls, by simp⟩, by simp⟩
      cases hsetup : executor.transportSetup plan with
      | ok config => exact ⟨config, rfl⟩
      | error e =>
        -- a plan that is refused does not open the transport
        rw [openTransport, hsetup] at hresult
        cases hresult

/-- A restart makes its calls in order, and all of them when it succeeds. -/
theorem restartIso15765_sends (config : κ) :
    Sends (fun event : CallEvent κ τ => some event.call)
      [.resetConnection, .configure config, .openPort] (restartIso15765 config) := by
  have hcheck : ∀ detail, Sends (fun event : CallEvent κ τ => some event.call) []
      (checkpoint detail) := by
    intro detail
    rw [← List.append_nil ([] : List (TransportCall κ τ))]
    exact .bind (fun _ => ⟨List.prefix_refl _, fun _ _ => rfl⟩)
      fun c => .ite (.fail _ _) (.pure ())
  have hcall : ∀ c : TransportCall κ τ, Sends (fun event : CallEvent κ τ => some event.call) [c]
      (call c) := by
    intro c script
    exact ⟨List.prefix_refl _, fun _ _ => rfl⟩
  have h := (hcheck "ISO-15765 restart cancelled before reset").bind fun _ =>
    (hcall .resetConnection).bind fun _ =>
    (hcheck "ISO-15765 restart cancelled after reset").bind fun _ =>
    (hcall (.configure config)).bind fun _ =>
    (hcheck "ISO-15765 restart cancelled after configure").bind fun _ =>
    (hcall .openPort).bind fun _ => hcheck "ISO-15765 restart cancelled after open"
  exact h

end FastEcu.Flash.BoundAttempt
