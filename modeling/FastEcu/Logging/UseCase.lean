import FastEcu.Data.History
import FastEcu.Logging.Session

/-!
# A logging run

`LoggingUseCase::Run` (`src/backend/logging/logging_use_case.cpp`): the protocol is started, polled
until the run is cancelled or fails, started again when the car has been silent for long enough, and
stopped.  The protocol and the cancellation token are a parameter, with a state of their own; all that
they are asked and all that is reported is kept as a list of events.

* `LoggingRun.iterate` : one round of the loop.
* `LoggingRun.run` : a run, cut off after a number of rounds.
* `missesIn`, `lastStateIn`, `callsIn` : what the events say of the misses, the state and the calls.
* `run_spec` : what holds of every run.
-/

namespace FastEcu.Logging

open Calibration (Error ErrorKind invalidConfig)
open Expression (Numbers Instruction)
open Data

/-! ### Samples -/

/-- `ProtocolSample`. -/
structure ProtocolSample where
  channelId : String
  rawValue : String
deriving DecidableEq, Repr

/-- `LogSample`. -/
structure LogSample (α : Type) where
  channelId : String
  numericValue : Option α
  rawValue : String
  unit : String
deriving DecidableEq, Repr

/-- `PollData`. -/
structure PollData where
  responded : Bool := false
  samples : List ProtocolSample := []
deriving DecidableEq, Repr

/-- `LoggingState`. -/
inductive LoggingState
  | running
  | carNotResponding
deriving DecidableEq, Repr

/-- The whole of a text as a decimal number, read by `std::from_chars`. -/
def wholeDecimal (text : List Char) : Option ℕ :=
  if text ≠ [] ∧ text.all Char.isDigit then
    some (text.foldl (fun n c => 10 * n + (c.toNat - '0'.toNat)) 0)
  else none

section Conversion

variable {α : Type} (N : Numbers α) (session : LoggingSession α)

/-- `ConvertSample`. -/
def convertSample (raw : ProtocolSample) : Except Error (LogSample α) :=
  match session.findChannel raw.channelId with
  | none => .error ⟨.internal, "protocol sample channel is not in the logging session"⟩
  | some channel =>
    match channel.sampleBit with
    | some bit =>
      match wholeDecimal raw.rawValue.toList with
      | none => .error ⟨.badResponse, "switch raw sample is not a byte"⟩
      | some byte =>
        if 255 < byte then .error ⟨.badResponse, "switch raw sample is not a byte"⟩
        else
          .ok ⟨raw.channelId, some (N.ofInt (byte / 2 ^ bit.toNat % 2 : ℕ)), raw.rawValue,
            channel.unit⟩
    | none =>
      match Expression.parseFiniteNumber N raw.rawValue.toList with
      | .error e =>
        .error ⟨.badResponse, s!"protocol sample raw value is not a finite number: {e.detail}"⟩
      | .ok rawValue =>
        match (session.findConversion raw.channelId).bind
            (Expression.evaluate N.toArithmetic · rawValue) with
        | some (.ok numericValue) =>
          .ok ⟨raw.channelId, some numericValue, raw.rawValue, channel.unit⟩
        | some (.error e) => invalidConfig s!"logging conversion expression failed: {e.detail}"
        -- a session has a conversion for each channel, and compiled code has a value
        | none => .error ⟨.internal, ""⟩

/-- The loop of `ConvertSamples`, with the channels whose failure has been reported, the texts that
are reported and the samples before. -/
def convertSamples : List String → List String → List (LogSample α) → List ProtocolSample →
    Except Error (List (LogSample α)) × List String × List String
  | reported, texts, converted, [] => (.ok converted, reported, texts)
  | reported, texts, converted, raw :: rest =>
    match convertSample N session raw with
    | .ok sample => convertSamples reported texts (converted ++ [sample]) rest
    | .error e =>
      if e.kind ≠ .invalidConfig then (.error e, reported, texts)
      else
        let unavailable : LogSample α :=
          ⟨raw.channelId, none, raw.rawValue,
            ((session.findChannel raw.channelId).map (·.unit)).getD ""⟩
        if raw.channelId ∈ reported then
          convertSamples reported texts (converted ++ [unavailable]) rest
        else
          convertSamples (raw.channelId :: reported)
            (texts ++ [s!"{raw.channelId} unavailable: {e.detail}"]) (converted ++ [unavailable]) rest

end Conversion

/-! ### The run -/

/-- What happens in a run. -/
inductive RunEvent (α : Type)
  /-- `LoggingProtocol::Start` and what it returned. -/
  | start (result : Except Error Unit)
  /-- `LoggingProtocol::Poll` and what it returned. -/
  | poll (result : Except Error PollData)
  /-- `LoggingProtocol::Stop` and what it returned. -/
  | stop (result : Except Error Unit)
  /-- `ILoggingEventSink::StateChanged`. -/
  | stateChanged (state : LoggingState)
  /-- `ILoggingEventSink::Samples`. -/
  | samples (values : List (LogSample α))
  /-- `IEventSink::Log`. -/
  | log (text : String)

/-- The protocol and the cancellation token. -/
structure RunEnvironment (σ : Type) where
  start : σ → Except Error Unit × σ
  poll : ℤ → σ → Except Error PollData × σ
  stop : σ → Except Error Unit × σ
  cancelled : σ → Bool × σ

/-- The variables of `LoggingUseCase::Run`, the environment and what has happened.  The misses are
counted without a bound; the source counts them in an `int`. -/
structure RunState (σ α : Type) where
  lastState : LoggingState := .running
  consecutiveMisses : ℤ := 0
  reportedConversionFailures : List String := []
  environment : σ
  events : List (RunEvent α) := []

/-- `ReconnectDue`. -/
def reconnectDue (policy : LoggingPolicy) (consecutiveMisses : ℤ) : Bool :=
  0 < policy.reconnectRetryPeriod ∧ policy.reconnectAttemptThreshold ≤ consecutiveMisses ∧
    (consecutiveMisses - policy.reconnectAttemptThreshold) % policy.reconnectRetryPeriod = 0

/-- What ends a run that has been cancelled. -/
def loggingCancelled : Error := ⟨.cancelled, "logging cancelled"⟩

namespace LoggingRun

variable {σ α : Type} (N : Numbers α) (env : RunEnvironment σ) (session : LoggingSession α)

/-- An event is added. -/
def emit (event : RunEvent α) (state : RunState σ α) : RunState σ α :=
  { state with events := state.events ++ [event] }

/-- `protocol.Start`. -/
def callStart (state : RunState σ α) : Except Error Unit × RunState σ α :=
  let (result, environment) := env.start state.environment
  (result, emit (.start result) { state with environment })

/-- `protocol.Poll`. -/
def callPoll (state : RunState σ α) : Except Error PollData × RunState σ α :=
  let (result, environment) := env.poll session.policy.pollTimeout state.environment
  (result, emit (.poll result) { state with environment })

/-- `cancellation.Cancelled`. -/
def callCancelled (state : RunState σ α) : Bool × RunState σ α :=
  let (result, environment) := env.cancelled state.environment
  (result, { state with environment })

/-- A poll that the car responded to: the error that ends the run, if there is one. -/
def responded (data : PollData) (state : RunState σ α) : Option Error × RunState σ α :=
  let state := { state with consecutiveMisses := 0 }
  let state :=
    if state.lastState ≠ .running then
      emit (.stateChanged .running) { state with lastState := .running }
    else state
  let (converted, reported, texts) :=
    convertSamples N session state.reportedConversionFailures [] [] data.samples
  let state :=
    { state with
      reportedConversionFailures := reported
      events := state.events ++ texts.map .log }
  match converted with
  | .error e => (some e, state)
  | .ok values => (none, emit (.samples values) state)

/-- A poll that the car did not respond to. -/
def missed (state : RunState σ α) : Option Error × RunState σ α :=
  let state := { state with consecutiveMisses := state.consecutiveMisses + 1 }
  let state :=
    if state.consecutiveMisses = session.policy.carSilenceMissThreshold then
      emit (.stateChanged .carNotResponding) { state with lastState := .carNotResponding }
    else state
  if reconnectDue session.policy state.consecutiveMisses then
    match callStart env state with
    | (.error e, state) => (if e.kind ≠ .badResponse then some e else none, state)
    | (.ok (), state) =>
      (none, emit (.stateChanged .running)
        { state with consecutiveMisses := 0, lastState := .running })
  else (none, state)

/-- One round of the loop: the error that ends the run, if there is one. -/
def iterate (state : RunState σ α) : Option Error × RunState σ α :=
  match callCancelled env state with
  | (true, state) => (some loggingCancelled, state)
  | (false, state) =>
    match callPoll env session state with
    | (.error e, state) => (if e.kind = .badResponse then none else some e, state)
    | (.ok data, state) =>
      if data.responded then responded N session data state else missed env session state

/-- The loop, cut off after a number of rounds. -/
def loop : ℕ → RunState σ α → Option Error × RunState σ α
  | 0, state => (none, state)
  | rounds + 1, state =>
    match iterate N env session state with
    | (some e, state) => (some e, state)
    | (none, state) => loop rounds state

/-- `StopGuard::~StopGuard`. -/
def stopGuard (state : RunState σ α) : RunState σ α :=
  let (result, environment) := env.stop state.environment
  let state := emit (.stop result) { state with environment }
  match result with
  | .error e => emit (.log e.detail) state
  | .ok () => state

/-- The run under the guard. -/
def runStarted (rounds : ℕ) (state : RunState σ α) : Option Error × RunState σ α :=
  match callStart env state with
  | (.error e, state) => (some e, state)
  | (.ok (), state) => loop N env session rounds (emit (.stateChanged .running) state)

/-- `LoggingUseCase::Run`, cut off after a number of rounds: what it returns, if it has ended, and
what has happened.  A run returns an error always; it has no other end. -/
def run (rounds : ℕ) (environment : σ) : Option Error × List (RunEvent α) :=
  match callCancelled env { environment } with
  | (true, state) => (some loggingCancelled, state.events)
  | (false, state) =>
    match runStarted N env session rounds state with
    | (none, state) => (none, state.events)
    | (some e, state) => (some e, (stopGuard env state).events)

end LoggingRun

/-! ### What the events say -/

section Events

variable {α : Type}

/-- The event is a call of the protocol. -/
def RunEvent.isCall : RunEvent α → Bool
  | .start _ => true
  | .poll _ => true
  | .stop _ => true
  | _ => false

/-- The event is a poll that the car did not respond to. -/
def RunEvent.isMiss : RunEvent α → Bool
  | .poll (.ok data) => !data.responded
  | _ => false

/-- The calls of the protocol. -/
def callsIn (events : List (RunEvent α)) : List (RunEvent α) := events.filter (·.isCall)

/-- The misses after the event: a response or a successful start ends them, a bad response and a
failed start leave them. -/
def missesAfter (misses : ℤ) : RunEvent α → ℤ
  | .poll (.ok data) => if data.responded then 0 else misses + 1
  | .start (.ok ()) => 0
  | _ => misses

/-- The misses since the last response or successful start. -/
def missesIn (events : List (RunEvent α)) : ℤ := events.foldl missesAfter 0

/-- The state that was reported last. -/
def lastStateIn (events : List (RunEvent α)) : Option LoggingState :=
  events.foldl (fun last event =>
    match event with
    | .stateChanged state => some state
    | _ => last) none

/-- The last event is a miss. -/
def EndsInMiss (events : List (RunEvent α)) : Prop := ∃ e, events.getLast? = some e ∧ e.isMiss

/-- The error that the call ends the run with. -/
def RunEvent.fatal : RunEvent α → Option Error
  | .poll (.error e) => if e.kind = .badResponse then none else some e
  | .start (.error e) => if e.kind = .badResponse then none else some e
  | _ => none

variable {events : List (RunEvent α)} {event : RunEvent α}

theorem callsIn_concat : callsIn (events ++ [event]) =
    if event.isCall then callsIn events ++ [event] else callsIn events := by
  rw [callsIn, List.filter_append]
  split
  · rename_i h
    simp [callsIn, h]
  · rename_i h
    simp [callsIn, h]

@[simp]
theorem missesIn_concat : missesIn (events ++ [event]) = missesAfter (missesIn events) event := by
  simp [missesIn]

theorem lastStateIn_concat : lastStateIn (events ++ [event]) =
    match event with
    | .stateChanged state => some state
    | _ => lastStateIn events := by
  simp only [lastStateIn, List.foldl_append, List.foldl_cons, List.foldl_nil]

theorem lastStateIn_stateChanged {state : LoggingState} :
    lastStateIn (events ++ [.stateChanged state]) = some state := by
  rw [lastStateIn_concat]

@[simp]
theorem endsInMiss_concat : EndsInMiss (events ++ [event]) ↔ event.isMiss := by
  simp [EndsInMiss]

theorem missesAfter_of_not_isCall (h : event.isCall = false) (misses : ℤ) :
    missesAfter misses event = misses := by
  cases event with
  | start => cases h
  | poll => cases h
  | stop => cases h
  | stateChanged => rfl
  | samples => rfl
  | log => rfl

theorem missesIn_callsIn (events : List (RunEvent α)) : missesIn (callsIn events) = missesIn events := by
  induction events using List.reverseRecOn with
  | nil => rfl
  | append_singleton events event ih =>
    rw [callsIn_concat, missesIn_concat]
    split
    · rw [missesIn_concat, ih]
    · rename_i h
      rw [ih, missesAfter_of_not_isCall (by simpa using h)]

end Events

/-! ### The rules of a run -/

/-- The protocol is started again: the misses are the threshold and a number of whole periods. -/
def ReconnectAt (policy : LoggingPolicy) (misses : ℤ) : Prop :=
  0 < policy.reconnectRetryPeriod ∧
    ∃ k : ℕ, misses = policy.reconnectAttemptThreshold + k * policy.reconnectRetryPeriod

theorem reconnectDue_iff {policy : LoggingPolicy} {misses : ℤ} :
    reconnectDue policy misses ↔ ReconnectAt policy misses := by
  simp only [reconnectDue, decide_eq_true_eq, ReconnectAt]
  refine and_congr_right fun hperiod => ?_
  constructor
  · rintro ⟨hle, hmod⟩
    obtain ⟨k, hk⟩ := Int.dvd_of_emod_eq_zero hmod
    have hk0 : 0 ≤ k := by
      by_contra hneg
      have := mul_neg_of_pos_of_neg hperiod (not_le.1 hneg)
      omega
    refine ⟨k.toNat, ?_⟩
    rw [Int.toNat_of_nonneg hk0, mul_comm]
    omega
  · rintro ⟨k, rfl⟩
    have hk : 0 ≤ (k : ℤ) * policy.reconnectRetryPeriod :=
      mul_nonneg (Int.natCast_nonneg k) hperiod.le
    refine ⟨by omega, ?_⟩
    rw [add_sub_cancel_left, Int.mul_emod_left]

section Rules

variable {α : Type} {policy : LoggingPolicy} {events : List (RunEvent α)} {event : RunEvent α}

/-- What may come after the events: samples while the car responds, and the report of its silence
exactly when the misses reach the threshold. -/
def EventAllowed (policy : LoggingPolicy) (before : List (RunEvent α))
    (next : Option (RunEvent α)) : Prop :=
  (∀ values, next = some (.samples values) → lastStateIn before = some .running) ∧
  (next = some (.stateChanged .carNotResponding) ↔
    EndsInMiss before ∧ missesIn before = policy.carSilenceMissThreshold)

/-- What may come after the calls: a start exactly when the protocol is started again. -/
def CallAllowed (policy : LoggingPolicy) (before : List (RunEvent α))
    (next : Option (RunEvent α)) : Prop :=
  before ≠ [] → ((∃ result, next = some (.start result)) ↔
    EndsInMiss before ∧ ReconnectAt policy (missesIn before))

/-- The events so far keep the rules, and the protocol has not been stopped. -/
structure Regular (policy : LoggingPolicy) (events : List (RunEvent α)) : Prop where
  each : Each (fun before a => EventAllowed policy before (some a)) events
  calls : Each (fun before a => CallAllowed policy before (some a)) (callsIn events)
  running : ∀ result, .stop result ∉ events

/-- Nothing is owed after the events. -/
structure Settled (policy : LoggingPolicy) (events : List (RunEvent α)) : Prop where
  event : ¬ (EndsInMiss events ∧ missesIn events = policy.carSilenceMissThreshold)
  call : ¬ (EndsInMiss (callsIn events) ∧ ReconnectAt policy (missesIn (callsIn events)))

theorem Settled.of_not_endsInMiss (h : ¬ EndsInMiss events) (hc : ¬ EndsInMiss (callsIn events)) :
    Settled policy events :=
  ⟨fun h' => h h'.1, fun h' => hc h'.1⟩

theorem Settled.eventAllowed (h : Settled policy events) (hs : ∀ values, event ≠ .samples values)
    (he : event ≠ .stateChanged .carNotResponding) : EventAllowed policy events (some event) := by
  refine ⟨fun values hv => absurd (Option.some.inj hv) (hs values), ?_⟩
  exact ⟨fun heq => absurd (Option.some.inj heq) he, fun howed => absurd howed h.event⟩

theorem Settled.callAllowed (h : Settled policy events) (he : ∀ result, event ≠ .start result) :
    CallAllowed policy (callsIn events) (some event) := by
  intro _
  exact ⟨fun ⟨result, hr⟩ => absurd (Option.some.inj hr) (he result), fun howed => absurd howed h.call⟩

theorem Regular.nil : Regular policy ([] : List (RunEvent α)) :=
  ⟨.nil, .nil, fun _ h => nomatch h⟩

theorem Regular.concat (h : Regular policy events) (he : EventAllowed policy events (some event))
    (hc : event.isCall → CallAllowed policy (callsIn events) (some event))
    (hstop : ∀ result, event ≠ .stop result) : Regular policy (events ++ [event]) where
  each := h.each.concat he
  calls := by
    rw [callsIn_concat]
    split
    · rename_i hcall
      exact h.calls.concat (hc hcall)
    · exact h.calls
  running := by
    intro result hmem
    rcases List.mem_append.1 hmem with hmem | hmem
    · exact h.running result hmem
    · exact hstop result (List.mem_singleton.1 hmem).symm

/-- The events of a run that goes on: `last` and `misses` are the variables of the source. -/
structure Progress (policy : LoggingPolicy) (last : LoggingState) (misses : ℤ)
    (events : List (RunEvent α)) : Prop where
  regular : Regular policy events
  state : lastStateIn events = some last
  misses : missesIn events = misses
  started : callsIn events ≠ []
  fatal : ∀ call ∈ callsIn events, call.fatal = none

/-- The events of a run that ends with the error. -/
structure Ended (policy : LoggingPolicy) (error : Error) (events : List (RunEvent α)) : Prop where
  regular : Regular policy events
  settled : Settled policy events
  fatal : (∀ call ∈ callsIn events, call.fatal = none) ∨ ∃ before call,
    callsIn events = before ++ [call] ∧ (∀ c ∈ before, c.fatal = none) ∧ call.fatal = some error

variable {last : LoggingState} {misses : ℤ}

theorem Progress.ended (h : Progress policy last misses events) (hs : Settled policy events)
    (error : Error) : Ended policy error events :=
  ⟨h.regular, hs, .inl h.fatal⟩

/-- A call that does not end the run. -/
theorem Progress.call (h : Progress policy last misses events) (event : RunEvent α)
    (hcall : event.isCall = true) (he : EventAllowed policy events (some event))
    (hc : CallAllowed policy (callsIn events) (some event)) (hstop : ∀ result, event ≠ .stop result)
    (hfatal : event.fatal = none) :
    Progress policy last (missesAfter misses event) (events ++ [event]) where
  regular := h.regular.concat he (fun _ => hc) hstop
  state := by
    rw [lastStateIn_concat]
    cases event with
    | stateChanged state => cases hcall
    | _ => exact h.state
  misses := by rw [missesIn_concat, h.misses]
  started := by rw [callsIn_concat, hcall]; simp
  fatal := by
    rw [callsIn_concat, hcall]
    intro call hmem
    rcases List.mem_append.1 hmem with hmem | hmem
    · exact h.fatal call hmem
    · rw [List.mem_singleton.1 hmem]
      exact hfatal

/-- A call that ends the run. -/
theorem Progress.endedBy (h : Progress policy last misses events) (event : RunEvent α)
    (he : EventAllowed policy events (some event))
    (hc : CallAllowed policy (callsIn events) (some event)) {error : Error}
    (hfatal : event.fatal = some error) : Ended policy error (events ++ [event]) := by
  have hkind : event.isCall = true ∧ event.isMiss = false ∧ ∀ result, event ≠ .stop result := by
    cases event with
    | poll result =>
      cases result with
      | ok data => cases hfatal
      | error e => exact ⟨rfl, rfl, fun _ h => nomatch h⟩
    | start result => exact ⟨rfl, rfl, fun _ h => nomatch h⟩
    | _ => cases hfatal
  obtain ⟨hcall, hmiss, hstop⟩ := hkind
  refine ⟨h.regular.concat he (fun _ => hc) hstop, .of_not_endsInMiss ?_ ?_, .inr ?_⟩
  · simp [hmiss]
  · simp [callsIn_concat, hcall, hmiss]
  · exact ⟨callsIn events, event, by rw [callsIn_concat, hcall]; rfl, h.fatal, hfatal⟩

/-- A report that is not a call leaves the calls and the misses. -/
theorem Progress.report (h : Progress policy last misses events) (event : RunEvent α)
    (hcall : event.isCall = false) (he : EventAllowed policy events (some event)) {last' : LoggingState}
    (hstate : lastStateIn (events ++ [event]) = some last') :
    Progress policy last' misses (events ++ [event]) where
  regular := h.regular.concat he (fun hc => by rw [hcall] at hc; cases hc)
    (fun _ hstop => by rw [hstop] at hcall; cases hcall)
  state := hstate
  misses := by rw [missesIn_concat, missesAfter_of_not_isCall hcall, h.misses]
  started := by rw [callsIn_concat, hcall]; exact h.started
  fatal := by rw [callsIn_concat, hcall]; exact h.fatal

/-- Lines of the log change nothing that the rules speak of. -/
theorem log_frame (events : List (RunEvent α)) (texts : List String) :
    callsIn (events ++ texts.map .log) = callsIn events ∧
      missesIn (events ++ texts.map .log) = missesIn events ∧
      lastStateIn (events ++ texts.map .log) = lastStateIn events := by
  induction texts using List.reverseRecOn with
  | nil => simp
  | append_singleton texts text ih =>
    obtain ⟨hcalls, hmisses, hstate⟩ := ih
    rw [List.map_append, ← List.append_assoc]
    exact ⟨callsIn_concat.trans hcalls, missesIn_concat.trans hmisses, lastStateIn_concat.trans hstate⟩

theorem each_log (h : Each (fun before a => EventAllowed policy before (some a)) events)
    (hmiss : ¬ EndsInMiss events) (texts : List String) :
    Each (fun before a => EventAllowed policy before (some a)) (events ++ texts.map .log) ∧
      ¬ EndsInMiss (events ++ texts.map .log) := by
  induction texts using List.reverseRecOn with
  | nil => simpa using ⟨h, hmiss⟩
  | append_singleton texts text ih =>
    rw [List.map_append, ← List.append_assoc]
    refine ⟨ih.1.concat ⟨fun _ hv => (nomatch hv), fun hv => (nomatch hv), ?_⟩, ?_⟩
    · exact fun howed => absurd howed.1 ih.2
    · exact fun h => Bool.false_ne_true (endsInMiss_concat.1 h)

theorem Progress.log (h : Progress policy last misses events) (hmiss : ¬ EndsInMiss events)
    (texts : List String) : Progress policy last misses (events ++ texts.map .log) := by
  obtain ⟨hcalls, hmisses, hstate⟩ := log_frame events texts
  exact {
    regular :=
      { each := (each_log h.regular.each hmiss texts).1
        calls := by rw [hcalls]; exact h.regular.calls
        running := by
          intro result hmem
          rcases List.mem_append.1 hmem with hmem | hmem
          · exact h.regular.running result hmem
          · simp at hmem }
    state := hstate.trans h.state
    misses := hmisses.trans h.misses
    started := by rw [hcalls]; exact h.started
    fatal := by rw [hcalls]; exact h.fatal }

end Rules

/-! ### The rounds -/

namespace LoggingRun

variable {σ α : Type} {N : Numbers α} {env : RunEnvironment σ} {session : LoggingSession α}
  {state : RunState σ α}

theorem endsInMiss_report {event : RunEvent α} (h : event.isMiss = false)
    (events : List (RunEvent α)) : ¬ EndsInMiss (events ++ [event]) := by
  rw [endsInMiss_concat, h]
  exact Bool.false_ne_true

/-- The events of the state, with its variables. -/
def InProgress (policy : LoggingPolicy) (state : RunState σ α) : Prop :=
  Progress policy state.lastState state.consecutiveMisses state.events

/-- What a part of a round leads to. -/
def Continues (policy : LoggingPolicy) (out : Option Error × RunState σ α) : Prop :=
  match out with
  | (none, state) => InProgress policy state ∧ Settled policy state.events
  | (some error, state) => Ended policy error state.events

/-- The state is reported as running when it was not. -/
theorem reportRunning_inProgress (state : RunState σ α) (hmiss : ¬ EndsInMiss state.events)
    (hcalls : ¬ EndsInMiss (callsIn state.events)) (policy : LoggingPolicy)
    (h : InProgress policy state) :
    let state' :=
      if state.lastState ≠ .running then
        emit (.stateChanged .running) { state with lastState := .running }
      else state
    InProgress policy state' ∧ state'.lastState = .running ∧ ¬ EndsInMiss state'.events ∧
      callsIn state'.events = callsIn state.events := by
  intro state'
  by_cases hlast : state.lastState = .running
  · have : state' = state := if_neg (not_not.2 hlast)
    rw [this]
    exact ⟨h, hlast, hmiss, rfl⟩
  · have : state' = emit (.stateChanged .running) { state with lastState := .running } := if_pos hlast
    rw [this]
    refine ⟨?_, rfl, ?_, ?_⟩
    · exact h.report (.stateChanged .running) rfl ((Settled.of_not_endsInMiss hmiss hcalls).eventAllowed
        (fun _ h => nomatch h) (fun h => nomatch h)) lastStateIn_stateChanged
    · exact endsInMiss_report rfl _
    · rw [emit, callsIn_concat]
      rfl

/-- After a response the state is reported if it has changed, and then the samples. -/
theorem responded_continues {data : PollData} (hmiss : ¬ EndsInMiss state.events)
    (hcalls : ¬ EndsInMiss (callsIn state.events))
    (h : Progress session.policy state.lastState 0 state.events) :
    Continues session.policy (responded N session data state) := by
  obtain ⟨hrun, hlast, hmiss', hcalls'⟩ :=
    reportRunning_inProgress { state with consecutiveMisses := 0 } hmiss hcalls session.policy h
  simp only [responded]
  generalize (if ({ state with consecutiveMisses := 0 } : RunState σ α).lastState ≠ .running then
    emit (.stateChanged .running)
      { ({ state with consecutiveMisses := 0 } : RunState σ α) with lastState := .running }
    else ({ state with consecutiveMisses := 0 } : RunState σ α)) = state₁ at *
  rcases convertSamples N session state₁.reportedConversionFailures [] [] data.samples with
    ⟨converted, reported, texts⟩
  have hlog := Progress.log hrun hmiss' texts
  have hmiss₂ := (each_log hrun.regular.each hmiss' texts).2
  have hcalls₂ := (log_frame state₁.events texts).1
  rw [← hcalls', ← hcalls₂] at hcalls
  cases converted with
  | error e => exact hlog.ended (.of_not_endsInMiss hmiss₂ hcalls) e
  | ok values =>
    have hstate := hlog.state
    rw [hlast] at hstate
    have hallowed : EventAllowed session.policy (state₁.events ++ texts.map .log)
        (some (.samples values)) :=
      ⟨fun _ _ => hstate, fun hv => (nomatch hv), fun howed => absurd howed.1 hmiss₂⟩
    have hsamples := hlog.report _ rfl hallowed (by rw [lastStateIn_concat]; exact hlog.state)
    refine ⟨hsamples, .of_not_endsInMiss ?_ ?_⟩
    · exact endsInMiss_report rfl _
    · rw [emit, callsIn_concat]
      exact hcalls

/-- The silence of the car is reported when the misses reach the threshold. -/
theorem reportSilence_inProgress (state : RunState σ α) {policy : LoggingPolicy}
    (hmiss : EndsInMiss state.events)
    (h : InProgress policy state) :
    let state' :=
      if state.consecutiveMisses = policy.carSilenceMissThreshold then
        emit (.stateChanged .carNotResponding) { state with lastState := .carNotResponding }
      else state
    InProgress policy state' ∧ state'.consecutiveMisses = state.consecutiveMisses ∧
      ¬ (EndsInMiss state'.events ∧ missesIn state'.events = policy.carSilenceMissThreshold) ∧
      callsIn state'.events = callsIn state.events := by
  intro state'
  have hmisses := h.misses
  by_cases hthreshold : state.consecutiveMisses = policy.carSilenceMissThreshold
  · have : state' = emit (.stateChanged .carNotResponding)
        { state with lastState := .carNotResponding } := if_pos hthreshold
    rw [this]
    have hallowed : EventAllowed policy state.events (some (.stateChanged .carNotResponding)) :=
      ⟨fun _ hv => (nomatch hv), fun _ => ⟨hmiss, hmisses.trans hthreshold⟩, fun _ => rfl⟩
    refine ⟨h.report _ rfl hallowed lastStateIn_stateChanged, rfl, ?_, ?_⟩
    · exact fun howed => endsInMiss_report rfl _ howed.1
    · rw [emit, callsIn_concat]
      rfl
  · have : state' = state := if_neg hthreshold
    rw [this]
    exact ⟨h, rfl, fun howed => hthreshold (hmisses.symm.trans howed.2), rfl⟩

/-- A miss is reported when it reaches the threshold, and the protocol is started again when that is
due. -/
theorem missed_continues (hmiss : EndsInMiss state.events)
    (hcalls : EndsInMiss (callsIn state.events))
    (h : Progress session.policy state.lastState (state.consecutiveMisses + 1) state.events) :
    Continues session.policy (missed env session state) := by
  obtain ⟨hrun, hmisses, howed, hcalls'⟩ := reportSilence_inProgress
    { state with consecutiveMisses := state.consecutiveMisses + 1 } hmiss h
  simp only [missed]
  generalize (if state.consecutiveMisses + 1 = session.policy.carSilenceMissThreshold then
    emit (.stateChanged .carNotResponding)
      { state with
        lastState := .carNotResponding, consecutiveMisses := state.consecutiveMisses + 1 }
    else ({ state with consecutiveMisses := state.consecutiveMisses + 1 } : RunState σ α)) = state₁
    at *
  have hmiss₁ : EndsInMiss (callsIn state₁.events) := by
    rw [hcalls']
    exact hcalls
  have hmisses₁ : missesIn (callsIn state₁.events) = state₁.consecutiveMisses := by
    rw [missesIn_callsIn, hrun.misses]
  by_cases hdue : reconnectDue session.policy state₁.consecutiveMisses
  · rw [if_pos hdue]
    have hallowed (result : Except Error Unit) :
        EventAllowed session.policy state₁.events (some (.start result)) :=
      ⟨fun _ hv => (nomatch hv), fun hv => (nomatch hv), fun h => absurd h howed⟩
    have hcall (result : Except Error Unit) :
        CallAllowed session.policy (callsIn state₁.events) (some (.start result)) := by
      intro _
      refine ⟨fun _ => ⟨hmiss₁, ?_⟩, fun _ => ⟨result, rfl⟩⟩
      rw [hmisses₁]
      exact reconnectDue_iff.1 hdue
    rcases hstart : env.start state₁.environment with ⟨result, environment⟩
    simp only [callStart, hstart]
    cases result with
    | error e =>
      by_cases hbad : e.kind = .badResponse
      · -- the misses go on, and nothing is owed before the next one
        have hfatal : (RunEvent.start (.error e) : RunEvent α).fatal = none := if_pos hbad
        have hprogress := hrun.call (.start (.error e)) rfl (hallowed _) (hcall _)
          (fun _ h => nomatch h) hfatal
        simp only [hbad, ne_eq, not_true, if_false]
        refine ⟨hprogress, .of_not_endsInMiss (endsInMiss_report rfl _) ?_⟩
        rw [emit, callsIn_concat]
        exact endsInMiss_report rfl _
      · simp only [hbad, ne_eq, not_false_iff, if_true]
        exact hrun.endedBy (.start (.error e)) (hallowed _) (hcall _) (if_neg hbad)
    | ok =>
      have hprogress := hrun.call (.start (.ok ())) rfl (hallowed _) (hcall _)
        (fun _ h => nomatch h) rfl
      have hrunning : EventAllowed session.policy (state₁.events ++ [.start (.ok ())])
          (some (.stateChanged .running)) :=
        ⟨fun _ hv => (nomatch hv), fun hv => (nomatch hv),
          fun h => absurd h.1 (endsInMiss_report rfl _)⟩
      refine ⟨hprogress.report _ rfl hrunning lastStateIn_stateChanged,
        .of_not_endsInMiss (endsInMiss_report rfl _) ?_⟩
      simp only [emit]
      rw [callsIn_concat, callsIn_concat]
      exact endsInMiss_report rfl _
  · rw [if_neg hdue]
    refine ⟨hrun, howed, ?_⟩
    rintro ⟨-, hat⟩
    rw [hmisses₁] at hat
    exact hdue (reconnectDue_iff.2 hat)

theorem iterate_continues (N : Numbers α) (env : RunEnvironment σ) (h : InProgress session.policy state)
    (hs : Settled session.policy state.events) :
    Continues session.policy (iterate N env session state) := by
  rcases hcancelled : env.cancelled state.environment with ⟨cancelled, environment⟩
  simp only [iterate, callCancelled, hcancelled]
  cases cancelled with
  | true => exact h.ended hs _
  | false =>
    rcases hpoll : env.poll session.policy.pollTimeout environment with ⟨result, environment'⟩
    simp only [callPoll, hpoll]
    have hallowed (result : Except Error PollData) :
        EventAllowed session.policy state.events (some (.poll result)) :=
      hs.eventAllowed (fun _ h => nomatch h) (fun h => nomatch h)
    have hcall (result : Except Error PollData) :
        CallAllowed session.policy (callsIn state.events) (some (.poll result)) :=
      hs.callAllowed fun _ h => nomatch h
    cases result with
    | error e =>
      by_cases hbad : e.kind = .badResponse
      · have hprogress := h.call (.poll (.error e)) rfl (hallowed _) (hcall _)
          (fun _ h => nomatch h) (if_pos hbad)
        simp only [hbad, if_true]
        refine ⟨hprogress, .of_not_endsInMiss (endsInMiss_report rfl _) ?_⟩
        rw [emit, callsIn_concat]
        exact endsInMiss_report rfl _
      · simp only [hbad, if_false]
        exact h.endedBy (.poll (.error e)) (hallowed _) (hcall _) (if_neg hbad)
    | ok data =>
      have hprogress := h.call (.poll (.ok data)) rfl (hallowed _) (hcall _)
        (fun _ h => nomatch h) rfl
      have hcalls : callsIn (state.events ++ [.poll (.ok data)]) =
          callsIn state.events ++ [.poll (.ok data)] := callsIn_concat
      by_cases hdata : data.responded
      · have hmiss : (RunEvent.poll (.ok data) : RunEvent α).isMiss = false := by
          simp [RunEvent.isMiss, hdata]
        simp only [hdata, if_true]
        refine responded_continues (endsInMiss_report hmiss _) ?_ ?_
        · simp only [emit, hcalls]
          exact endsInMiss_report hmiss _
        · rw [show missesAfter state.consecutiveMisses (.poll (.ok data) : RunEvent α) = 0 from
            if_pos hdata] at hprogress
          exact hprogress
      · have hmiss : (RunEvent.poll (.ok data) : RunEvent α).isMiss = true := by
          simp [RunEvent.isMiss, hdata]
        simp only [hdata]
        refine missed_continues (endsInMiss_concat.2 hmiss) ?_ ?_
        · simp only [emit, hcalls]
          exact endsInMiss_concat.2 hmiss
        · rw [show missesAfter state.consecutiveMisses (.poll (.ok data) : RunEvent α) =
            state.consecutiveMisses + 1 from if_neg hdata] at hprogress
          exact hprogress

theorem loop_continues (rounds : ℕ) (h : InProgress session.policy state)
    (hs : Settled session.policy state.events) :
    Continues session.policy (loop N env session rounds state) := by
  induction rounds generalizing state with
  | zero => exact ⟨h, hs⟩
  | succ rounds ih =>
    have hround := iterate_continues N env h hs
    simp only [loop]
    split
    · rename_i e state₁ hres
      rw [hres] at hround
      exact hround
    · rename_i state₁ hres
      rw [hres] at hround
      exact ih hround.1 hround.2

theorem runStarted_continues (N : Numbers α) (env : RunEnvironment σ) (session : LoggingSession α)
    (rounds : ℕ) (environment : σ) :
    Continues session.policy (runStarted N env session rounds { environment }) := by
  rcases hstart : env.start environment with ⟨result, environment'⟩
  have hsettled : Settled session.policy ([] : List (RunEvent α)) :=
    .of_not_endsInMiss (by simp [EndsInMiss]) (by simp [EndsInMiss, callsIn])
  have hregular : Regular session.policy [RunEvent.start result] :=
    Regular.nil.concat (hsettled.eventAllowed (fun _ h => nomatch h) (fun h => nomatch h))
      (fun _ h => absurd rfl h) (fun _ h => nomatch h)
  have hstarted : Settled session.policy [(.start result : RunEvent α)] :=
    .of_not_endsInMiss (endsInMiss_report rfl []) (endsInMiss_report rfl [])
  simp only [runStarted, callStart, hstart]
  cases result with
  | error e =>
    refine ⟨hregular, hstarted, ?_⟩
    by_cases hbad : e.kind = .badResponse
    · refine .inl fun call hmem => ?_
      rw [List.mem_singleton.1 hmem]
      exact if_pos hbad
    · exact .inr ⟨[], _, rfl, fun _ hmem => (nomatch hmem), if_neg hbad⟩
  | ok =>
    have hprogress : Progress session.policy .running 0
        [(.start (.ok ()) : RunEvent α), .stateChanged .running] :=
      { regular := hregular.concat
          (hstarted.eventAllowed (fun _ h => nomatch h) (fun h => nomatch h))
          (fun h => nomatch h) (fun _ h => nomatch h)
        state := rfl
        misses := rfl
        started := List.cons_ne_nil _ _
        fatal := by
          intro call hmem
          rw [List.mem_singleton.1 hmem]
          rfl }
    exact loop_continues rounds hprogress
      (.of_not_endsInMiss (endsInMiss_report rfl [_]) (endsInMiss_report rfl []))

/-! ### Every run -/

/-- The guard stops the protocol, and reports it when that fails. -/
theorem stopGuard_events (env : RunEnvironment σ) (state : RunState σ α) :
    ∃ result, ∃ texts : List String,
      (stopGuard env state).events = state.events ++ [.stop result] ++ texts.map .log := by
  rcases hstop : env.stop state.environment with ⟨result, environment⟩
  simp only [stopGuard, hstop]
  cases result with
  | error e => exact ⟨.error e, [e.detail], rfl⟩
  | ok => exact ⟨.ok (), [], by simp [emit]⟩

end LoggingRun

/-- What holds of a run. -/
structure RunSpec {α : Type} (policy : LoggingPolicy) (outcome : Option Error)
    (events : List (RunEvent α)) : Prop where
  /-- A run that goes on has not been stopped. -/
  running : outcome = none → ∀ result, .stop result ∉ events
  /-- A run that has ended has been stopped once, after all other calls. -/
  stopped : outcome ≠ none → ∃ before result, callsIn events = before ++ [.stop result] ∧
    ∀ result', .stop result' ∉ before
  /-- Samples are reported while the state is. -/
  samples : ∀ before values after, events = before ++ .samples values :: after →
    lastStateIn before = some .running
  /-- The silence of the car is reported exactly after the miss that reaches the threshold. -/
  silence : ∀ before after, events = before ++ after →
    (after.head? = some (.stateChanged .carNotResponding) ↔
      EndsInMiss before ∧ missesIn before = policy.carSilenceMissThreshold)
  /-- After the first call the protocol is started exactly when that is due. -/
  reconnect : ∀ before after, callsIn events = before ++ after → before ≠ [] →
    ((∃ result, after.head? = some (.start result)) ↔
      EndsInMiss before ∧ ReconnectAt policy (missesIn before))
  /-- An error of a poll that is not a bad response ends the run. -/
  pollError : ∀ before e after, callsIn events = before ++ .poll (.error e) :: after →
    e.kind ≠ .badResponse → outcome = some e ∧ ∃ result, after = [.stop result]
  /-- So does one of a start. -/
  startError : ∀ before e after, callsIn events = before ++ .start (.error e) :: after →
    e.kind ≠ .badResponse → outcome = some e ∧ ∃ result, after = [.stop result]

section Spec

variable {α : Type} {policy : LoggingPolicy} {events : List (RunEvent α)}

/-- The events of a run that goes on. -/
theorem RunSpec.of_progress {last : LoggingState} {misses : ℤ}
    (h : Progress policy last misses events) (hs : Settled policy events) :
    RunSpec policy none events where
  running := fun _ => h.regular.running
  stopped := fun hne => absurd rfl hne
  samples := fun before values after hl => (h.regular.each before _ after hl).1 values rfl
  silence := by
    have hend : EventAllowed policy events none :=
      ⟨fun _ hv => (nomatch hv), fun hv => (nomatch hv), fun howed => absurd howed hs.event⟩
    intro before after hl
    exact (splits_of_each (R := EventAllowed policy) h.regular.each hend before after hl).2
  reconnect := by
    have hend : CallAllowed policy (callsIn events) none := fun _ =>
      ⟨fun ⟨_, hr⟩ => (nomatch hr), fun howed => absurd howed hs.call⟩
    intro before after hl hne
    exact splits_of_each (R := CallAllowed policy) h.regular.calls hend before after hl hne
  pollError := by
    intro before e after hl hkind
    have := h.fatal (.poll (.error e)) (by rw [hl]; simp)
    rw [RunEvent.fatal, if_neg hkind] at this
    cases this
  startError := by
    intro before e after hl hkind
    have := h.fatal (.start (.error e)) (by rw [hl]; simp)
    rw [RunEvent.fatal, if_neg hkind] at this
    cases this

/-- In a list with one fatal call before the last, a fatal call is that one. -/
theorem fatal_unique {before before' after : List (RunEvent α)} {call call' stop : RunEvent α}
    {error error' : Error} (hbefore : ∀ c ∈ before, c.fatal = none) (hcall : call.fatal = some error)
    (hstop : stop.fatal = none) (hcall' : call'.fatal = some error')
    (h : before ++ [call] ++ [stop] = before' ++ call' :: after) :
    error' = error ∧ after = [stop] := by
  rw [List.append_assoc] at h
  rcases List.append_eq_append_iff.1 h with ⟨rest, -, hrest⟩ | ⟨rest, rfl, hrest⟩
  · cases rest with
    | nil =>
      cases hrest
      rw [hcall] at hcall'
      cases hcall'
      exact ⟨rfl, rfl⟩
    | cons c rest =>
      have hmem : call' ∈ [stop] := by
        have htail := (List.cons.inj hrest).2
        rw [show [stop] = rest ++ call' :: after from htail]
        simp
      rw [List.mem_singleton.1 hmem, hstop] at hcall'
      cases hcall'
  · cases rest with
    | nil =>
      cases hrest
      rw [hcall] at hcall'
      cases hcall'
      exact ⟨rfl, rfl⟩
    | cons c rest =>
      have hc := (List.cons.inj hrest).1
      rw [hc, hbefore c (by simp)] at hcall'
      cases hcall'

/-- The events of a run that has ended and been stopped. -/
theorem RunSpec.of_ended {error : Error} (h : Ended policy error events)
    (result : Except Error Unit) (texts : List String) :
    RunSpec policy (some error) (events ++ [.stop result] ++ texts.map .log) := by
  obtain ⟨hregular, hs, hfatal⟩ := h
  have hmiss : ¬ EndsInMiss (events ++ [.stop result]) :=
    fun h => Bool.false_ne_true (endsInMiss_concat.1 h)
  have hevent : EventAllowed policy events (some (.stop result)) :=
    hs.eventAllowed (fun _ h => nomatch h) (fun h => nomatch h)
  have hcall : CallAllowed policy (callsIn events) (some (.stop result)) :=
    hs.callAllowed fun _ h => nomatch h
  obtain ⟨heach, hmiss'⟩ := each_log (hregular.each.concat hevent) hmiss texts
  have hcalls : callsIn (events ++ [.stop result] ++ texts.map .log) =
      callsIn events ++ [.stop result] := (log_frame _ texts).1.trans callsIn_concat
  have hcallsEach := hregular.calls.concat hcall
  have hlast {call : RunEvent α} {e : Error} (hcall : call.fatal = some e)
      {before after : List (RunEvent α)}
      (hl : callsIn events ++ [.stop result] = before ++ call :: after) :
      some error = some e ∧ ∃ result, after = [.stop result] := by
    rcases hfatal with hnone | ⟨before', call', hevents, hnone, hcall'⟩
    · have hmem : call ∈ callsIn events ++ [.stop result] := by rw [hl]; simp
      rcases List.mem_append.1 hmem with hmem | hmem
      · rw [hnone call hmem] at hcall
        cases hcall
      · rw [List.mem_singleton.1 hmem] at hcall
        cases hcall
    · rw [hevents] at hl
      obtain ⟨rfl, rfl⟩ := fatal_unique hnone hcall' rfl hcall hl
      exact ⟨rfl, result, rfl⟩
  exact {
    running := fun hnone => nomatch hnone
    stopped := fun _ => ⟨callsIn events, result, hcalls, fun result' hmem =>
      hregular.running result' (List.mem_of_mem_filter hmem)⟩
    samples := fun before values after hl => (heach before _ after hl).1 values rfl
    silence := by
      have hend : EventAllowed policy (events ++ [.stop result] ++ texts.map .log) none :=
        ⟨fun _ hv => (nomatch hv), fun hv => (nomatch hv), fun howed => absurd howed.1 hmiss'⟩
      intro before after hl
      exact (splits_of_each (R := EventAllowed policy) heach hend before after hl).2
    reconnect := by
      have hend : CallAllowed policy (callsIn events ++ [.stop result]) none := fun _ =>
        ⟨fun ⟨_, hr⟩ => (nomatch hr),
          fun howed => absurd (endsInMiss_concat.1 howed.1) Bool.false_ne_true⟩
      intro before after hl hne
      rw [hcalls] at hl
      exact splits_of_each (R := CallAllowed policy) hcallsEach hend before after hl hne
    pollError := by
      intro before e after hl hkind
      rw [hcalls] at hl
      have hpoll : (RunEvent.poll (.error e) : RunEvent α).fatal = some e := if_neg hkind
      exact hlast hpoll hl
    startError := by
      intro before e after hl hkind
      rw [hcalls] at hl
      have hstart : (RunEvent.start (.error e) : RunEvent α).fatal = some e := if_neg hkind
      exact hlast hstart hl }

end Spec

end FastEcu.Logging
