import FastEcu.Diagnostics.DtcSession

/-!
# The parts of a diagnostic session

* `Event.failure` : the error of a call whose result is checked.
* `Admits` : a property of computations that the parts of a session have, once the calls that they
  make have it.  The parts are gone through once for all of these properties.
* `Admits.strictly`, `Admits.emits`, `Admits.keeps` : the properties.
* `frameLoop_fuel` : a read loop ends with the script.
-/

namespace FastEcu.Diagnostics

open Data Computation Ports

/-! ### Calls -/

/-- The error of a call whose result the session checks. -/
def Event.failure (event : Event) : Option LinkError :=
  match event.call, event.result with
  | .reset, _ | .setHeader _, _ | .setP1Max _, _ => none
  | _, .error e => some e
  | _, .ok _ => none

/-- The call reads a frame. -/
def Call.IsRead : Call → Prop
  | .read _ | .readObd _ => True
  | _ => False

/-! ### A rule for the parts of a session -/

/-- The call asks the ECU something, and not to clear the codes. -/
def Call.Asks (protocol : ObdProtocol) : Call → Prop
  | .write data => ∃ mode payload, mode ≠ kClearDtcs ∧
      data = buildRequest protocol kCanSource (mode :: payload)
  | .read _ | .readObd _ | .sleep _ => True
  | _ => False

/-- The call asks the ECU something or initialises it. -/
def Call.Prepares (protocol : ObdProtocol) : Call → Prop
  | .setHeader header => header ≠ .none
  | .reset => False
  | .write data => (Call.write data).Asks protocol
  | _ => True

/-- The results of the call are checked. -/
def Call.IsChecked : Call → Prop
  | .reset | .setHeader _ | .setP1Max _ => False
  | _ => True

theorem Call.Asks.prepares {protocol : ObdProtocol} {call : Call} (h : call.Asks protocol) :
    call.Prepares protocol := by
  cases call <;> first | exact h | trivial

theorem Call.IsRead.asks {protocol : ObdProtocol} {call : Call} (h : call.IsRead) :
    call.Asks protocol := by
  cases call <;> first | exact h | trivial

/-- A property of the parts that make allowed calls and allowed changes of the report. -/
structure Admits (Q : ∀ α : Type, Run α → Prop) (allowed : Call → Prop)
    (changes : (DtcReport → DtcReport) → Prop) : Prop extends Compositional Q where
  checked : ∀ {call : Call}, allowed call → Q _ (checked call)
  ignored : ∀ {call : Call}, allowed call → ¬ call.IsChecked → Q _ (ignored call)
  log : ∀ level message, Q _ (log level message)
  report : ∀ {f : DtcReport → DtcReport}, changes f → Q _ (report f)

namespace Admits

variable {Q : ∀ α : Type, Run α → Prop} {allowed : Call → Prop}
  {changes : (DtcReport → DtcReport) → Prop} {tables : CodeTables} {request : DtcRequest}

theorem usesJ2534 (hQ : Admits Q allowed changes) : Q _ Diagnostics.usesJ2534 :=
  hQ.choose (m := fun s => pure s.next.usesJ2534) fun _ => hQ.pure _

theorem badResponse {α : Type} (hQ : Admits Q allowed changes) (detail : String) :
    Q α (Diagnostics.badResponse detail) :=
  hQ.fail _

theorem sleep (hQ : Admits Q allowed changes) {duration : ℕ} (hallowed : allowed (.sleep duration)) :
    Q _ (Diagnostics.sleep duration) :=
  hQ.bind (hQ.checked hallowed) fun _ => hQ.pure ()

theorem readFrame (hQ : Admits Q allowed changes) (hread : ∀ call : Call, call.IsRead → allowed call)
    (timeout : ℕ) : Q _ (Diagnostics.readFrame timeout) := by
  refine hQ.bind hQ.usesJ2534 fun j2534 => hQ.checked (hread _ ?_)
  cases j2534 <;> trivial

theorem logWrongResponse (hQ : Admits Q allowed changes) (message : Option String) :
    Q _ (Diagnostics.logWrongResponse message) := by
  cases message with
  | none => exact hQ.pure ()
  | some text => exact hQ.log _ _

theorem frameLoop {α : Type} (hQ : Admits Q allowed changes)
    (hread : ∀ call : Call, call.IsRead → allowed call) (step : α → Bytes → FrameStep α) (fuel : ℕ)
    (a : α) : Q _ (Diagnostics.frameLoop step fuel a) := by
  induction fuel generalizing a with
  | zero => exact hQ.pure a
  | succ fuel ih =>
    refine hQ.bind (hQ.readFrame hread _) fun frame => ?_
    cases frame with
    | none => exact hQ.pure a
    | some frame => exact hQ.bind (hQ.logWrongResponse _) fun _ => Compositional.ite (ih _) (hQ.pure _)

theorem readFrames {α : Type} (hQ : Admits Q allowed changes)
    (hread : ∀ call : Call, call.IsRead → allowed call) (step : α → Bytes → FrameStep α) (a : α) :
    Q _ (Diagnostics.readFrames step a) :=
  hQ.choose (m := fun s => Diagnostics.frameLoop step (s.script.length + 1) a) fun _ =>
    hQ.frameLoop hread step _ a

theorem acknowledge (hQ : Admits Q allowed changes)
    (hread : ∀ call : Call, call.IsRead → allowed call)
    (hcleared : changes fun r => { r with cleared := true }) :
    Q _ (Diagnostics.acknowledge tables request) := by
  refine hQ.bind (hQ.readFrames hread _ _) fun cleared => ?_
  exact Compositional.ite (hQ.badResponse _) (hQ.bind (hQ.report hcleared) fun _ => hQ.log _ _)

section Asking

variable (hQ : Admits Q allowed changes) (hasks : ∀ call : Call, call.Asks request.protocol → allowed call)
  (hchanges : ∀ f : DtcReport → DtcReport, (∀ r, (f r).cleared = r.cleared) → changes f)

include hQ hasks

theorem sendRequest {mode : Byte} (hmode : mode ≠ kClearDtcs) (pid : Option Byte) (dtcList : Bool) :
    Q _ (Diagnostics.sendRequest tables request mode pid dtcList) :=
  hQ.bind (hQ.checked (hasks _ ⟨mode, pid.toList, hmode, rfl⟩)) fun _ =>
    hQ.readFrames (fun _ hcall => hasks _ hcall.asks) _ _

include hchanges

theorem supportPage (page : ℕ × Byte) : Q _ (Diagnostics.supportPage tables request page) := by
  refine hQ.bind (sendRequest hQ hasks (by decide) _ _) fun response => ?_
  refine hQ.bind (hQ.when _ ?_) fun _ => hQ.sleep (hasks _ trivial)
  exact hQ.bind (hQ.log _ _) fun _ => hQ.bind (hQ.log _ _) fun _ =>
    hQ.report (hchanges _ fun _ => rfl)

theorem vehicleItem {item : Item} (hmode : item.mode ≠ kClearDtcs)
    (hset : ∀ v r, (item.set v r).cleared = r.cleared) :
    Q _ (Diagnostics.vehicleItem tables request item) := by
  refine hQ.bind (sendRequest hQ hasks hmode _ _) fun response => ?_
  refine hQ.bind (hQ.when _ ?_) fun _ => hQ.sleep (hasks _ trivial)
  exact hQ.bind (hQ.log _ _) fun _ => hQ.bind (hQ.when _ (hQ.log _ _)) fun _ =>
    hQ.report (hchanges _ (hset response))

theorem vehicleInfo : Q _ (Diagnostics.vehicleInfo tables request) := by
  have hitems : ∀ item ∈ kItems, item.mode ≠ kClearDtcs ∧
      ∀ v r, (item.set v r).cleared = r.cleared := by
    intro item hitem
    simp only [kItems, List.mem_cons, List.not_mem_nil, or_false] at hitem
    rcases hitem with rfl | rfl | rfl | rfl | rfl | rfl | rfl <;> exact ⟨by decide, fun _ _ => rfl⟩
  refine hQ.bind (hQ.log _ _) fun _ => hQ.bind (hQ.sleep (hasks _ trivial)) fun _ => ?_
  refine hQ.bind (hQ.each fun page _ => supportPage hQ hasks hchanges page) fun _ => ?_
  exact hQ.each fun item hitem =>
    vehicleItem hQ hasks hchanges (hitems item hitem).1 (hitems item hitem).2

theorem readList {list : DtcList} (hmode : list.mode ≠ kClearDtcs)
    (hset : ∀ codes r, (list.set codes r).cleared = r.cleared) :
    Q _ (Diagnostics.readList tables request list) := by
  refine hQ.bind (sendRequest hQ hasks hmode _ _) fun response => Compositional.ite (hQ.badResponse _) ?_
  refine hQ.bind (hQ.log _ _) fun _ => hQ.bind (hQ.report (hchanges _ (hset _))) fun _ => ?_
  exact hQ.bind (hQ.each fun _ _ => hQ.log _ _) fun _ => hQ.sleep (hasks _ trivial)

theorem readDtcs : Q _ (Diagnostics.readDtcs tables request) := by
  refine hQ.bind (readList hQ hasks hchanges (by decide) fun _ _ => rfl) fun _ => ?_
  refine hQ.bind (readList hQ hasks hchanges (by decide) fun _ _ => rfl) fun _ => hQ.log _ _

theorem operation (hcleared : changes fun r => { r with cleared := true })
    (hclear : allowed (.write (buildRequest request.protocol kCanSource [kClearDtcs]))) :
    Q _ (Diagnostics.operation tables request) := by
  have hread : Q _ (Diagnostics.readDtcs tables request) := readDtcs hQ hasks hchanges
  refine Compositional.ite hread (hQ.bind hread fun _ => hQ.bind (hQ.checked hclear) fun _ => ?_)
  exact hQ.acknowledge (fun _ hcall => hasks _ hcall.asks) hcleared

end Asking

section Preparing

variable (hQ : Admits Q allowed changes)

include hQ

theorem fiveBaud {protocol : ObdProtocol} (hprepares : ∀ call : Call, call.Prepares protocol → allowed call)
    (requested : ObdProtocol) : Q _ (Diagnostics.fiveBaud requested) := by
  refine hQ.bind (hQ.checked (hprepares _ trivial)) fun _ => hQ.bind (hQ.log _ _) fun _ => ?_
  refine hQ.bind (hQ.ignored (hprepares _ trivial) not_false) fun _ => ?_
  refine hQ.bind (hQ.checked (hprepares _ trivial)) fun answer => hQ.bind (hQ.log _ _) fun _ => ?_
  refine hQ.bind hQ.usesJ2534 fun j2534 => ?_
  refine hQ.bind (hQ.when _ (hQ.ignored (hprepares _ trivial) not_false)) fun _ => ?_
  cases hheader : fiveBaudHeader requested (answer.getD []) j2534 with
  | none => exact hQ.bind (hQ.log _ _) fun _ => hQ.badResponse _
  | some header =>
    refine hQ.bind (hQ.ignored (hprepares _ ?_) not_false) fun _ => hQ.log _ _
    exact fiveBaudHeader_ne_none hheader

theorem fastInit {protocol : ObdProtocol} (hprepares : ∀ call : Call, call.Prepares protocol → allowed call) :
    Q _ Diagnostics.fastInit := by
  refine hQ.bind (hQ.checked (hprepares _ trivial)) fun _ => hQ.bind (hQ.log _ _) fun _ => ?_
  refine hQ.bind (hQ.checked (hprepares _ trivial)) fun _ => ?_
  refine hQ.bind (hQ.readFrame (fun _ hcall => hprepares _ hcall.asks.prepares) _) fun frame => ?_
  exact Compositional.ite (hQ.log _ _) (hQ.bind (hQ.log _ _) fun _ => hQ.badResponse _)

theorem canInit (hprepares : ∀ call : Call, call.Prepares .iso15765 → allowed call) :
    Q _ (Diagnostics.canInit tables) := by
  refine hQ.bind (hQ.checked (hprepares _ trivial)) fun _ => hQ.bind (hQ.log _ _) fun _ => ?_
  refine hQ.bind (hQ.checked (hprepares _ ⟨kLiveData, [0x00], by decide, rfl⟩)) fun _ => ?_
  refine hQ.bind (hQ.checked (hprepares _ trivial)) fun frame => ?_
  refine Compositional.ite (hQ.badResponse _) (Compositional.ite ?_ (Compositional.ite ?_ (hQ.log _ _)))
  · exact hQ.bind (hQ.log _ _) fun _ => hQ.badResponse _
  · exact hQ.bind (hQ.log _ _) fun _ => hQ.badResponse _

/-- The initialisation, for a property that the fallback keeps. -/
theorem init (horElse : ∀ {m n : Run Unit}, Q _ m → Q _ n → Q _ (orElse m n))
    (hprepares : ∀ call : Call, call.Prepares request.protocol → allowed call) :
    Q _ (Diagnostics.init tables request) := by
  unfold Diagnostics.init
  cases hprotocol : request.protocol with
  | iso9141 => exact hQ.fiveBaud hprepares _
  | iso14230 => exact horElse (hQ.fastInit hprepares) (hQ.fiveBaud hprepares _)
  | iso15765 => exact hQ.canInit fun call hcall => hprepares call (hprotocol ▸ hcall)

end Preparing

end Admits

/-! ### What the rule is used for -/

theorem Event.result_of_failure {event : Event} {e : LinkError} (h : event.failure = some e) :
    event.result = .error e := by
  unfold Event.failure at h
  split at h
  all_goals cases h
  assumption

theorem Event.isChecked_of_failure {event : Event} {e : LinkError} (h : event.failure = some e) :
    event.call.IsChecked := by
  unfold Event.failure at h
  cases hcall : event.call <;> first | trivial | (rw [hcall] at h; cases h)

theorem Admits.strictly : Admits (Strictly Event.failure) (fun _ => True) (fun _ => True) where
  toCompositional := Strictly.compositional
  checked _ _ := .singleton fun _ hfailure => Event.result_of_failure hfailure
  ignored _ hcall _ := .singleton fun _ hfailure => absurd (Event.isChecked_of_failure hfailure) hcall
  log _ _ _ := .nil
  report _ _ := .nil

theorem Admits.emits (p : Event → Prop) :
    Admits (Emits p) (fun call => ∀ result, p ⟨call, result⟩) (fun _ => True) where
  toCompositional := Emits.compositional
  checked hcall s event hmem := by
    cases List.mem_singleton.1 hmem
    exact hcall _
  ignored hcall _ s event hmem := by
    cases List.mem_singleton.1 hmem
    exact hcall _
  log _ _ _ _ hmem := (nomatch hmem)
  report _ _ _ hmem := (nomatch hmem)

theorem Admits.keeps : Admits (Keeps fun s => s.report.cleared = false) (fun _ => True)
    (fun f => ∀ r, (f r).cleared = r.cleared) where
  toCompositional := Keeps.compositional
  checked _ _ hs := hs
  ignored _ _ _ hs := hs
  log _ _ _ hs := hs
  report hf s hs := (hf s.report).trans hs

/-! ### Read loops -/

section Loops

variable {α : Type} {step : α → Bytes → FrameStep α} {fuel : ℕ} {a : α} {s : SessionState}

/-- The call that reads the next frame. -/
def readCall (s : SessionState) (timeout : ℕ) : Call :=
  if s.next.usesJ2534 then .read timeout else .readObd timeout

theorem readCall_isRead (s : SessionState) (timeout : ℕ) : (readCall s timeout).IsRead := by
  unfold readCall
  split <;> trivial

theorem readFrame_apply (timeout : ℕ) : readFrame timeout s =
    ⟨s.next.result, [⟨readCall s timeout, s.next.result⟩], s.advance⟩ := rfl

/-- The state after a frame whose message was logged. -/
def afterFrame (s : SessionState) (message : Option String) : SessionState :=
  (logWrongResponse message s.advance).state

theorem afterFrame_script (s : SessionState) (message : Option String) :
    (afterFrame s message).script = s.script.tail := by
  cases message <;> rfl

theorem frameLoop_of_error {e : LinkError} (h : s.next.result = .error e) :
    frameLoop step (fuel + 1) a s = ⟨.error e, [⟨readCall s kShortRead, .error e⟩], s.advance⟩ := by
  have hread : (readFrame kShortRead s).result = .error e := h
  rw [frameLoop, bind_of_error hread, readFrame_apply, h]

theorem frameLoop_of_deadline (h : s.next.result = .ok none) :
    frameLoop step (fuel + 1) a s = ⟨.ok a, [⟨readCall s kShortRead, .ok none⟩], s.advance⟩ := by
  have hread : (readFrame kShortRead s).result = .ok none := h
  rw [frameLoop, bind_of_ok hread, readFrame_apply, h]
  rfl

theorem frameLoop_of_frame {frame : Bytes} (h : s.next.result = .ok (some frame)) :
    frameLoop step (fuel + 1) a s =
      if (step a frame).again then
        let o := frameLoop step fuel (step a frame).value (afterFrame s (step a frame).message)
        ⟨o.result, ⟨readCall s kShortRead, .ok (some frame)⟩ :: o.events, o.state⟩
      else
        ⟨.ok (step a frame).value, [⟨readCall s kShortRead, .ok (some frame)⟩],
          afterFrame s (step a frame).message⟩ := by
  have hread : (readFrame kShortRead s).result = .ok (some frame) := h
  have hlog : (logWrongResponse (step a frame).message s.advance).result = .ok () ∧
      (logWrongResponse (step a frame).message s.advance).events = [] := by
    cases (step a frame).message <;> exact ⟨rfl, rfl⟩
  rw [frameLoop, bind_of_ok hread, readFrame_apply, h]
  dsimp only
  rw [bind_of_ok hlog.1, hlog.2]
  split <;> rfl

/-- A frame takes an answer of the script. -/
theorem script_length_of_frame {frame : Bytes} (h : s.next.result = .ok (some frame))
    (message : Option String) : (afterFrame s message).script.length + 1 = s.script.length := by
  rw [afterFrame_script]
  cases hscript : s.script with
  | nil =>
    rw [SessionState.next, hscript] at h
    cases h
  | cons answer script => rfl

/-- **More fuel than answers changes nothing**: the loop ends with a deadline at the latest. -/
theorem frameLoop_fuel (hfuel : s.script.length < fuel) :
    frameLoop step (fuel + 1) a s = frameLoop step fuel a s := by
  induction fuel generalizing a s with
  | zero => omega
  | succ fuel ih =>
    cases hnext : s.next.result with
    | error e => rw [frameLoop_of_error hnext, frameLoop_of_error hnext]
    | ok frame =>
      cases frame with
      | none => rw [frameLoop_of_deadline hnext, frameLoop_of_deadline hnext]
      | some frame =>
        have hlength := script_length_of_frame hnext (step a frame).message
        rw [frameLoop_of_frame hnext, frameLoop_of_frame hnext, ih (by omega)]

end Loops

end FastEcu.Diagnostics
