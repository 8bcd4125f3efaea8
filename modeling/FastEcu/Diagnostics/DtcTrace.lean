import FastEcu.Diagnostics.DtcParts

/-!
# What a diagnostic session asks of the link

* `Collected` : what the frames after a list request carry.
* `firstServiceByte` : the service byte of the first frame that has one.
* `DtcSessionSpec` : how a session ends, what follows a failure, and when the codes are cleared.
* `runDtcSession_spec` : **every session against every script is one of them**.
-/

namespace FastEcu.Diagnostics

open Calibration (ErrorKind)
open Data Computation Ports

/-! ### Events -/

/-- The call opens the link or initialises the ECU. -/
def Call.Initialises : Call → Prop
  | .openKline _ | .openCan _ | .fiveBaudInit _ | .fastInit _ => True
  | _ => False

/-- The frame that was read. -/
def Event.frame (event : Event) : Option Bytes :=
  match event.call, event.result with
  | .read _, .ok frame | .readObd _, .ok frame => frame
  | _, _ => none

/-- A request of the mode that clears the codes. -/
def Event.Clears (protocol : ObdProtocol) (event : Event) : Prop :=
  ∃ payload, event.call = .write (buildRequest protocol kCanSource (kClearDtcs :: payload))

/-- The header is cleared and the link reset. -/
def IsEpilogue (events : List Event) : Prop :=
  ∃ result result', events = [⟨.setHeader .none, result⟩, ⟨.reset, result'⟩]

/-- What the frames that are read after a list request carry: each frame that is not refused adds its
data, until a deadline or a refused frame. -/
inductive Collected (protocol : ObdProtocol) (mode : Byte) : List Event → Bytes → Prop
  | deadline {call : Call} (hcall : call.IsRead) : Collected protocol mode [⟨call, .ok none⟩] []
  | refused {call : Call} {frame : Bytes} (hcall : call.IsRead)
      (hcheck : checkResponse protocol frame mode none = .nrc ∨
        checkResponse protocol frame mode none = .wrongId) :
      Collected protocol mode [⟨call, .ok (some frame)⟩] []
  | frame {call : Call} {frame data : Bytes} {events : List Event} (hcall : call.IsRead)
      (hcheck : checkResponse protocol frame mode none = .short ∨
        checkResponse protocol frame mode none = .ok)
      (hevents : Collected protocol mode events data) :
      Collected protocol mode (⟨call, .ok (some frame)⟩ :: events)
        (unframeDtcListResponse protocol frame ++ data)

/-- A list was requested, something was read of it, and the session slept. -/
def ListRead (protocol : ObdProtocol) (mode : Byte) (events : List Event) : Prop :=
  ∃ written reads data slept,
    events = ⟨.write (buildRequest protocol kCanSource [mode]), .ok written⟩ :: reads ++
      [⟨.sleep kBetweenRequests, .ok slept⟩] ∧
    Collected protocol mode reads data ∧ data ≠ []

/-- The service byte of the first frame that is long enough for one. -/
def firstServiceByte (protocol : ObdProtocol) (events : List Event) : Option Byte :=
  ((events.filterMap Event.frame).find? fun frame => decide (responseIndex protocol < frame.length)).map
    fun frame => byteAt frame (responseIndex protocol)

/-- What a session from a state does. -/
structure DtcSessionSpec (request : DtcRequest) (start : SessionState)
    (o : Outcome LinkError Event SessionState DtcReport) : Prop where
  /-- The session ends with its epilogue, whose calls are made only there. -/
  ends : ∃ before last, o.events = before ++ last ∧ IsEpilogue last ∧
    ∀ event ∈ before, event.call ≠ .setHeader .none ∧ event.call ≠ .reset
  /-- A failed call is followed by the epilogue and its error is returned, unless it is the failure
  of the fast initialisation, other than a cancellation. -/
  failures : ∀ before event after e, o.events = before ++ event :: after → event.failure = some e →
    (o.result = .error e ∧ IsEpilogue after) ∨
      (request.protocol = .iso14230 ∧ e.kind ≠ .cancelled ∧ (fastInit start).result = .error e ∧
        (fastInit start).events = before ++ [event])
  /-- A failed fast initialisation is followed by one five-baud attempt, unless it was cancelled;
  nothing is initialised after that. -/
  fallback : request.protocol = .iso14230 → ∀ e, (fastInit start).result = .error e →
    (e.kind = .cancelled → o.result = .error e ∧
      ∃ last, o.events = (fastInit start).events ++ last ∧ IsEpilogue last) ∧
    (e.kind ≠ .cancelled → ∃ rest,
      o.events = (fastInit start).events ++ (fiveBaud .iso14230 (fastInit start).state).events ++ rest ∧
        ∀ event ∈ rest, ¬ event.call.Initialises)
  /-- The codes are cleared on request only, after both lists were read. -/
  clears : ∀ before event after, o.events = before ++ event :: after → event.Clears request.protocol →
    request.operation = .clear ∧ ∃ first stored pending,
      before = first ++ stored ++ pending ∧ ListRead request.protocol kStoredDtcs stored ∧
        ListRead request.protocol kPendingDtcs pending
  /-- The report says cleared if the ECU says so. -/
  cleared : (∃ report, o.result = .ok report ∧ report.cleared = true) ↔
    ∃ before event after, o.events = before ++ event :: after ∧ event.Clears request.protocol ∧
      firstServiceByte request.protocol after = some 0x44

/-! ### The lists and the acknowledgement -/

section Reading

variable {tables : CodeTables} {request : DtcRequest} {s : SessionState}

theorem frameLoop_collected {mode : Byte} {fuel : ℕ} {response response' : Bytes}
    (hfuel : s.script.length < fuel)
    (h : (frameLoop (requestStep tables request mode none true) fuel response s).result =
      .ok response') :
    ∃ data, response' = response ++ data ∧ Collected request.protocol mode
      (frameLoop (requestStep tables request mode none true) fuel response s).events data := by
  induction fuel generalizing response s with
  | zero => omega
  | succ fuel ih =>
    have hcall := readCall_isRead s kShortRead
    cases hnext : s.next.result with
    | error e =>
      rw [frameLoop_of_error hnext] at h
      cases h
    | ok frame =>
      cases frame with
      | none =>
        rw [frameLoop_of_deadline hnext] at h ⊢
        cases h
        exact ⟨[], by simp, .deadline hcall⟩
      | some frame =>
        have hlength := script_length_of_frame hnext
          (requestStep tables request mode none true response frame).message
        rw [frameLoop_of_frame hnext] at h ⊢
        cases hcheck : checkResponse request.protocol frame mode none <;>
          simp only [requestStep, hcheck, Bool.false_eq_true, if_false, if_true] at h hlength ⊢
        case nrc =>
          cases h
          exact ⟨[], by simp, .refused hcall (.inl hcheck)⟩
        case wrongId =>
          cases h
          exact ⟨[], by simp, .refused hcall (.inr hcheck)⟩
        case short =>
          obtain ⟨data, rfl, hdata⟩ := ih (by omega) h
          exact ⟨_, List.append_assoc .., .frame hcall (.inl hcheck) hdata⟩
        case ok =>
          obtain ⟨data, rfl, hdata⟩ := ih (by omega) h
          exact ⟨_, List.append_assoc .., .frame hcall (.inr hcheck) hdata⟩

/-- A list that is recorded is slept over. -/
theorem recordList_ok {list : DtcList} {response : Bytes}
    (h : (recordList tables list response s).result = .ok ()) :
    ∃ slept, (recordList tables list response s).events =
      [⟨.sleep kBetweenRequests, .ok slept⟩] := by
  have hquiet : Emits (fun _ => False) Unit (each (decodeDtcs response) fun code =>
      log .info ("DTC: " ++ dtcDescription tables code)) :=
    (Admits.emits _).each fun _ _ => (Admits.emits _).log _ _
  unfold recordList at h ⊢
  obtain ⟨_, _, h, hlog, -⟩ := bind_eq_ok h
  obtain ⟨_, _, h, hreport, -⟩ := bind_eq_ok h
  obtain ⟨_, _, h, hcodes, -⟩ := bind_eq_ok h
  obtain ⟨slept, hslept, -, hsleep, -⟩ := bind_eq_ok h
  have hevent := congrArg (fun result => [Event.mk (.sleep kBetweenRequests) result]) hslept
  rw [hlog, hreport, hcodes, List.eq_nil_iff_forall_not_mem.2 (hquiet _)]
  exact ⟨slept, hsleep.trans hevent⟩

theorem readList_ok {list : DtcList} (h : (readList tables request list s).result = .ok ()) :
    ListRead request.protocol list.mode (readList tables request list s).events := by
  unfold readList at h ⊢
  obtain ⟨response, hresponse, hrest, hevents, -⟩ := bind_eq_ok h
  rw [hevents]
  unfold sendRequest at hresponse
  obtain ⟨written, hwritten, hread, hrequest, -⟩ := bind_eq_ok hresponse
  obtain ⟨data, hdata, hcollected⟩ := frameLoop_collected (Nat.lt_succ_self _) hread
  rw [List.nil_append] at hdata
  subst hdata
  by_cases hempty : response.isEmpty
  · rw [if_pos hempty] at hrest
    cases hrest
  · rw [if_neg hempty] at hrest ⊢
    obtain ⟨slept, hslept⟩ := recordList_ok hrest
    refine ⟨written, _, response, slept, ?_, hcollected, by simpa using hempty⟩
    have hevent := congrArg
      (fun result => [Event.mk (.write (buildRequest request.protocol kCanSource [list.mode])) result])
      hwritten
    rw [hslept]
    refine congrArg (· ++ _) (hrequest.trans ?_)
    exact congrArg (· ++ _) hevent

/-- Both lists were read. -/
def ListsRead (protocol : ObdProtocol) (events : List Event) : Prop :=
  ∃ stored pending, events = stored ++ pending ∧ ListRead protocol kStoredDtcs stored ∧
    ListRead protocol kPendingDtcs pending

theorem readDtcs_ok (h : (readDtcs tables request s).result = .ok ()) :
    ListsRead request.protocol (readDtcs tables request s).events := by
  unfold readDtcs at h ⊢
  obtain ⟨_, hstored, h, hevents, -⟩ := bind_eq_ok h
  obtain ⟨_, hpending, -, hevents', -⟩ := bind_eq_ok h
  rw [hevents, hevents']
  refine ⟨_, _, ?_, readList_ok hstored, readList_ok hpending⟩
  exact congrArg _ (List.append_nil _)

theorem firstServiceByte_skip {protocol : ObdProtocol} {event : Event} {events : List Event}
    (h : event.frame = none) :
    firstServiceByte protocol (event :: events) = firstServiceByte protocol events := by
  rw [firstServiceByte, List.filterMap_cons_none h, firstServiceByte]

theorem firstServiceByte_frame {protocol : ObdProtocol} {event : Event} {events : List Event}
    {frame : Bytes} (h : event.frame = some frame) :
    firstServiceByte protocol (event :: events) =
      if responseIndex protocol < frame.length then some (byteAt frame (responseIndex protocol))
      else firstServiceByte protocol events := by
  rw [firstServiceByte, List.filterMap_cons_some h, List.find?_cons]
  by_cases hlength : responseIndex protocol < frame.length
  · simp [hlength]
  · simp [hlength, firstServiceByte]

theorem frame_of_isRead {call : Call} (hcall : call.IsRead) (frame : Option Bytes) :
    (Event.mk call (.ok frame)).frame = frame := by
  cases call <;> first | rfl | exact hcall.elim

theorem frame_of_error (call : Call) (e : LinkError) : (Event.mk call (.error e)).frame = none := by
  cases call <;> rfl

/-- A frame that is long enough ends the loop. -/
theorem clearStep_of_long (tables : CodeTables) (request : DtcRequest) {frame : Bytes}
    (h : responseIndex request.protocol < frame.length) :
    (clearStep tables request false frame).again = false ∧
      (clearStep tables request false frame).value =
        decide (byteAt frame (responseIndex request.protocol) = 0x44) := by
  have hmode : kClearDtcs ||| 0x40 = 0x44 := by decide
  unfold clearStep
  simp only [hmode, Nat.not_le.2 h, if_false]
  split
  · rename_i hnrc
    rw [hnrc]
    exact ⟨rfl, rfl⟩
  · split <;> simp_all

/-- The loop is acknowledged by the first frame that is long enough. -/
theorem frameLoop_acknowledged (fuel : ℕ) :
    (frameLoop (clearStep tables request) fuel false s).result = .ok true ↔
      firstServiceByte request.protocol
        (frameLoop (clearStep tables request) fuel false s).events = some 0x44 := by
  induction fuel generalizing s with
  | zero => exact iff_of_false (fun h => by cases h) (fun h => by cases h)
  | succ fuel ih =>
    have hcall := readCall_isRead s kShortRead
    cases hnext : s.next.result with
    | error e =>
      rw [frameLoop_of_error hnext, firstServiceByte_skip (frame_of_error _ e)]
      exact iff_of_false (fun h => by cases h) (fun h => by cases h)
    | ok frame =>
      cases frame with
      | none =>
        rw [frameLoop_of_deadline hnext, firstServiceByte_skip (frame_of_isRead hcall _)]
        exact iff_of_false (fun h => by cases h) (fun h => by cases h)
      | some frame =>
        rw [frameLoop_of_frame hnext]
        by_cases hshort : frame.length ≤ responseIndex request.protocol
        · -- a short frame is read past
          have hstep : clearStep tables request false frame = ⟨false, true, none⟩ := if_pos hshort
          rw [hstep, if_pos rfl, firstServiceByte_frame (frame_of_isRead hcall _),
            if_neg (Nat.not_lt.2 hshort)]
          exact ih
        · obtain ⟨hagain, hvalue⟩ := clearStep_of_long tables request (Nat.lt_of_not_le hshort)
          rw [hagain, hvalue, if_neg Bool.false_ne_true, firstServiceByte_frame (frame_of_isRead hcall _),
            if_pos (Nat.lt_of_not_le hshort)]
          simp

/-- What follows a clear request succeeds if it is acknowledged. -/
theorem acknowledge_spec (tables : CodeTables) (request : DtcRequest) (s : SessionState) :
    ((acknowledge tables request s).result = .ok () ↔
      firstServiceByte request.protocol (acknowledge tables request s).events = some 0x44) ∧
    ((acknowledge tables request s).result = .ok () →
      (acknowledge tables request s).state.report.cleared = true) := by
  have hloop : (readFrames (clearStep tables request) false s).result = .ok true ↔
      firstServiceByte request.protocol
        (readFrames (clearStep tables request) false s).events = some 0x44 :=
    frameLoop_acknowledged _
  unfold acknowledge
  cases hresult : (readFrames (clearStep tables request) false s).result with
  | error e =>
    rw [hresult] at hloop
    rw [bind_of_error hresult, ← hloop]
    exact ⟨iff_of_false (fun h => by cases h) (fun h => by cases h), fun h => by cases h⟩
  | ok cleared =>
    rw [hresult] at hloop
    rw [bind_of_ok hresult]
    cases cleared with
    | false =>
      refine ⟨?_, fun h => by cases h⟩
      change _ ↔ firstServiceByte _ (_ ++ []) = _
      rw [List.append_nil, ← hloop]
      exact iff_of_false (fun h => by cases h) (fun h => by cases h)
    | true =>
      refine ⟨?_, fun _ => rfl⟩
      change _ ↔ firstServiceByte _ (_ ++ []) = _
      rw [List.append_nil, ← hloop]
      exact iff_of_true rfl rfl

end Reading

/-! ### Whether the codes were cleared -/

section Settled

variable {tables : CodeTables} {request : DtcRequest} {s : SessionState}

/-- The part has not asked to clear the codes. -/
def Uncleared (request : DtcRequest) (o : Outcome LinkError Event SessionState Unit) : Prop :=
  (∀ event ∈ o.events, event.call.Prepares request.protocol) ∧
    (o.result = .ok () → o.state.report.cleared = false)

/-- The part has asked to clear the codes, after it read both lists, and has succeeded if the ECU
has acknowledged it. -/
def Clearing (request : DtcRequest) (o : Outcome LinkError Event SessionState Unit) : Prop :=
  request.operation = .clear ∧ ∃ first lists written after,
    o.events = first ++ lists ++
      ⟨.write (buildRequest request.protocol kCanSource [kClearDtcs]), written⟩ :: after ∧
    (∀ event ∈ first ++ lists, event.call.Prepares request.protocol) ∧
    ListsRead request.protocol lists ∧ (∀ event ∈ after, event.call.IsRead) ∧
    (o.result = .ok () ↔ firstServiceByte request.protocol after = some 0x44) ∧
    (o.result = .ok () → o.state.report.cleared = true)

/-- One of the two. -/
def Settled (request : DtcRequest) (o : Outcome LinkError Event SessionState Unit) : Prop :=
  Uncleared request o ∨ Clearing request o

theorem Settled.bind {m : Run Unit} {f : Unit → Run Unit}
    (hemits : Emits (fun event => event.call.Prepares request.protocol) Unit m)
    (hkeeps : Keeps (fun s => s.report.cleared = false) Unit m) (hs : s.report.cleared = false)
    (hf : ∀ s : SessionState, s.report.cleared = false → Settled request (f () s)) :
    Settled request ((m >>= f) s) := by
  cases hresult : (m s).result with
  | error e =>
    rw [bind_of_error hresult]
    exact .inl ⟨hemits s, fun h => by cases h⟩
  | ok _ =>
    rw [bind_of_ok hresult]
    rcases hf (m s).state (hkeeps s hs) with ⟨hevents, hcleared⟩ | ⟨hclear, first, lists, written,
      after, hevents, hbefore, hrest⟩
    · refine .inl ⟨fun event hmem => ?_, hcleared⟩
      exact (List.mem_append.1 hmem).elim (hemits s event) (hevents event)
    · refine .inr ⟨hclear, (m s).events ++ first, lists, written, after, ?_, ?_, hrest⟩
      · change (m s).events ++ (f () (m s).state).events = _
        rw [hevents]
        simp only [List.append_assoc]
      · intro event hmem
        rw [List.append_assoc] at hmem
        exact (List.mem_append.1 hmem).elim (hemits s event) (hbefore event)

theorem readDtcs_prepares :
    Emits (fun event => event.call.Prepares request.protocol) Unit (readDtcs tables request) :=
  (Admits.emits _).readDtcs (fun _ hcall _ => hcall.prepares) fun _ _ => trivial

theorem clearDtcs_settled (hoperation : request.operation = .clear) :
    Settled request (clearDtcs tables request s) := by
  have hprepares : ∀ event ∈ (readDtcs tables request s).events,
      event.call.Prepares request.protocol := readDtcs_prepares s
  unfold clearDtcs
  cases hresult : (readDtcs tables request s).result with
  | error e =>
    rw [bind_of_error hresult]
    exact .inl ⟨hprepares, fun h => by cases h⟩
  | ok _ =>
    have hlists := readDtcs_ok hresult
    rw [bind_of_ok hresult]
    generalize (readDtcs tables request s).state = s'
    cases hwritten : (checked (.write (buildRequest request.protocol kCanSource [kClearDtcs]))
        s').result with
    | error e =>
      rw [bind_of_error hwritten]
      refine .inr ⟨hoperation, [], _, _, [], rfl, hprepares, hlists, fun _ h => (nomatch h), ?_,
        fun h => by cases h⟩
      exact iff_of_false (fun h => by cases h) (fun h => by cases h)
    | ok written =>
      rw [bind_of_ok hwritten]
      obtain ⟨hacknowledged, hcleared⟩ := acknowledge_spec tables request s'.advance
      have hreads : Emits (fun event => event.call.IsRead) Unit (acknowledge tables request) :=
        (Admits.emits _).acknowledge (fun _ hcall _ => hcall) trivial
      exact .inr ⟨hoperation, [], _, _, _, rfl, hprepares, hlists, hreads _, hacknowledged, hcleared⟩

theorem operation_settled (hs : s.report.cleared = false) :
    Settled request (operation tables request s) := by
  unfold operation
  by_cases hoperation : request.operation = .read
  · rw [if_pos hoperation]
    refine .inl ⟨readDtcs_prepares s, fun _ => ?_⟩
    exact Admits.keeps.readDtcs (fun _ _ => trivial) (fun _ hf => hf) s hs
  · rw [if_neg hoperation]
    cases h : request.operation with
    | read => exact absurd h hoperation
    | clear => exact clearDtcs_settled h

theorem Emits.orElse {p : Event → Prop} {m n : Run Unit} (hm : Emits p Unit m) (hn : Emits p Unit n) :
    Emits p Unit (orElse m n) := by
  intro s event hmem
  unfold Diagnostics.orElse at hmem
  split at hmem
  · exact hm s event hmem
  · split at hmem
    · exact hm s event hmem
    · exact (List.mem_append.1 hmem).elim (hm s event) (hn _ event)

theorem Keeps.orElse {I : SessionState → Prop} {m n : Run Unit} (hm : Keeps I Unit m)
    (hn : Keeps I Unit n) : Keeps I Unit (orElse m n) := by
  intro s hs
  unfold Diagnostics.orElse
  split
  · exact hm s hs
  · split
    · exact hm s hs
    · exact hn _ (hm s hs)

theorem body_settled (hs : s.report.cleared = false) : Settled request (body tables request s) := by
  refine Settled.bind ?_ ?_ hs fun s hs => Settled.bind ?_ ?_ hs fun s hs => operation_settled hs
  · exact (Admits.emits _).init Emits.orElse fun _ hcall _ => hcall
  · exact Admits.keeps.init Keeps.orElse fun _ _ => trivial
  · exact (Admits.emits _).vehicleInfo (fun _ hcall _ => hcall.prepares) fun _ _ => trivial
  · exact Admits.keeps.vehicleInfo (fun _ _ => trivial) fun _ hf => hf

end Settled

/-! ### Failures -/

section Failures

variable {tables : CodeTables} {request : DtcRequest} {s : SessionState}

/-- What follows the initialisation. -/
def afterInit (tables : CodeTables) (request : DtcRequest) : Run Unit := do
  vehicleInfo tables request
  operation tables request

theorem body_eq : body tables request = init tables request >>= fun _ => afterInit tables request :=
  rfl

theorem afterInit_strictly : Strictly Event.failure Unit (afterInit tables request) := by
  refine Admits.strictly.bind (Admits.strictly.vehicleInfo ?_ ?_) fun _ =>
    Admits.strictly.operation ?_ ?_ trivial trivial
  all_goals exact fun _ _ => trivial

theorem afterInit_initialises (tables : CodeTables) (request : DtcRequest) :
    Emits (fun event => ¬ event.call.Initialises) Unit (afterInit tables request) := by
  have hasks : ∀ call : Call, call.Asks request.protocol → ∀ result,
      ¬ (Event.mk call result).call.Initialises := by
    intro call hcall result h
    cases call <;> first | exact h | exact hcall
  refine (Admits.emits _).bind ((Admits.emits _).vehicleInfo hasks fun _ _ => trivial) fun _ => ?_
  exact (Admits.emits _).operation hasks (fun _ _ => trivial) trivial fun _ h => h

/-- A fast initialisation that fails, and was not cancelled, is followed by the five-baud one. -/
theorem body_of_fastInit_failed {e : LinkError} (hprotocol : request.protocol = .iso14230)
    (hfailed : (fastInit s).result = .error e) (hkind : e.kind ≠ .cancelled) :
    body tables request s =
      let o := (fiveBaud .iso14230 >>= fun _ => afterInit tables request) (fastInit s).state
      ⟨o.result, (fastInit s).events ++ o.events, o.state⟩ := by
  have hinit : init tables request s =
      let o := fiveBaud .iso14230 (fastInit s).state
      ⟨o.result, (fastInit s).events ++ o.events, o.state⟩ := by
    unfold init
    rw [hprotocol]
    dsimp only
    unfold orElse
    rw [hfailed]
    dsimp only
    rw [if_neg hkind]
  exact bind_of_events hinit

/-- Otherwise the fast initialisation is the only one. -/
theorem body_of_fastInit (hprotocol : request.protocol = .iso14230)
    (hresult : ∀ e, (fastInit s).result = .error e → e.kind = .cancelled) :
    body tables request s = (fastInit >>= fun _ => afterInit tables request) s := by
  have hinit : init tables request s = fastInit s := by
    unfold init
    rw [hprotocol]
    dsimp only
    unfold orElse
    cases h : (fastInit s).result with
    | ok _ => rfl
    | error e => exact if_pos (hresult e h)
  exact bind_congr hinit

theorem strictly_bind_afterInit {m : Run Unit} (hm : Strictly Event.failure Unit m) :
    Strictly Event.failure Unit (m >>= fun _ => afterInit tables request) :=
  hm.bind fun _ => afterInit_strictly

/-- A failed call ends the body, or it is the end of the fast initialisation. -/
theorem body_failure {before after : List Event} {event : Event} {e : LinkError}
    (hevents : (body tables request s).events = before ++ event :: after)
    (hfailure : event.failure = some e) :
    (after = [] ∧ (body tables request s).result = .error e) ∨
      (request.protocol = .iso14230 ∧ e.kind ≠ .cancelled ∧ (fastInit s).result = .error e ∧
        (fastInit s).events = before ++ [event]) := by
  have hall : ∀ call : Call, call.Prepares request.protocol → True := fun _ _ => trivial
  have hfiveBaud (requested : ObdProtocol) : Strictly Event.failure Unit (fiveBaud requested) :=
    Admits.strictly.fiveBaud hall requested
  have hfastInit : Strictly Event.failure Unit fastInit := Admits.strictly.fastInit hall
  by_cases hprotocol : request.protocol = .iso14230
  · by_cases hcancelled : ∀ e, (fastInit s).result = .error e → e.kind = .cancelled
    · rw [body_of_fastInit hprotocol hcancelled] at hevents ⊢
      exact .inl (strictly_bind_afterInit hfastInit s before event after e hevents hfailure)
    · simp only [not_forall] at hcancelled
      obtain ⟨e', hfailed, hkind⟩ := hcancelled
      rw [body_of_fastInit_failed hprotocol hfailed hkind] at hevents ⊢
      -- the call is one of the fast initialisation or one of what follows it
      rcases append_eq_append_cons hevents with ⟨rest, hbefore, -⟩ | ⟨rest, -, hrest⟩
      · obtain ⟨rfl, hresult⟩ := hfastInit s before event rest e hbefore hfailure
        cases hresult.symm.trans hfailed
        exact .inr ⟨hprotocol, hkind, hfailed, hbefore⟩
      · exact .inl (strictly_bind_afterInit (hfiveBaud _) _ rest event after e hrest hfailure)
  · refine .inl (Strictly.bind ?_ (fun _ => afterInit_strictly) s before event after e hevents hfailure)
    unfold init
    cases h : request.protocol with
    | iso9141 => exact hfiveBaud _
    | iso14230 => exact absurd h hprotocol
    | iso15765 => exact Admits.strictly.canInit fun _ _ => trivial

end Failures

/-! ### Sessions -/

section Sessions

variable {tables : CodeTables} {request : DtcRequest}

theorem isEpilogue_epilogue (s : SessionState) : IsEpilogue (epilogue s).events := ⟨_, _, rfl⟩

theorem IsEpilogue.failure {events : List Event} (h : IsEpilogue events) {event : Event}
    (hmem : event ∈ events) : event.failure = none := by
  obtain ⟨result, result', rfl⟩ := h
  rcases List.mem_pair.1 hmem with rfl | rfl <;> rfl

theorem IsEpilogue.not_clears {events : List Event} (h : IsEpilogue events) {event : Event}
    (hmem : event ∈ events) {protocol : ObdProtocol} : ¬ event.Clears protocol := by
  obtain ⟨result, result', rfl⟩ := h
  rintro ⟨payload, hcall⟩
  rcases List.mem_pair.1 hmem with rfl | rfl <;> cases hcall

theorem IsEpilogue.not_initialises {events : List Event} (h : IsEpilogue events) {event : Event}
    (hmem : event ∈ events) : ¬ event.call.Initialises := by
  obtain ⟨result, result', rfl⟩ := h
  rcases List.mem_pair.1 hmem with rfl | rfl <;> exact not_false

theorem IsEpilogue.firstServiceByte {events last : List Event} (h : IsEpilogue last)
    (protocol : ObdProtocol) :
    firstServiceByte protocol (events ++ last) = firstServiceByte protocol events := by
  obtain ⟨result, result', rfl⟩ := h
  have hlast : List.filterMap Event.frame
      [⟨.setHeader .none, result⟩, ⟨.reset, result'⟩] = [] := by
    cases result <;> cases result' <;> rfl
  unfold Diagnostics.firstServiceByte
  rw [List.filterMap_append, hlast, List.append_nil]

theorem Call.Prepares.not_clears {protocol : ObdProtocol} {event : Event}
    (h : event.call.Prepares protocol) : ¬ event.Clears protocol := by
  rintro ⟨payload, hcall⟩
  rw [hcall] at h
  obtain ⟨mode, payload', hmode, hdata⟩ := h
  cases buildRequest_inj hdata
  exact hmode rfl

theorem Call.Prepares.not_epilogue {protocol : ObdProtocol} {call : Call} (h : call.Prepares protocol) :
    call ≠ .setHeader .none ∧ call ≠ .reset := by
  constructor
  · rintro rfl
    exact h rfl
  · rintro rfl
    exact h

theorem Settled.not_epilogue {o : Outcome LinkError Event SessionState Unit} (h : Settled request o) :
    ∀ event ∈ o.events, event.call ≠ .setHeader .none ∧ event.call ≠ .reset := by
  intro event hmem
  rcases h with ⟨hevents, -⟩ | ⟨-, first, lists, written, after, hevents, hbefore, -, hafter, -⟩
  · exact (hevents event hmem).not_epilogue
  · rw [hevents] at hmem
    rcases List.mem_append.1 hmem with hmem | hmem
    · exact (hbefore event hmem).not_epilogue
    · rcases List.mem_cons.1 hmem with rfl | hmem
      · exact ⟨fun h => (nomatch h), fun h => (nomatch h)⟩
      · have hread : event.call.Prepares request.protocol := (hafter event hmem).asks.prepares
        exact hread.not_epilogue

/-- A clear request of a session is the one of its body. -/
theorem Settled.clear {o : Outcome LinkError Event SessionState Unit} (h : Settled request o)
    {before after last : List Event} {event : Event} (hlast : IsEpilogue last)
    (hevents : o.events ++ last = before ++ event :: after) (hclears : event.Clears request.protocol) :
    Clearing request o ∧ ∃ first lists rest, before = first ++ lists ∧
      ListsRead request.protocol lists ∧ after = rest ++ last ∧
      (o.result = .ok () ↔ firstServiceByte request.protocol rest = some 0x44) := by
  rcases append_eq_append_cons hevents with ⟨rest, hbefore, rfl⟩ | ⟨rest, -, hrest⟩
  · rcases h with ⟨hprepares, -⟩ | hclearing
    · have hmem : event ∈ o.events := by simp [hbefore]
      exact absurd hclears (hprepares event hmem).not_clears
    · obtain ⟨-, first, lists, written, after, hbody, hprepares, hlists, hreads, hresult, -⟩ := id hclearing
      have hfirst : event ∉ first ++ lists := fun hmem => (hprepares event hmem).not_clears hclears
      have hafter : event ∉ after := fun hmem =>
        absurd hclears (hreads event hmem).asks.prepares.not_clears
      obtain ⟨rfl, -, rfl⟩ := (List.append_cons_inj_of_notMem hfirst hafter).1 (hbody.symm.trans hbefore)
      exact ⟨hclearing, first, lists, after, rfl, hlists, rfl, hresult⟩
  · have hmem : event ∈ last := by simp [hrest]
    exact absurd hclears (hlast.not_clears hmem)

/-- A session whose body has succeeded says cleared if the clear request was acknowledged. -/
theorem Settled.cleared {o : Outcome LinkError Event SessionState Unit} (h : Settled request o)
    {last : List Event} (hlast : IsEpilogue last) :
    (o.result = .ok () ∧ o.state.report.cleared = true) ↔
      ∃ before event after, o.events ++ last = before ++ event :: after ∧
        event.Clears request.protocol ∧ firstServiceByte request.protocol after = some 0x44 := by
  constructor
  · rintro ⟨hresult, hcleared⟩
    rcases h with ⟨-, huncleared⟩ | ⟨-, first, lists, written, after, hevents, -, -, -, hok, -⟩
    · rw [huncleared hresult] at hcleared
      cases hcleared
    · refine ⟨first ++ lists, ⟨.write _, written⟩, after ++ last, ?_, ⟨[], rfl⟩, ?_⟩
      · rw [hevents, List.append_assoc, List.cons_append]
      · rw [hlast.firstServiceByte, hok.1 hresult]
  · rintro ⟨before, event, after, hevents, hclears, hbyte⟩
    obtain ⟨⟨-, _, _, _, _, -, -, -, -, -, hcleared⟩, _, _, rest, -, -, rfl, hok⟩ :=
      h.clear hlast hevents hclears
    rw [hlast.firstServiceByte] at hbyte
    have hresult := hok.2 hbyte
    exact ⟨hresult, hcleared hresult⟩

theorem body_fallback (tables : CodeTables) {s : SessionState} {e : LinkError} (hprotocol : request.protocol = .iso14230)
    (hfailed : (fastInit s).result = .error e) :
    (e.kind = .cancelled → (body tables request s).result = .error e ∧
      (body tables request s).events = (fastInit s).events) ∧
    (e.kind ≠ .cancelled → ∃ rest, (body tables request s).events =
        (fastInit s).events ++ (fiveBaud .iso14230 (fastInit s).state).events ++ rest ∧
      ∀ event ∈ rest, ¬ event.call.Initialises) := by
  constructor
  · intro hkind
    have hcancelled : ∀ e', (fastInit s).result = .error e' → e'.kind = .cancelled := by
      intro e' he'
      cases he'.symm.trans hfailed
      exact hkind
    rw [body_of_fastInit hprotocol hcancelled, bind_of_error hfailed]
    exact ⟨rfl, rfl⟩
  · intro hkind
    rw [body_of_fastInit_failed hprotocol hfailed hkind]
    obtain ⟨rest, hrest, hinitialises⟩ := Emits.after
      (fun _ => afterInit_initialises tables request) (fiveBaud .iso14230) (fastInit s).state
    refine ⟨rest, ?_, hinitialises⟩
    dsimp only
    rw [hrest, List.append_assoc]

end Sessions

end FastEcu.Diagnostics
