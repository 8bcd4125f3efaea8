import FastEcu.Flash.CanTransport

/-!
# The UDS client

One request and its response (`src/backend/protocol/uds/uds_client.cpp`): the request is sent once, and
responses are read until one is not `responsePending`.

* `parseResponse` : what a response is.
* `request` : `UdsClient::Request`.
* `Answered` : the responses that a request succeeds with.
* `request_spec` : what is sent and read, when a request succeeds and what its errors mean.
-/

namespace FastEcu.Flash

open Calibration (ErrorKind)
open Data Computation Ports
open Diagnostics (hexDigits formatHex nrcDescription CodeTables)

/-! ### Responses -/

/-- `ResponseKind`. -/
inductive ResponseKind
  | positive
  | negative
  | malformed
deriving DecidableEq, Repr

/-- `Response`, without the view that only its tests read. -/
structure Response where
  kind : ResponseKind := .malformed
  service : Byte := 0
  nrc : Byte := 0
deriving DecidableEq, Repr

/-- `ParseResponse`. -/
def parseResponse (pdu : Bytes) : Response :=
  match pdu with
  | [] => {}
  | first :: rest =>
    if first = 0x7F then
      match rest with
      | service :: nrc :: _ => { kind := .negative, service, nrc }
      | _ => {}
    else if first < 0x40 then {}
    else { kind := .positive, service := first - 0x40 }

/-- `Response::IsPending`. -/
def Response.isPending (r : Response) : Bool := decide (r.kind = .negative) && decide (r.nrc = 0x78)

/-- `Response::Matches`. -/
def Response.matches (r : Response) (sid : Byte) : Bool :=
  decide (r.kind = .positive) && decide (r.service = sid)

/-- `Payload`. -/
def udsPayload (pdu : Bytes) : Bytes := pdu.drop 1

/-! ### The request -/

/-- `ExchangePolicy`. -/
structure ExchangePolicy where
  preReadDelay : ℤ := 0
  readTimeout : ℤ := 500
  pendingTimeout : ℤ := 3000
  maxPendingRepeats : ℤ := 10
deriving DecidableEq, Repr

/-- How often a request may read. -/
def ExchangePolicy.budget (policy : ExchangePolicy) : ℕ := (policy.maxPendingRepeats + 1).toNat

section Client

variable (tables : CodeTables) (channel : UdsChannel)

/-- What `UdsClient::Request` makes of a read that brought nothing. -/
def present : Option Bytes → Except LinkError Bytes
  | none => .error (.of .timeout "no response within the read timeout")
  | some frame => .ok frame

/-- One turn of the loop of `UdsClient::Request`, up to the response. -/
def readResponse (delay timeout : ℤ) : CanRun Bytes := do
  when (0 < delay) (mapError LinkError.afterIoMayHaveStarted (sleep delay))
  let received ← mapError LinkError.afterIoMayHaveStarted (channel.receive timeout)
  ofExcept (present received)

/-- What `UdsClient::Request` makes of a response that is not pending. -/
def acceptResponse (service : Byte) (frame : Bytes) : Except LinkError Bytes :=
  let parsed := parseResponse frame
  match parsed.kind with
  | .malformed => .error (.of .badResponse ("malformed UDS response: " ++ formatHex frame))
  | .negative => .error (.of .badResponse (nrcDescription tables frame))
  | .positive =>
    if parsed.matches service then .ok frame
    else
      .error (.of .badResponse ("expected response to SID 0x" ++ hexDigits 2 service.toNat ++
        ", got 0x" ++ hexDigits 2 parsed.service.toNat))

/-- The loop of `UdsClient::Request`, with the number of reads that are left. -/
def responseLoop (service : Byte) (policy : ExchangePolicy) : ℕ → ℤ → ℤ → CanRun Bytes
  | 0, _, _ =>
    fail (.of .timeout
      s!"ECU still reporting responsePending after {policy.maxPendingRepeats} repeats")
  | attempts + 1, delay, timeout => do
    let frame ← readResponse channel delay timeout
    if (parseResponse frame).isPending then
      responseLoop service policy attempts 0 policy.pendingTimeout
    else ofExcept (acceptResponse tables service frame)

/-- `UdsClient::Request`. -/
def request (policy : ExchangePolicy) (pdu : Bytes) : CanRun Bytes :=
  match pdu with
  | [] => fail (.of .internal "UDS request PDU is empty")
  | service :: _ => do
    if ← poll then
      fail (.cancelledBeforeDelegation "cancelled before request")
    else do
      channel.send pdu
      responseLoop tables channel service policy policy.budget policy.preReadDelay policy.readTimeout

/-! ### What is sent and read -/

/-- The data of a write. -/
def CanEvent.written? : CanEvent → Option Bytes
  | .write data _ => some data
  | _ => none

/-- The event is a read. -/
def CanEvent.isRead : CanEvent → Bool
  | .read _ _ => true
  | _ => false

/-- The response that a read brought. -/
def CanEvent.response? : CanEvent → Option Bytes
  | .read _ (.ok (some raw)) => (channel.unwrap raw).toOption
  | _ => none

/-- The responses are pending up to the last, which is a positive one to the service. -/
def Answered (service : Byte) (responses : List Bytes) (reply : Bytes) : Prop :=
  ∃ pending, responses = pending ++ [reply] ∧
    (∀ frame ∈ pending, (parseResponse frame).isPending) ∧ (parseResponse reply).matches service

/-- What a part of a request has left: nothing written, at most so many reads, and the responses that
were read. -/
structure Left (reads : ℕ) (responses : List Bytes) (events : List CanEvent) : Prop where
  written : events.filterMap CanEvent.written? = []
  reads : (events.filter CanEvent.isRead).length ≤ reads
  responses : events.filterMap (CanEvent.response? channel) = responses

variable {channel} {tables}

theorem Left.nil : Left channel 0 [] [] := ⟨rfl, le_rfl, rfl⟩

theorem Left.append {m n : ℕ} {responses responses' : List Bytes} {events events' : List CanEvent}
    (h : Left channel m responses events) (h' : Left channel n responses' events') :
    Left channel (m + n) (responses ++ responses') (events ++ events') := by
  refine ⟨?_, ?_, ?_⟩
  · rw [List.filterMap_append, h.written, h'.written, List.append_nil]
  · rw [List.filter_append, List.length_append]
    exact Nat.add_le_add h.reads h'.reads
  · rw [List.filterMap_append, h.responses, h'.responses]

theorem Left.mono {m n : ℕ} {responses : List Bytes} {events : List CanEvent}
    (h : Left channel m responses events) (hmn : m ≤ n) : Left channel n responses events :=
  ⟨h.written, h.reads.trans hmn, h.responses⟩

/-- A read that brought no response. -/
theorem left_read_none {timeout : ℤ} {frame : Except LinkError (Option Bytes)}
    (h : CanEvent.response? channel (.read timeout frame) = none) :
    Left channel 1 [] [.read timeout frame] :=
  ⟨rfl, le_rfl, by rw [List.filterMap_cons_none h, List.filterMap_nil]⟩

/-- What a read through the channel gives and leaves. -/
theorem receive_meets (timeout : ℤ) :
    Meets (fun result events => match result with
      | .ok response => Left channel 1 response.toList events
      | .error _ => Left channel 1 [] events) (channel.receive timeout) := by
  refine .bind (.bind (.ask fun polled => .ok (.ite ?_ ?_)))
  · -- the guard refuses the read
    intro _
    exact .fail (Left.nil.mono (Nat.zero_le 1))
  · intro _
    refine .ask fun answer => ?_
    cases answer.frame with
    | error e => exact left_read_none rfl
    | ok frame =>
      refine Then.ok (.ofExcept ?_)
      cases frame with
      | none => exact left_read_none rfl
      | some raw =>
        cases hraw : channel.unwrap raw with
        | error e =>
          rw [UdsChannel.unwrapRead, hraw]
          exact left_read_none (by simp [CanEvent.response?, hraw, Except.toOption])
        | ok pdu =>
          rw [UdsChannel.unwrapRead, hraw]
          refine ⟨rfl, le_rfl, ?_⟩
          simp [CanEvent.response?, hraw, Except.toOption]

theorem mapError_afterIo {α : Type} {result : Except LinkError α} {e : LinkError}
    (h : result.mapError LinkError.afterIoMayHaveStarted = .error e) : ¬ e.Refused := by
  cases result with
  | ok a => cases h
  | error e' =>
    cases h
    exact e'.not_refused_afterIoMayHaveStarted

/-- The delay leaves nothing that is written or read. -/
theorem delay_meets (delay : ℤ) :
    Meets (fun result events => Left channel 0 [] events ∧ ∀ e, result = .error e → ¬ e.Refused)
      (when (0 < delay) (mapError LinkError.afterIoMayHaveStarted (sleep delay)) : CanRun Unit) := by
  refine .ite (fun _ => .mapError (.ask fun answer => ?_)) fun _ => .pure ?_
  · exact ⟨⟨rfl, le_rfl, rfl⟩, fun e he => mapError_afterIo he⟩
  · exact ⟨.nil, fun e he => (nomatch he)⟩

/-- What one turn of the loop gives and leaves; its errors are never marked. -/
theorem readResponse_meets (delay timeout : ℤ) :
    Meets (fun result events => match result with
      | .ok frame => Left channel 1 [frame] events
      | .error e => Left channel 1 [] events ∧ ¬ e.Refused) (readResponse channel delay timeout) := by
  have hdelay := @delay_meets channel delay
  refine .bind_of hdelay ?_
  rintro (e | u) slept ⟨hslept, hnot⟩
  · exact .error ⟨hslept.mono (Nat.zero_le 1), hnot e rfl⟩
  refine Then.ok (.bind (.mapError ((@receive_meets channel timeout).mono ?_)))
  rintro (e | response) events hleft
  · exact .error ⟨by simpa using hslept.append hleft, e.not_refused_afterIoMayHaveStarted⟩
  · refine Then.ok (.ofExcept ?_)
    cases response with
    | none => exact ⟨by simpa using hslept.append hleft, LinkError.not_refused_of _ _⟩
    | some frame => simpa [present] using hslept.append hleft

variable (channel) in
/-- What the loop gives and leaves. -/
def LoopSpec (service : Byte) (reads : ℕ) (result : Except LinkError Bytes)
    (events : List CanEvent) : Prop :=
  ∃ responses, Left channel reads responses events ∧
    (∀ reply, result = .ok reply ↔ Answered service responses reply) ∧
    ∀ e, result = .error e → ¬ e.Refused

theorem not_answered_nil (service : Byte) (reply : Bytes) : ¬ Answered service [] reply := by
  rintro ⟨pending, h, -⟩
  simp at h

/-- A pending response before the others. -/
theorem answered_cons_pending {service : Byte} {frame : Bytes} {responses : List Bytes}
    (h : (parseResponse frame).isPending) (reply : Bytes) :
    Answered service (frame :: responses) reply ↔ Answered service responses reply := by
  constructor
  · rintro ⟨pending, hresponses, hpending, hreply⟩
    cases pending with
    | nil =>
      -- a pending response is not a positive one
      cases hresponses
      simp only [Response.isPending, Response.matches, Bool.and_eq_true, decide_eq_true_eq] at h hreply
      rw [h.1] at hreply
      exact absurd hreply.1 (by decide)
    | cons first pending =>
      cases hresponses
      exact ⟨pending, rfl, fun f hf => hpending f (List.mem_cons_of_mem _ hf), hreply⟩
  · rintro ⟨pending, rfl, hpending, hreply⟩
    refine ⟨frame :: pending, rfl, ?_, hreply⟩
    intro f hf
    rcases List.mem_cons.1 hf with rfl | hf
    · exact h
    · exact hpending f hf

/-- A single response that is not pending. -/
theorem answered_singleton {service : Byte} {frame : Bytes} (reply : Bytes) :
    Answered service [frame] reply ↔ frame = reply ∧ (parseResponse reply).matches service := by
  constructor
  · rintro ⟨pending, hresponses, -, hreply⟩
    cases pending with
    | nil =>
      cases hresponses
      exact ⟨rfl, hreply⟩
    | cons first pending => simp at hresponses
  · rintro ⟨rfl, hreply⟩
    exact ⟨[], rfl, fun f hf => (nomatch hf), hreply⟩

theorem acceptResponse_of_matches {service : Byte} {frame : Bytes}
    (h : (parseResponse frame).matches service) : acceptResponse tables service frame = .ok frame := by
  have hkind : (parseResponse frame).kind = .positive := by
    simp only [Response.matches, Bool.and_eq_true, decide_eq_true_eq] at h
    exact h.1
  simp [acceptResponse, hkind, h]

theorem acceptResponse_of_not_matches {service : Byte} {frame : Bytes}
    (h : ¬ (parseResponse frame).matches service) :
    ∃ detail, acceptResponse tables service frame = .error (.of .badResponse detail) := by
  unfold acceptResponse
  cases hkind : (parseResponse frame).kind with
  | positive =>
    simp only [hkind, h, Bool.false_eq_true, if_false]
    exact ⟨_, rfl⟩
  | negative =>
    simp only [hkind]
    exact ⟨_, rfl⟩
  | malformed =>
    simp only [hkind]
    exact ⟨_, rfl⟩

/-- A response is accepted when it is positive and to the service. -/
theorem acceptResponse_spec (service : Byte) (frame : Bytes) :
    (∀ reply, acceptResponse tables service frame = .ok reply ↔
      frame = reply ∧ (parseResponse reply).matches service) ∧
    ∀ e, acceptResponse tables service frame = .error e → ¬ e.Refused := by
  by_cases hmatches : (parseResponse frame).matches service
  · rw [acceptResponse_of_matches hmatches]
    refine ⟨fun reply => ⟨?_, ?_⟩, fun e he => (nomatch he)⟩
    · intro h
      cases h
      exact ⟨rfl, hmatches⟩
    · rintro ⟨rfl, -⟩
      rfl
  · obtain ⟨detail, hdetail⟩ := @acceptResponse_of_not_matches tables service frame hmatches
    rw [hdetail]
    refine ⟨fun reply => iff_of_false (fun h => (nomatch h)) ?_, ?_⟩
    · rintro ⟨rfl, h⟩
      exact hmatches h
    · intro e he
      cases he
      exact LinkError.not_refused_of _ _

/-- The loop reads no more than it may, and succeeds with a positive response after pending ones. -/
theorem responseLoop_meets (service : Byte) (policy : ExchangePolicy) (reads : ℕ) (delay timeout : ℤ) :
    Meets (LoopSpec channel service reads)
      (responseLoop tables channel service policy reads delay timeout) := by
  induction reads generalizing delay timeout with
  | zero =>
    refine .fail ⟨[], .nil, ?_, ?_⟩
    · intro reply
      exact iff_of_false (fun h => (nomatch h)) (not_answered_nil service reply)
    · intro e he
      cases he
      exact LinkError.not_refused_of _ _
  | succ reads ih =>
    refine .bind_of (@readResponse_meets channel delay timeout) ?_
    rintro (e | frame) events hread
    · refine .error ⟨[], hread.1.mono (Nat.le_add_left 1 reads), ?_, ?_⟩
      · intro reply
        exact iff_of_false (fun h => (nomatch h)) (not_answered_nil service reply)
      · intro e' he'
        cases he'
        exact hread.2
    · refine Then.ok (.ite ?_ ?_)
      · -- the ECU asks for more time
        intro hpending
        refine (ih 0 policy.pendingTimeout).mono ?_
        rintro result rest ⟨responses, hleft, hok, herror⟩
        refine ⟨[frame] ++ responses, ?_, ?_, herror⟩
        · rw [Nat.add_comm]
          exact Left.append hread hleft
        · intro reply
          rw [hok reply]
          exact (answered_cons_pending hpending reply).symm
      · intro _
        refine .ofExcept ⟨[frame], ?_, ?_, (acceptResponse_spec service frame).2⟩
        · rw [List.append_nil]
          exact Left.mono hread (Nat.le_add_left 1 reads)
        · intro reply
          rw [answered_singleton]
          exact (acceptResponse_spec service frame).1 reply

/-- The transport beneath the guard marks no error of a write: only the guard and the client do. -/
def Unmarked (events : List CanEvent) : Prop :=
  ∀ data e, .write data (.error e) ∈ events → ¬ e.Refused

variable (channel) in
/-- What a request gives and leaves. -/
structure RequestSpec (policy : ExchangePolicy) (service : Byte) (payload : Bytes)
    (result : Except LinkError Bytes) (events : List CanEvent) : Prop where
  written : events.filterMap CanEvent.written? = [] ∨
    events.filterMap CanEvent.written? = [channel.frameOf (service :: payload)]
  reads : (events.filter CanEvent.isRead).length ≤ policy.budget
  succeeds : ∀ reply, result = .ok reply ↔
    Answered service (events.filterMap (CanEvent.response? channel)) reply
  refused : Unmarked events → ∀ e, result = .error e → e.Refused →
    events.filterMap CanEvent.written? = []

/-- An error that nothing was read before. -/
theorem RequestSpec.of_error {policy : ExchangePolicy} {service : Byte} {payload : Bytes}
    {e : LinkError} {events : List CanEvent}
    (hwritten : events.filterMap CanEvent.written? = [] ∨
      events.filterMap CanEvent.written? = [channel.frameOf (service :: payload)])
    (hleft : events.filter CanEvent.isRead = [])
    (hresponses : events.filterMap (CanEvent.response? channel) = [])
    (hrefused : Unmarked events → e.Refused → events.filterMap CanEvent.written? = []) :
    RequestSpec channel policy service payload (.error e) events where
  written := hwritten
  reads := by simp [hleft]
  succeeds reply := by
    rw [hresponses]
    exact iff_of_false (fun h => (nomatch h)) (not_answered_nil service reply)
  refused hunmarked e' he' hrefused' := by
    cases he'
    exact hrefused hunmarked hrefused'

theorem request_meets (policy : ExchangePolicy) (service : Byte) (payload : Bytes) :
    Meets (RequestSpec channel policy service payload)
      (request tables channel policy (service :: payload)) := by
  refine .bind (.ask fun polled => .ok (.ite ?_ ?_))
  · intro _
    exact .fail (.of_error (.inl rfl) rfl rfl fun _ _ => rfl)
  · intro _
    refine .bind (.bind (.ask fun polled => .ok (.ite ?_ ?_)))
    · -- the guard refuses the request
      intro _
      exact .fail (.of_error (.inl rfl) rfl rfl fun _ _ => rfl)
    · intro _
      refine .ask fun answer => ?_
      cases answer.status with
      | error e =>
        refine RequestSpec.of_error (.inr rfl) rfl rfl ?_
        intro hunmarked hrefused
        exact absurd hrefused (hunmarked _ _ (List.mem_singleton_self _))
      | ok u =>
        refine Then.ok ((responseLoop_meets service policy policy.budget policy.preReadDelay
          policy.readTimeout).mono ?_)
        rintro result events ⟨responses, hleft, hok, herror⟩
        refine ⟨.inr ?_, ?_, ?_, ?_⟩
        · simpa [CanEvent.written?] using hleft.written
        · simpa [CanEvent.isRead] using hleft.reads
        · intro reply
          rw [hok reply, ← hleft.responses]
          rfl
        · intro _ e he hrefused
          exact absurd hrefused (herror e he)

end Client

end FastEcu.Flash
