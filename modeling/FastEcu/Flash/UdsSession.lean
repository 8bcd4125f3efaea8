import FastEcu.Flash.UdsClient

/-!
# Sessions of UDS exchanges

What the executors of the CAN families do with the UDS client
(`src/backend/flash/ecu/uds_client_exchange_common.cpp`): a session is a computation whose events are
its exchanges, each with the calls it made and its result.

* `UdsEvent`, `UdsRun` : an exchange, and a part of a session.
* `fatalRequest`, `fatalQuery` : the exchanges.
* `UdsEvent.request?` : the requests that the transport has taken.
* `fatalRequest_sends`, `fatalRequest_strictly` : what an exchange sends, and that nothing follows one
  that failed.
-/

namespace FastEcu.Flash

open Calibration (ErrorKind)
open Data Computation Ports
open Diagnostics (CodeTables)

/-- `MemoryRegion`. -/
structure MemoryRegion where
  start : UInt32
  length : UInt32
deriving DecidableEq, Repr

/-- What a session leaves. -/
inductive UdsEvent
  /-- An exchange, with the calls it made. -/
  | exchange (request : Bytes) (calls : List CanEvent) (result : Except LinkError Bytes)
  /-- A call outside an exchange. -/
  | call (event : CanEvent)

/-- A part of a session. -/
abbrev UdsRun (α : Type) := Computation LinkError UdsEvent (List CanAnswer) α

/-- Where the requests go: the channel, and the texts of the negative responses. -/
structure UdsContext where
  channel : UdsChannel
  tables : CodeTables

namespace UdsContext

variable (ctx : UdsContext)

/-- `UdsClient::Request` in a context. -/
def request (policy : ExchangePolicy) (pdu : Bytes) : CanRun Bytes :=
  Flash.request ctx.tables ctx.channel policy pdu

/-- `FatalRequest`. -/
def fatalRequest (policy : ExchangePolicy) (pdu : Bytes) : UdsRun Bytes :=
  nest (.exchange pdu) (ctx.request policy pdu)

/-- The check of `FatalQuery`. -/
def checkPayload (expected : Bytes) (subject : String) (minPayloadSize : Option ℕ) (reply : Bytes) :
    Except LinkError Bytes :=
  let payload := udsPayload reply
  if payload.length < minPayloadSize.getD expected.length ∨ ¬ expected.isPrefixOf payload then
    .error (.of .badResponse (subject ++ " rejected"))
  else .ok reply

/-- `FatalQuery`. -/
def fatalQuery (policy : ExchangePolicy) (pdu expected : Bytes) (subject : String)
    (minPayloadSize : Option ℕ) : UdsRun Bytes :=
  nest (.exchange pdu) do
    let reply ← ctx.request policy pdu
    ofExcept (checkPayload expected subject minPayloadSize reply)

end UdsContext

/-- A call outside an exchange. -/
def outside {α : Type} (m : CanRun α) : UdsRun α := mapEvents .call m

/-- `CheckCancelled`. -/
def checkCancelled (detail : String) : UdsRun Unit := do
  if ← outside poll then fail (.of .cancelled detail) else pure ()

/-! ### What is sent -/

/-- The transport has taken a request. -/
def delivered (calls : List CanEvent) : Bool :=
  calls.any fun
    | .write _ (.ok _) => true
    | _ => false

/-- The request of an exchange, if the transport has taken it. -/
def UdsEvent.request? : UdsEvent → Option Bytes
  | .exchange request calls _ => if delivered calls then some request else none
  | .call _ => none

/-- The error of an exchange that failed. -/
def UdsEvent.failure : UdsEvent → Option LinkError
  | .exchange _ _ (.error e) => some e
  | _ => none

variable {ctx : UdsContext}

/-- A request that succeeded was taken by the transport. -/
theorem request_delivered (policy : ExchangePolicy) (pdu : Bytes) :
    Meets (fun result events => ∀ reply, result = .ok reply → delivered events)
      (ctx.request policy pdu) := by
  cases pdu with
  | nil => exact .fail fun reply h => (nomatch h)
  | cons service payload =>
    refine .bind (.ask fun polled => .ok (.ite (fun _ => .fail fun reply h => (nomatch h)) fun _ => ?_))
    refine .bind (.bind (.ask fun polled => .ok (.ite (fun _ => .fail fun reply h => (nomatch h))
      fun _ => .ask fun answer => ?_)))
    cases answer.status with
    | error e => exact .error fun reply h => (nomatch h)
    | ok u => exact Then.ok fun script reply h => by simp [delivered]

section Exchange

variable {pdu : Bytes} {m : CanRun Bytes}

/-- An exchange sends its request, if it succeeds only when the transport has taken it. -/
theorem nest_sends
    (h : Meets (fun result events => ∀ reply, result = .ok reply → delivered events) m) :
    Sends UdsEvent.request? [pdu] (nest (.exchange pdu) m) := by
  intro script
  have hdelivered := h script
  by_cases hd : delivered (m script).events
  · refine ⟨?_, fun _ _ => ?_⟩ <;> simp [nest, sent, UdsEvent.request?, hd]
  · refine ⟨by simp [nest, sent, UdsEvent.request?, hd], ?_⟩
    intro reply hreply
    exact absurd (hdelivered reply hreply) hd

/-- Nothing follows an exchange that failed. -/
theorem nest_strictly : Strictly UdsEvent.failure Bytes (nest (.exchange pdu) m) := by
  intro script
  refine .singleton ?_
  intro e he
  unfold UdsEvent.failure at he
  split at he
  · rename_i heq
    cases he
    exact (UdsEvent.exchange.inj heq).2.2
  · cases he

end Exchange

theorem fatalRequest_sends (policy : ExchangePolicy) (pdu : Bytes) :
    Sends UdsEvent.request? [pdu] (ctx.fatalRequest policy pdu) :=
  nest_sends (request_delivered policy pdu)

theorem fatalRequest_strictly (policy : ExchangePolicy) (pdu : Bytes) :
    Strictly UdsEvent.failure Bytes (ctx.fatalRequest policy pdu) := nest_strictly

theorem fatalQuery_sends (policy : ExchangePolicy) (pdu expected : Bytes) (subject : String)
    (minPayloadSize : Option ℕ) : Sends UdsEvent.request? [pdu]
      (ctx.fatalQuery policy pdu expected subject minPayloadSize) := by
  refine nest_sends (.bind_of (request_delivered policy pdu) ?_)
  rintro (e | reply) events hevents
  · exact .error fun r hr => (nomatch hr)
  · refine Then.ok (.ofExcept ?_)
    intro r _
    rw [List.append_nil]
    exact hevents reply rfl

end FastEcu.Flash
