import FastEcu.Bytes.Words
import FastEcu.Data.Script
import FastEcu.Diagnostics.ObdFrames
import FastEcu.Ports.LinkError

/-!
# The CAN transport of a flash session

What the executors of the CAN families call (`src/backend/flash/guarded_can_flash_transport.cpp`,
`src/backend/flash/can_flash_uds_channel.cpp`), as computations whose events are the calls of the
transport beneath the guard and of the clock.

* `CanAnswer` : what the cancellation token, the transport or the clock answers; a session runs
  against a list of them.
* `guardedWrite`, `guardedRead` : the calls that are refused once the session is cancelled.
* `UdsChannel` : the ids that frame what is sent and received.
-/

namespace FastEcu.Flash

open Calibration (ErrorKind)
open Data Computation Ports
open Diagnostics (hexDigits)

/-- An answer: what the token says when it is asked, what a call without a value returns, and what a
read returns.  Times are in milliseconds. -/
structure CanAnswer where
  cancelled : Bool := false
  status : Except LinkError Unit := .ok ()
  frame : Except LinkError (Option Bytes) := .ok none

instance : Inhabited CanAnswer := ⟨{}⟩

/-- A call that reached the transport beneath the guard or the clock, with its answer. -/
inductive CanEvent
  | write (data : Bytes) (status : Except LinkError Unit)
  | read (timeout : ℤ) (frame : Except LinkError (Option Bytes))
  | sleep (duration : ℤ) (status : Except LinkError Unit)

/-- A computation over the transport. -/
abbrev CanRun (α : Type) := Computation LinkError CanEvent (List CanAnswer) α

/-- `ICancellationToken::Cancelled`. -/
def poll : CanRun Bool := ask fun answer => (.ok answer.cancelled, [])

/-- `IClock::Sleep`. -/
def sleep (duration : ℤ) : CanRun Unit :=
  ask fun answer => (answer.status, [.sleep duration answer.status])

/-- `ICanFlashTransport::Write` of the transport beneath the guard. -/
def transportWrite (data : Bytes) : CanRun Unit :=
  ask fun answer => (answer.status, [.write data answer.status])

/-- `ICanFlashTransport::Read` of the transport beneath the guard. -/
def transportRead (timeout : ℤ) : CanRun (Option Bytes) :=
  ask fun answer => (answer.frame, [.read timeout answer.frame])

/-- `GuardedCanFlashTransport::Write`. -/
def guardedWrite (data : Bytes) : CanRun Unit := do
  if ← poll then
    fail (.cancelledBeforeDelegation "CAN write cancelled before delegation")
  else transportWrite data

/-- `GuardedCanFlashTransport::Read`. -/
def guardedRead (timeout : ℤ) : CanRun (Option Bytes) := do
  if ← poll then
    fail (.cancelledBeforeDelegation "CAN read cancelled before delegation")
  else transportRead timeout

/-- `CanFlashUdsChannel`: the ids of the requests and of the responses. -/
structure UdsChannel where
  requestId : UInt32
  responseId : UInt32

namespace UdsChannel

variable (channel : UdsChannel)

/-- The frame of a request. -/
def frameOf (pdu : Bytes) : Bytes := beBytes channel.requestId ++ pdu

/-- `CanFlashUdsChannel::Send`. -/
def send (pdu : Bytes) : CanRun Unit := guardedWrite (channel.frameOf pdu)

/-- The response in a frame, as `CanFlashUdsChannel::Receive` takes it out. -/
def unwrap (raw : Bytes) : Except LinkError Bytes :=
  if raw.length < 4 then
    .error (.of .badResponse
      s!"CAN frame of {raw.length} bytes is shorter than its 4-byte id envelope")
  else if readU32Be raw 0 ≠ channel.responseId then
    .error (.of .badResponse ("expected CAN reply id 0x" ++ hexDigits 1 channel.responseId.toNat ++
      ", got 0x" ++ hexDigits 1 (readU32Be raw 0).toNat))
  else .ok (raw.drop 4)

/-- What `CanFlashUdsChannel::Receive` makes of what the transport read. -/
def unwrapRead : Option Bytes → Except LinkError (Option Bytes)
  | none => .ok none
  | some raw => (channel.unwrap raw).map some

/-- `CanFlashUdsChannel::Receive`. -/
def receive (timeout : ℤ) : CanRun (Option Bytes) := do
  let frame ← guardedRead timeout
  ofExcept (channel.unwrapRead frame)

end UdsChannel

end FastEcu.Flash
