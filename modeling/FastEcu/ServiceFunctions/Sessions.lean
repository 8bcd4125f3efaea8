import FastEcu.Data.Script
import FastEcu.Diagnostics.ObdFrames
import FastEcu.Logging.SsmProtocol

/-!
# Service functions

The sessions of `src/backend/service_functions` that talk to a Subaru TCU: relearning, reading its parameters and
setting them.  A session runs until it needs the operator, is done or has failed; what the transport and the
cancellation answer is a script.

* `Link` : the calls of a session, and what they leave.
* `RelearnSession`, `ReadParametersSession`, `SetParametersSession` : the sessions.
* `ServiceFunctionSession` : what a worker uses of a session.
-/

namespace FastEcu.ServiceFunctions

open Calibration (ErrorKind Error)
open Data Computation

/-! ### Calls -/

/-- What a call is answered by: one of these, whichever it is.  Without an answer the session is cancelled. -/
structure Reply where
  cancelled : Bool
  written : Except Error Unit
  received : Except Error (Option Bytes)

instance : Inhabited Reply := ⟨true, .error ⟨.cancelled, ""⟩, .error ⟨.cancelled, ""⟩⟩

/-- What a call of `ISsmTransport` leaves. -/
inductive Call
  | wrote (frame : Bytes)
  | read (received : Except Error (Option Bytes))

/-- What a session does. -/
abbrev Link := Computation Error Call (List Reply)

/-- The frame that a call writes. -/
def Call.frame? : Call → Option Bytes
  | .wrote frame => some frame
  | .read _ => none

/-- The frames among the calls. -/
abbrev frames (calls : List Call) : List Bytes := sent Call.frame? calls

/-- `ISsmTransport::Write`. -/
def write (frame : Bytes) : Link Unit := ask fun reply => (reply.written, [.wrote frame])

/-- `ISsmTransport::Read`. -/
def read : Link (Option Bytes) := ask fun reply => (reply.received, [.read reply.received])

/-- `ICancellationToken::Cancelled`. -/
def isCancelled : Link Bool := ask fun reply => (.ok reply.cancelled, [])

/-- A check of the cancellation that ends the calls. -/
def checkCancelled (detail : String) : Link Unit := do
  if ← isCancelled then fail ⟨.cancelled, detail⟩
  else pure ()

/-- A positive response stands at the fifth byte. -/
def isAck (frame : Bytes) (expected : Byte) : Bool := decide (frame.length > 4) && byteAt frame 4 == expected

/-! ### Steps -/

/-- `OperatorGateId`. -/
inductive OperatorGateId
  | relearnStaticSetup
  | relearnEngineRunning
deriving DecidableEq

/-- The value of the enumeration. -/
def OperatorGateId.code : OperatorGateId → ℤ
  | relearnStaticSetup => 0
  | relearnEngineRunning => 1

/-- `GateResponse`. -/
inductive GateResponse
  | accept
  | decline
deriving DecidableEq

/-- `TcuParameterReadout`. -/
structure TcuParameterReadout where
  inputClutch : Byte
  highLowReverseClutch : Byte
  directClutch : Byte
  frontBrake : Byte
  awdClutchTorque : UInt16
  forwardBrake : Byte
  fourWheelDrive : Byte
  linePressure : Byte
  temperatureBasis : Byte
deriving DecidableEq

/-- `RelearnOutcome`. -/
structure RelearnOutcome where
  pollsPerformed : ℕ := 0
  lastStatusFrame : Bytes := []

/-- `SetParametersOutcome`. -/
structure SetParametersOutcome where
  framesWritten : ℕ

/-- `ServiceFunctionOutcome`. -/
inductive ServiceFunctionOutcome
  | readout (outcome : TcuParameterReadout)
  | relearn (outcome : RelearnOutcome)
  | setParameters (outcome : SetParametersOutcome)

/-- `ServiceFunctionStep`. -/
inductive ServiceFunctionStep
  | gate (id : OperatorGateId)
  | completed (outcome : ServiceFunctionOutcome)
  | failed (e : Error)

/-- `SsmTransportConfig::Framing`. -/
inductive Framing
  | iso15765
  | kline14230

/-- `SsmTransportConfig`. -/
structure SsmTransportConfig where
  framing : Framing := .iso15765
  bitrateOrBaud : ℕ := 500000
  requestId : UInt32 := 0x7E1
  responseId : UInt32 := 0x7E9
  testerId : Byte := 0x00
  targetId : Byte := 0x00
  addIso14230Header : Bool := false

/-- The check of `TransportSetup` that the sessions share. -/
def requireDensoSh705xTcu (protocol : String) (config : SsmTransportConfig) : Except Error SsmTransportConfig :=
  if protocol ≠ "sub_tcu_denso_sh7055_can" ∧ protocol ≠ "sub_tcu_denso_sh7058_can" then
    .error ⟨.unsupported, "not a Subaru Denso SH705x TCU protocol: " ++ protocol⟩
  else .ok config

/-- `ServiceFunctionSession`. -/
structure ServiceFunctionSession (S : Type) where
  transportSetup : S → Except Error SsmTransportConfig
  resume : S → Link (ServiceFunctionStep × S)
  submit : GateResponse → S → S

/-! ### Relearning -/

/-- `RelearnSession::Stage`. -/
inductive Stage
  | awaitStaticSetupGate
  | writeSteps
  | poll
  | done
deriving DecidableEq

/-- `RelearnSession`. -/
structure RelearnSession where
  protocol : String
  stage : Stage := .awaitStaticSetupGate
  gateOutstanding : Bool := false
  declined : Bool := false

namespace RelearnSession

def writeAttempts : ℕ := 6
def pollIterations : ℕ := 200
def writeAck : Byte := 0xF8

def stepOne : Bytes := [0x00, 0x00, 0x07, 0xE1, 0xB8, 0x00, 0x01, 0xFC, 0x01]
def stepTwo : Bytes := [0x00, 0x00, 0x07, 0xE1, 0xB8, 0x00, 0x01, 0xFD, 0x09]
def pollFrame : Bytes := [0x00, 0x00, 0x07, 0xE1, 0xA8, 0x00, 0x00, 0x01, 0xFC, 0x00, 0x01, 0xFD]

/-- The loop of `ExchangeTolerantly`, with the last frame seen. -/
def exchangeTolerantly (frame : Bytes) (expected : Byte) : ℕ → Bytes → Link Bytes
  | 0, last => pure last
  | attempts + 1, last => do
    checkCancelled "cancelled before a TCU relearn write"
    write frame
    match ← read with
    | none => exchangeTolerantly frame expected attempts last
    | some received =>
      if isAck received expected then pure received
      else exchangeTolerantly frame expected attempts received

/-- `WriteStep`: a wrong response is logged only. -/
def writeStep (frame : Bytes) : Link Unit := do
  let _ ← exchangeTolerantly frame writeAck writeAttempts []

/-- The loop of `PollStatus`. -/
def pollStatus : ℕ → RelearnOutcome → Link RelearnOutcome
  | 0, outcome => pure outcome
  | polls + 1, outcome => do
    checkCancelled "cancelled while tracking relearn status"
    write pollFrame
    match ← read with
    | none => pollStatus polls { outcome with pollsPerformed := outcome.pollsPerformed + 1 }
    | some received => pollStatus polls ⟨outcome.pollsPerformed + 1, received⟩

/-- `RelearnSession::TransportSetup`. -/
def transportSetup (session : RelearnSession) : Except Error SsmTransportConfig :=
  requireDensoSh705xTcu session.protocol {}

/-- `RelearnSession::Submit`. -/
def submit (response : GateResponse) (session : RelearnSession) : RelearnSession :=
  { session with gateOutstanding := false, declined := decide (response = .decline) }

/-- The stages of `RelearnSession::Resume`. -/
def resumeStage (session : RelearnSession) : Link (ServiceFunctionStep × RelearnSession) :=
  match session.stage with
  | .awaitStaticSetupGate =>
    pure (.gate .relearnStaticSetup, { session with stage := .writeSteps, gateOutstanding := true })
  | .writeSteps => do
    match ← attempt (do writeStep stepOne; writeStep stepTwo) with
    | .error e => return (.failed e, session)
    | .ok () => return (.gate .relearnEngineRunning, { session with stage := .poll, gateOutstanding := true })
  | .poll => do
    match ← attempt (pollStatus pollIterations {}) with
    | .error e => return (.failed e, session)
    | .ok outcome => return (.completed (.relearn outcome), { session with stage := .done })
  | .done => pure (.failed ⟨.internal, "relearn resumed after completion"⟩, session)

/-- `RelearnSession::Resume`. -/
def resume (session : RelearnSession) : Link (ServiceFunctionStep × RelearnSession) :=
  if session.gateOutstanding then
    pure (.failed ⟨.internal, "resume() called with an operator gate outstanding"⟩, session)
  else if session.declined then
    pure (.failed ⟨.cancelled, "operator declined a relearn gate"⟩, session)
  else do
    if ← isCancelled then return (.failed ⟨.cancelled, "cancelled during TCU relearn"⟩, session)
    else session.resumeStage

/-- The session for a worker. -/
def service : ServiceFunctionSession RelearnSession := ⟨transportSetup, resume, submit⟩

end RelearnSession

/-! ### Reading the parameters -/

/-- `ReadParametersSession`. -/
structure ReadParametersSession where
  protocol : String
  misused : Bool := false

namespace ReadParametersSession

def attempts : ℕ := 6
def minFrameSize : ℕ := 15
def positiveResponse : Byte := 0xE8

/-- `kAddresses`. -/
def addresses : List UInt32 := [0x16C, 0x16D, 0x16E, 0x16F, 0x170, 0x171, 0x1BC, 0x1BD, 0x1BE, 0x1BF]

/-- `BuildRequest`. -/
def buildRequest : Bytes := [0x00, 0x00, 0x07, 0xE1, 0xA8, 0x00] ++ addresses.flatMap beBytes24

/-- `Decode`. -/
def decode (frame : Bytes) : TcuParameterReadout where
  inputClutch := byteAt frame 5
  highLowReverseClutch := byteAt frame 6
  directClutch := byteAt frame 7
  frontBrake := byteAt frame 8
  awdClutchTorque := readU16Be frame 9
  forwardBrake := byteAt frame 11
  fourWheelDrive := byteAt frame 12
  linePressure := byteAt frame 13
  temperatureBasis := byteAt frame 14

/-- The loop of `Resume`, with the last frame. -/
def exchange : ℕ → Bytes → Link TcuParameterReadout
  | 0, frame =>
    if frame = [] then fail ⟨.timeout, "no response to the TCU parameter read after 6 attempts"⟩
    else fail ⟨.badResponse, "TCU rejected the parameter read: " ++ Diagnostics.formatHex frame⟩
  | attempts + 1, frame => do
    write buildRequest
    match ← read with
    | none => exchange attempts frame
    | some received =>
      if isAck received positiveResponse then
        if received.length < minFrameSize then
          fail ⟨.badResponse, "TCU parameter frame shorter than 15 bytes"⟩
        else pure (decode received)
      else exchange attempts received

/-- `ReadParametersSession::Resume`. -/
def resume (session : ReadParametersSession) : Link (ServiceFunctionStep × ReadParametersSession) :=
  if session.misused then
    pure (.failed ⟨.internal, "read parameters has no operator gate to answer"⟩, session)
  else do
    if ← isCancelled then return (.failed ⟨.cancelled, "cancelled before reading TCU parameters"⟩, session)
    else
      match ← attempt (exchange attempts []) with
      | .error e => return (.failed e, session)
      | .ok readout => return (.completed (.readout readout), session)

/-- The session for a worker. -/
def service : ServiceFunctionSession ReadParametersSession where
  transportSetup session := requireDensoSh705xTcu session.protocol {}
  resume := resume
  submit _ session := { session with misused := true }

end ReadParametersSession

/-! ### Setting the parameters -/

/-- `TcuParameterValues`. -/
structure TcuParameterValues where
  correction1to2 : Byte
  correction2to3 : Byte
  correction3to4 : Byte
  correction4to5 : Byte
  correctionForwardBrake : Byte
  correctionFourWheelDrive : Byte
  correctionLinePressure : Byte
  temperatureBasis : Byte
  torqueCorrectionAwd : UInt16

/-- `TcuParameterWrite`. -/
structure TcuParameterWrite where
  address : UInt32
  value : Byte
deriving DecidableEq

/-- `TcuParameterWrites`. -/
def tcuParameterWrites (values : TcuParameterValues) : List TcuParameterWrite :=
  [⟨0x16C, values.correction3to4⟩, ⟨0x16D, values.correction2to3⟩, ⟨0x16E, values.correction1to2⟩,
    ⟨0x16F, values.correction4to5⟩, ⟨0x170, byteOf values.torqueCorrectionAwd.toUInt32 8⟩,
    ⟨0x171, byteOf values.torqueCorrectionAwd.toUInt32 0⟩, ⟨0x1BC, values.correctionForwardBrake⟩,
    ⟨0x1BD, values.correctionFourWheelDrive⟩, ⟨0x1BE, values.correctionLinePressure⟩,
    ⟨0x1BF, values.temperatureBasis⟩, ⟨0xEC, 0x55⟩, ⟨0xEC, 0xAA⟩]

/-- `SetParametersSession`. -/
structure SetParametersSession where
  protocol : String
  values : TcuParameterValues
  misused : Bool := false

namespace SetParametersSession

def testerId : Byte := 0xF0
def targetId : Byte := 0x18
def positiveResponse : Byte := 0xF8

/-- `FrameFor`. -/
def frameFor (w : TcuParameterWrite) : Bytes :=
  Logging.addHeader (0xB8 :: beBytes24 w.address ++ [w.value]) testerId targetId

/-- One turn of the loop of `Resume`. -/
def exchange (w : TcuParameterWrite) : Link Unit := do
  checkCancelled "cancelled while setting TCU parameters"
  write (frameFor w)
  match ← read with
  | none => fail ⟨.timeout, "no response to TCU parameter write"⟩
  | some reply =>
    if isAck reply positiveResponse then pure ()
    else fail ⟨.badResponse, "TCU rejected a parameter write: " ++ Diagnostics.formatHex reply⟩

/-- `SetParametersSession::Resume`. -/
def resume (session : SetParametersSession) : Link (ServiceFunctionStep × SetParametersSession) :=
  if session.misused then
    pure (.failed ⟨.internal, "set parameters has no operator gate to answer"⟩, session)
  else do
    match ← attempt (each (tcuParameterWrites session.values) exchange) with
    | .error e => return (.failed e, session)
    | .ok () =>
      return (.completed (.setParameters ⟨(tcuParameterWrites session.values).length⟩), session)

/-- The session for a worker. -/
def service : ServiceFunctionSession SetParametersSession where
  transportSetup session := requireDensoSh705xTcu session.protocol
    { framing := .kline14230, bitrateOrBaud := 4800, requestId := 0, responseId := 0, testerId, targetId }
  resume := resume
  submit _ session := { session with misused := true }

end SetParametersSession

end FastEcu.ServiceFunctions
