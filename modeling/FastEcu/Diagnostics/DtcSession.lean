import FastEcu.Data.Computation
import FastEcu.Diagnostics.ObdFrames
import FastEcu.Ports.LinkError

/-!
# The diagnostic session

One read or clear of the trouble codes (`src/backend/diagnostics/dtc_session.cpp`) as a computation
whose events are the calls of the link and of the clock with their answers.

* `Answer` : what the link or the clock answers to one call; the session runs against a list of them.
* `frameLoop` : the loops that read frames until a deadline.
* `init`, `vehicleInfo`, `readDtcs`, `clearDtcs` : the parts of a session.
* `runDtcSession` : a session, with the calls that end it.
-/

namespace FastEcu.Diagnostics

open Calibration (ErrorKind)
open Data Ports

/-! ### Calls and answers -/

/-- `KlineLinkConfig`. -/
structure KlineLinkConfig where
  header : KlineHeader
  iso14230Connection : Bool
  baud : ℕ
  startByte : Byte
  testerId : Byte
  targetId : Byte
deriving DecidableEq, Repr

/-- `CanLinkConfig`. -/
structure CanLinkConfig where
  iso15765 : Bool
  bitrate : ℕ
  extendedId : Bool
  sourceId : UInt32
  destinationId : UInt32
deriving DecidableEq, Repr

/-- The calls of `IDiagnosticLink` and `IClock::Sleep`; times are in milliseconds. -/
inductive Call
  | openKline (config : KlineLinkConfig)
  | openCan (config : CanLinkConfig)
  | reset
  | setHeader (header : KlineHeader)
  | setP1Max (milliseconds : ℕ)
  | fiveBaudInit (address : Byte)
  | fastInit (wakeup : Bytes)
  | write (data : Bytes)
  | read (timeout : ℕ)
  | readObd (timeout : ℕ)
  | sleep (duration : ℕ)
deriving DecidableEq, Repr

/-- The answer to one call: an error, or the bytes where the call has bytes to return, and what
`UsesJ2534` says before the call. -/
structure Answer where
  result : Except LinkError (Option Bytes) := .ok none
  usesJ2534 : Bool := false

/-- A call that was made, and its answer. -/
structure Event where
  call : Call
  result : Except LinkError (Option Bytes)

/-- `LogLevel`, of the levels that a session uses. -/
inductive LogLevel
  | info
  | error
deriving DecidableEq, Repr

/-- `SupportedPidPage`. -/
structure SupportedPidPage where
  page : ℕ
  bitmap : Bytes
deriving DecidableEq, Repr

/-- `DtcReport`. -/
structure DtcReport where
  supportedPids : List SupportedPidPage := []
  monitorStatus : Option Bytes := none
  vinLength : Option Bytes := none
  vin : Option Bytes := none
  calIdLength : Option Bytes := none
  calId : Option Bytes := none
  cvnLength : Option Bytes := none
  cvn : Option Bytes := none
  stored : List UInt16 := []
  pending : List UInt16 := []
  cleared : Bool := false
deriving DecidableEq, Repr

/-- `DtcOperation`. -/
inductive DtcOperation
  | read
  | clear
deriving DecidableEq, Repr

/-- `DtcRequest`. -/
structure DtcRequest where
  protocol : ObdProtocol := .iso9141
  operation : DtcOperation := .read
deriving DecidableEq, Repr

/-- What a session has: the answers that are left, its report and its log. -/
structure SessionState where
  script : List Answer
  report : DtcReport := {}
  log : List (LogLevel × String) := []

/-- A part of a session. -/
abbrev Run (α : Type) := Computation LinkError Event SessionState α

namespace SessionState

/-- The next answer; a call that the script has no answer to meets a deadline. -/
def next (s : SessionState) : Answer := s.script.headD {}

/-- The state after a call. -/
def advance (s : SessionState) : SessionState := { s with script := s.script.tail }

end SessionState

/-! ### The parts of a session -/

/-- A call whose error ends the part that makes it. -/
def checked (call : Call) : Run (Option Bytes) :=
  fun s => ⟨s.next.result, [⟨call, s.next.result⟩], s.advance⟩

/-- A call whose result is ignored. -/
def ignored (call : Call) : Run Unit := fun s => ⟨.ok (), [⟨call, s.next.result⟩], s.advance⟩

/-- `IDiagnosticLink::UsesJ2534`. -/
def usesJ2534 : Run Bool := fun s => ⟨.ok s.next.usesJ2534, [], s⟩

/-- `IClock::Sleep`. -/
def sleep (duration : ℕ) : Run Unit := do
  let _ ← checked (.sleep duration)

/-- `Info` and `Error`. -/
def log (level : LogLevel) (message : String) : Run Unit :=
  Computation.modify fun s => { s with log := s.log ++ [(level, message)] }

/-- A change of the report. -/
def report (f : DtcReport → DtcReport) : Run Unit :=
  Computation.modify fun s => { s with report := f s.report }

/-- A response that the session does not accept. -/
def badResponse {α : Type} (detail : String) : Run α :=
  Computation.fail ⟨⟨.badResponse, detail⟩, .mayHaveStarted⟩

/-- `kShortRead`, `kCanInitRead`, `kBeforeVehicleInfo` and `kBetweenRequests`. -/
def kShortRead : ℕ := 200
def kCanInitRead : ℕ := 2000
def kBeforeVehicleInfo : ℕ := 500
def kBetweenRequests : ℕ := 250

/-- `kCanSource` and `kCanDestination`. -/
def kCanSource : UInt32 := 0x7E0
def kCanDestination : UInt32 := 0x7E8

/-- The modes of the requests. -/
def kLiveData : Byte := 0x01
def kStoredDtcs : Byte := 0x03
def kClearDtcs : Byte := 0x04
def kPendingDtcs : Byte := 0x07
def kVehicleInfo : Byte := 0x09

/-- `ReadFrame`. -/
def readFrame (timeout : ℕ) : Run (Option Bytes) := do
  let j2534 ← usesJ2534
  checked (if j2534 then .read timeout else .readObd timeout)

/-- What a loop does with a frame: what it logs, what it has collected and whether it goes on. -/
structure FrameStep (α : Type) where
  value : α
  again : Bool
  message : Option String := none

/-- The message of a frame that ends a loop. -/
def logWrongResponse : Option String → Run Unit
  | some text => log .error ("Wrong response from ECU: " ++ text)
  | none => pure ()

/-- Frames are read until a deadline or until a frame ends the loop. -/
def frameLoop {α : Type} (step : α → Bytes → FrameStep α) : ℕ → α → Run α
  | 0, a => pure a
  | fuel + 1, a => do
    match ← readFrame kShortRead with
    | none => pure a
    | some frame =>
      logWrongResponse (step a frame).message
      if (step a frame).again then frameLoop step fuel (step a frame).value
      else pure (step a frame).value

/-- The loop that can use every answer of the script, and the deadline after the last one. -/
def readFrames {α : Type} (step : α → Bytes → FrameStep α) (a : α) : Run α :=
  fun s => frameLoop step (s.script.length + 1) a s

section Parts

variable (tables : CodeTables) (request : DtcRequest)

/-- One frame of `Request`. -/
def requestStep (mode : Byte) (pid : Option Byte) (dtcList : Bool) (response frame : Bytes) :
    FrameStep Bytes :=
  match checkResponse request.protocol frame mode pid with
  | .nrc =>
    ⟨response, false, some (nrcDescription tables (frame.drop (responseIndex request.protocol)))⟩
  | .wrongId => ⟨response, false, some (formatHex frame)⟩
  | .short | .ok =>
    let data :=
      if dtcList then unframeDtcListResponse request.protocol frame
      else unframeDataResponse request.protocol frame
    ⟨response ++ data, true, none⟩

/-- `Request`. -/
def sendRequest (mode : Byte) (pid : Option Byte) (dtcList : Bool) : Run Bytes := do
  let _ ← checked (.write (buildRequest request.protocol kCanSource (mode :: pid.toList)))
  readFrames (requestStep tables request mode pid dtcList) []

/-- `KlineIds`. -/
structure KlineIds where
  startByte : Byte
  testerId : Byte
  targetId : Byte

/-- `IdsFor`. -/
def idsFor (protocol : ObdProtocol) : KlineIds :=
  if protocol = .iso9141 then ⟨0x68, 0xF1, 0x6A⟩ else ⟨0xC0, 0xF1, 0x33⟩

/-- The configuration that `FiveBaud` opens. -/
def fiveBaudConfig (requested : ObdProtocol) : KlineLinkConfig :=
  ⟨.none, false, 10400, (idsFor requested).startByte, (idsFor requested).testerId,
    (idsFor requested).targetId⟩

/-- The configuration that `FastInit` opens. -/
def fastInitConfig : KlineLinkConfig :=
  ⟨.iso14230, true, 10400, (idsFor .iso14230).startByte, (idsFor .iso14230).testerId,
    (idsFor .iso14230).targetId⟩

/-- `FiveBaud`. -/
def fiveBaud (requested : ObdProtocol) : Run Unit := do
  let name := protocolName requested
  let _ ← checked (.openKline (fiveBaudConfig requested))
  log .info ("Testing " ++ name ++ " five baud init, please wait...")
  ignored (.setP1Max 35)
  let answer ← checked (.fiveBaudInit 0x33)
  let response := answer.getD []
  log .info ("Init response: " ++ formatHex response)
  let j2534 ← usesJ2534
  Computation.when (!j2534) (ignored (.setP1Max 25))
  match fiveBaudHeader requested response j2534 with
  | none => do
    log .error (name ++ " five baud init failed.")
    badResponse (name ++ " five baud init failed")
  | some header => do
    ignored (.setHeader header)
    log .info (name ++ " five baud init successfully completed.")

/-- `FastInit`. -/
def fastInit : Run Unit := do
  let _ ← checked (.openKline fastInitConfig)
  log .info "Initialising iso14230 fast init K-Line communications, please wait..."
  let _ ← checked (.fastInit [0x81])
  let frame ← readFrame kShortRead
  if (frame.elim false fastInitAccepted) then
    log .info "iso14230 fast init mode successfully completed."
  else do
    log .error "iso14230 fast init mode failed."
    badResponse "iso14230 fast init mode failed"

/-- `CanInit`. -/
def canInit : Run Unit := do
  let _ ← checked (.openCan ⟨true, 500000, false, kCanSource, kCanDestination⟩)
  log .info "Initialising iso15765 CAN communications, please wait..."
  let _ ← checked (.write (buildRequest .iso15765 kCanSource [kLiveData, 0x00]))
  let frame ← checked (.read kCanInitRead)
  let f := frame.getD []
  if f.length ≤ 4 then badResponse "no iso15765 init response"
  else if byteAt f 4 = 0x7F then do
    log .error ("Wrong response from ECU: " ++ nrcDescription tables (f.drop 4))
    badResponse "iso15765 init rejected"
  else if byteAt f 4 ≠ 0x41 then do
    log .error ("Wrong response from ECU: " ++ formatHex f)
    badResponse "iso15765 init wrong response"
  else log .info "iso15765 init mode successfully completed."

/-- A part that is tried when the first one fails, unless it was cancelled. -/
def orElse (first second : Run Unit) : Run Unit := fun s =>
  match (first s).result with
  | .ok () => first s
  | .error e =>
    if e.kind = .cancelled then first s
    else
      let o := second (first s).state
      ⟨o.result, (first s).events ++ o.events, o.state⟩

/-- `Init`. -/
def init : Run Unit :=
  match request.protocol with
  | .iso9141 => fiveBaud .iso9141
  | .iso14230 => orElse fastInit (fiveBaud .iso14230)
  | .iso15765 => canInit tables

/-- One of the support pages of `VehicleInfo`. -/
def supportPage (page : ℕ × Byte) : Run Unit := do
  let response ← sendRequest tables request kLiveData (some page.2) false
  Computation.when (!response.isEmpty) do
    log .info (formatPidPageLabel page.1 response)
    log .info ("Supported PIDs: " ++ formatSupportedPids page.1 response)
    report fun r => { r with supportedPids := r.supportedPids ++ [⟨page.1, response⟩] }
  sleep kBetweenRequests

/-- `kSupportPages`, with their numbers. -/
def kSupportPages : List (ℕ × Byte) :=
  [(0, 0x00), (1, 0x20), (2, 0x40), (3, 0x60), (4, 0x80), (5, 0xA0), (6, 0xC0)]

/-- `Item`: the field is given by how it is set. -/
structure Item where
  mode : Byte
  pid : Byte
  label : String
  set : Bytes → DtcReport → DtcReport
  alsoText : Bool

/-- `kItems`. -/
def kItems : List Item :=
  [⟨kLiveData, 0x01, "Status since DTCs cleared: ", fun v r => { r with monitorStatus := some v }, false⟩,
    ⟨kVehicleInfo, 0x01, "VIN length: ", fun v r => { r with vinLength := some v }, false⟩,
    ⟨kVehicleInfo, 0x02, "VIN: ", fun v r => { r with vin := some v }, true⟩,
    ⟨kVehicleInfo, 0x03, "CAL ID length: ", fun v r => { r with calIdLength := some v }, false⟩,
    ⟨kVehicleInfo, 0x04, "CAL ID: ", fun v r => { r with calId := some v }, true⟩,
    ⟨kVehicleInfo, 0x05, "CAL ID num length: ", fun v r => { r with cvnLength := some v }, false⟩,
    ⟨kVehicleInfo, 0x06, "CAL ID num: ", fun v r => { r with cvn := some v }, false⟩]

/-- `AsText`: each byte is a character. -/
def asText (data : Bytes) : String := String.ofList (data.map fun b => Char.ofNat b.toNat)

/-- One of the items of `VehicleInfo`. -/
def vehicleItem (item : Item) : Run Unit := do
  let response ← sendRequest tables request item.mode (some item.pid) false
  Computation.when (!response.isEmpty) do
    log .info (item.label ++ formatHex response)
    Computation.when item.alsoText (log .info (item.label ++ asText response))
    report (item.set response)
  sleep kBetweenRequests

/-- `VehicleInfo`. -/
def vehicleInfo : Run Unit := do
  log .info "Requesting vehicle info, please wait..."
  sleep kBeforeVehicleInfo
  Computation.each kSupportPages (supportPage tables request)
  Computation.each kItems (vehicleItem tables request)

/-- `List` of `ReadDtcs`. -/
structure DtcList where
  mode : Byte
  label : String
  missing : String
  set : List UInt16 → DtcReport → DtcReport

/-- The stored codes. -/
def storedList : DtcList :=
  ⟨kStoredDtcs, "Stored DTCs: ", "no stored DTC response", fun codes r => { r with stored := codes }⟩

/-- The pending codes. -/
def pendingList : DtcList :=
  ⟨kPendingDtcs, "Pending DTCs: ", "no pending DTC response", fun codes r => { r with pending := codes }⟩

/-- What `ReadDtcs` does with a list that is not empty. -/
def recordList (list : DtcList) (response : Bytes) : Run Unit := do
  log .info (list.label ++ formatHex response)
  report (list.set (decodeDtcs response))
  Computation.each (decodeDtcs response) fun code =>
    log .info ("DTC: " ++ dtcDescription tables code)
  sleep kBetweenRequests

/-- One of the lists of `ReadDtcs`. -/
def readList (list : DtcList) : Run Unit := do
  let response ← sendRequest tables request list.mode none true
  if response.isEmpty then badResponse list.missing else recordList tables list response

/-- `ReadDtcs`. -/
def readDtcs : Run Unit := do
  readList tables request storedList
  readList tables request pendingList
  log .info "Diagnostic trouble codes successfully read!"

/-- One frame after the clear request; the value says that it was acknowledged. -/
def clearStep (_ : Bool) (frame : Bytes) : FrameStep Bool :=
  let index := responseIndex request.protocol
  if frame.length ≤ index then ⟨false, true, none⟩
  else if byteAt frame index = 0x7F then
    ⟨false, false, some (nrcDescription tables (frame.drop index))⟩
  else if byteAt frame index ≠ kClearDtcs ||| 0x40 then ⟨false, false, some (formatHex frame)⟩
  else ⟨true, false, none⟩

/-- What follows the clear request. -/
def acknowledge : Run Unit := do
  let cleared ← readFrames (clearStep tables request) false
  if ¬ cleared then badResponse "clear DTCs not acknowledged"
  else do
    report fun r => { r with cleared := true }
    log .info "Diagnostic trouble codes successfully cleared!"

/-- `ClearDtcs`. -/
def clearDtcs : Run Unit := do
  readDtcs tables request
  let _ ← checked (.write (buildRequest request.protocol kCanSource [kClearDtcs]))
  acknowledge tables request

/-- The operation of the request. -/
def operation : Run Unit :=
  if request.operation = .read then readDtcs tables request else clearDtcs tables request

/-- `Body`. -/
def body : Run Unit := do
  init tables request
  vehicleInfo tables request
  operation tables request

/-- The calls that end a session. -/
def epilogue : Run Unit := do
  ignored (.setHeader .none)
  ignored .reset

/-- `RunDtcSession`, against a script of answers. -/
def runDtcSession (script : List Answer) : Outcome LinkError Event SessionState DtcReport :=
  let ran := body tables request ⟨script, {}, []⟩
  let ended := epilogue ran.state
  ⟨ran.result.map fun _ => ended.state.report, ran.events ++ ended.events, ended.state⟩

end Parts

end FastEcu.Diagnostics
