import FastEcu.Data.Layout
import FastEcu.Data.PipeRuns

/-!
# The frames of the J2534 bridge

`src/platform/desktop/windows/j2534/j2534_bridge_protocol.h` and `.cpp`: the requests and responses that the
client and the host process exchange, as they lie in memory, and the frames that carry them.  `unsigned long`
and `long` have 32 bits in both processes.

* `Route` : the functions that the host serves; `Route.Req`, `Route.Resp` : their structures.
* `Route.request`, `Route.response` : the layouts of these structures.
* `writeFrame`, `readFrameHeader`, `readFramePayload`, `readFrame` : the frames.
-/

namespace FastEcu.Serial.Bridge

open Data

/-- `PassThruMsg` with all its fields. -/
structure PassThruMsg where
  protocolId : UInt32
  rxStatus : UInt32
  txFlags : UInt32
  timestamp : UInt32
  dataSize : UInt32
  extraDataIndex : UInt32
  data : Vector Byte 4128

/-- `SCONFIG`. -/
structure SConfig where
  parameter : UInt32
  value : UInt32

/-- The functions that the host serves. -/
inductive Route
  | passThruOpen
  | passThruClose
  | passThruConnect
  | passThruDisconnect
  | passThruReadMsgs
  | passThruWriteMsgs
  | passThruStartPeriodicMsg
  | passThruStopPeriodicMsg
  | passThruStartMsgFilter
  | passThruStopMsgFilter
  | passThruSetProgrammingVoltage
  | passThruReadVersion
  | passThruGetLastError
  | passThruIoctl
deriving DecidableEq

/-! ### Requests -/

structure PassThruOpenRequest where
  hasName : Bool
  name : Vector Byte 256

structure PassThruCloseRequest where
  deviceId : UInt32

structure PassThruConnectRequest where
  deviceId : UInt32
  protocolId : UInt32
  flags : UInt32
  baudrate : UInt32

structure PassThruDisconnectRequest where
  channelId : UInt32

structure PassThruReadMsgsRequest where
  channelId : UInt32
  timeout : UInt32

structure PassThruWriteMsgsRequest where
  channelId : UInt32
  timeout : UInt32
  msg : PassThruMsg

structure PassThruStartPeriodicMsgRequest where
  channelId : UInt32
  timeInterval : UInt32
  msg : PassThruMsg

structure PassThruStopPeriodicMsgRequest where
  channelId : UInt32
  msgId : UInt32

structure PassThruStartMsgFilterRequest where
  channelId : UInt32
  filterType : UInt32
  hasFlowControlMsg : Bool
  maskMsg : PassThruMsg
  patternMsg : PassThruMsg
  flowControlMsg : PassThruMsg

structure PassThruStopMsgFilterRequest where
  channelId : UInt32
  msgId : UInt32

structure PassThruSetProgrammingVoltageRequest where
  deviceId : UInt32
  pin : UInt32
  voltage : UInt32

structure PassThruReadVersionRequest where
  deviceId : UInt32

structure PassThruGetLastErrorRequest where
  unused : Byte

structure PassThruIoctlRequest where
  channelId : UInt32
  ioctlId : UInt32
  numConfigParams : UInt32
  configParams : Vector SConfig 16
  inputByteCount : UInt32
  inputBytes : Vector Byte 64

/-! ### Responses -/

structure PassThruOpenResponse where
  result : UInt32
  deviceId : UInt32

/-- The responses that hold a result only. -/
structure ResultResponse where
  result : UInt32

abbrev PassThruCloseResponse := ResultResponse

structure PassThruConnectResponse where
  result : UInt32
  channelId : UInt32

abbrev PassThruDisconnectResponse := ResultResponse

structure PassThruReadMsgsResponse where
  result : UInt32
  numMsgs : UInt32
  msg : PassThruMsg

structure PassThruWriteMsgsResponse where
  result : UInt32
  numMsgs : UInt32

structure PassThruStartPeriodicMsgResponse where
  result : UInt32
  msgId : UInt32

abbrev PassThruStopPeriodicMsgResponse := ResultResponse

structure PassThruStartMsgFilterResponse where
  result : UInt32
  msgId : UInt32

abbrev PassThruStopMsgFilterResponse := ResultResponse

abbrev PassThruSetProgrammingVoltageResponse := ResultResponse

structure PassThruReadVersionResponse where
  result : UInt32
  apiVersion : Vector Byte 80
  dllVersion : Vector Byte 80
  firmwareVersion : Vector Byte 80

structure PassThruGetLastErrorResponse where
  result : UInt32
  errorDescription : Vector Byte 80

structure PassThruIoctlResponse where
  result : UInt32
  outputByteCount : UInt32
  outputBytes : Vector Byte 64
  vbatt : UInt32

/-! ### Layouts -/

section Layouts

open Layout

/-- The layout of a `PassThruMsg`. -/
def msgLayout : Layout PassThruMsg :=
  (word.pair (word.pair (word.pair (word.pair (word.pair (word.pair (byte.array 4128))))))).via
    (fun m => (m.protocolId, m.rxStatus, m.txFlags, m.timestamp, m.dataSize, m.extraDataIndex, m.data))
    (fun (a, b, c, d, e, f, g) => ⟨a, b, c, d, e, f, g⟩) fun _ => rfl

/-- The layout of an `SCONFIG`. -/
def configLayout : Layout SConfig :=
  (word.pair word).via (fun c => (c.parameter, c.value)) (fun (a, b) => ⟨a, b⟩) fun _ => rfl

/-- `Req`, for each function. -/
abbrev Route.Req : Route → Type
  | passThruOpen => PassThruOpenRequest
  | passThruClose => PassThruCloseRequest
  | passThruConnect => PassThruConnectRequest
  | passThruDisconnect => PassThruDisconnectRequest
  | passThruReadMsgs => PassThruReadMsgsRequest
  | passThruWriteMsgs => PassThruWriteMsgsRequest
  | passThruStartPeriodicMsg => PassThruStartPeriodicMsgRequest
  | passThruStopPeriodicMsg => PassThruStopPeriodicMsgRequest
  | passThruStartMsgFilter => PassThruStartMsgFilterRequest
  | passThruStopMsgFilter => PassThruStopMsgFilterRequest
  | passThruSetProgrammingVoltage => PassThruSetProgrammingVoltageRequest
  | passThruReadVersion => PassThruReadVersionRequest
  | passThruGetLastError => PassThruGetLastErrorRequest
  | passThruIoctl => PassThruIoctlRequest

/-- `Resp`, for each function. -/
abbrev Route.Resp : Route → Type
  | passThruOpen => PassThruOpenResponse
  | passThruClose => PassThruCloseResponse
  | passThruConnect => PassThruConnectResponse
  | passThruDisconnect => PassThruDisconnectResponse
  | passThruReadMsgs => PassThruReadMsgsResponse
  | passThruWriteMsgs => PassThruWriteMsgsResponse
  | passThruStartPeriodicMsg => PassThruStartPeriodicMsgResponse
  | passThruStopPeriodicMsg => PassThruStopPeriodicMsgResponse
  | passThruStartMsgFilter => PassThruStartMsgFilterResponse
  | passThruStopMsgFilter => PassThruStopMsgFilterResponse
  | passThruSetProgrammingVoltage => PassThruSetProgrammingVoltageResponse
  | passThruReadVersion => PassThruReadVersionResponse
  | passThruGetLastError => PassThruGetLastErrorResponse
  | passThruIoctl => PassThruIoctlResponse

/-- The layouts of the requests.  A flag before a word is followed by three bytes of padding. -/
def Route.request : (r : Route) → Layout r.Req
  | passThruOpen => (flag.pair (byte.array 256)).via (fun r => (r.hasName, r.name))
      (fun (a, b) => ⟨a, b⟩) fun _ => rfl
  | passThruClose => word.via (·.deviceId) (⟨·⟩) fun _ => rfl
  | passThruConnect => (word.pair (word.pair (word.pair word))).via
      (fun r => (r.deviceId, r.protocolId, r.flags, r.baudrate)) (fun (a, b, c, d) => ⟨a, b, c, d⟩) fun _ => rfl
  | passThruDisconnect => word.via (·.channelId) (⟨·⟩) fun _ => rfl
  | passThruReadMsgs => (word.pair word).via (fun r => (r.channelId, r.timeout))
      (fun (a, b) => ⟨a, b⟩) fun _ => rfl
  | passThruWriteMsgs => (word.pair (word.pair msgLayout)).via (fun r => (r.channelId, r.timeout, r.msg))
      (fun (a, b, c) => ⟨a, b, c⟩) fun _ => rfl
  | passThruStartPeriodicMsg => (word.pair (word.pair msgLayout)).via
      (fun r => (r.channelId, r.timeInterval, r.msg)) (fun (a, b, c) => ⟨a, b, c⟩) fun _ => rfl
  | passThruStopPeriodicMsg => (word.pair word).via (fun r => (r.channelId, r.msgId))
      (fun (a, b) => ⟨a, b⟩) fun _ => rfl
  | passThruStartMsgFilter =>
    (word.pair (word.pair (flag.pair ((pad 3).pair (msgLayout.pair (msgLayout.pair msgLayout)))))).via
      (fun r => (r.channelId, r.filterType, r.hasFlowControlMsg, (), r.maskMsg, r.patternMsg, r.flowControlMsg))
      (fun (a, b, c, _, d, e, f) => ⟨a, b, c, d, e, f⟩) fun _ => rfl
  | passThruStopMsgFilter => (word.pair word).via (fun r => (r.channelId, r.msgId))
      (fun (a, b) => ⟨a, b⟩) fun _ => rfl
  | passThruSetProgrammingVoltage => (word.pair (word.pair word)).via
      (fun r => (r.deviceId, r.pin, r.voltage)) (fun (a, b, c) => ⟨a, b, c⟩) fun _ => rfl
  | passThruReadVersion => word.via (·.deviceId) (⟨·⟩) fun _ => rfl
  | passThruGetLastError => byte.via (·.unused) (⟨·⟩) fun _ => rfl
  | passThruIoctl =>
    (word.pair (word.pair (word.pair ((configLayout.array 16).pair (word.pair (byte.array 64)))))).via
      (fun r => (r.channelId, r.ioctlId, r.numConfigParams, r.configParams, r.inputByteCount, r.inputBytes))
      (fun (a, b, c, d, e, f) => ⟨a, b, c, d, e, f⟩) fun _ => rfl

/-- The layout of a response with a result only. -/
def resultLayout : Layout ResultResponse := word.via (·.result) (⟨·⟩) fun _ => rfl

/-- The layouts of the responses. -/
def Route.response : (r : Route) → Layout r.Resp
  | passThruOpen => (word.pair word).via (fun r => (r.result, r.deviceId)) (fun (a, b) => ⟨a, b⟩) fun _ => rfl
  | passThruClose => resultLayout
  | passThruConnect => (word.pair word).via (fun r => (r.result, r.channelId))
      (fun (a, b) => ⟨a, b⟩) fun _ => rfl
  | passThruDisconnect => resultLayout
  | passThruReadMsgs => (word.pair (word.pair msgLayout)).via (fun r => (r.result, r.numMsgs, r.msg))
      (fun (a, b, c) => ⟨a, b, c⟩) fun _ => rfl
  | passThruWriteMsgs => (word.pair word).via (fun r => (r.result, r.numMsgs))
      (fun (a, b) => ⟨a, b⟩) fun _ => rfl
  | passThruStartPeriodicMsg => (word.pair word).via (fun r => (r.result, r.msgId))
      (fun (a, b) => ⟨a, b⟩) fun _ => rfl
  | passThruStopPeriodicMsg => resultLayout
  | passThruStartMsgFilter => (word.pair word).via (fun r => (r.result, r.msgId))
      (fun (a, b) => ⟨a, b⟩) fun _ => rfl
  | passThruStopMsgFilter => resultLayout
  | passThruSetProgrammingVoltage => resultLayout
  | passThruReadVersion => (word.pair ((byte.array 80).pair ((byte.array 80).pair (byte.array 80)))).via
      (fun r => (r.result, r.apiVersion, r.dllVersion, r.firmwareVersion))
      (fun (a, b, c, d) => ⟨a, b, c, d⟩) fun _ => rfl
  | passThruGetLastError => (word.pair (byte.array 80)).via (fun r => (r.result, r.errorDescription))
      (fun (a, b) => ⟨a, b⟩) fun _ => rfl
  | passThruIoctl => (word.pair (word.pair ((byte.array 64).pair word))).via
      (fun r => (r.result, r.outputByteCount, r.outputBytes, r.vbatt))
      (fun (a, b, c, d) => ⟨a, b, c, d⟩) fun _ => rfl

end Layouts

/-! ### Frames -/

/-- What a process of the bridge does on its pipes. -/
abbrev Io := Process Byte

/-- `FrameHeader`, with any byte for the function. -/
structure FrameHeader where
  function : Byte
  payloadSize : UInt32

/-- The layout of a `FrameHeader`. -/
def FrameHeader.layout : Layout FrameHeader :=
  (Layout.byte.pair ((Layout.pad 3).pair Layout.word)).via (fun h => (h.function, (), h.payloadSize))
    (fun (a, _, b) => ⟨a, b⟩) fun _ => rfl

/-- `Function::kShutdown`. -/
def shutdown : Byte := 255

/-- The value of `Function` for each function of the host. -/
def Route.function : Route → Byte
  | passThruOpen => 1
  | passThruClose => 2
  | passThruConnect => 3
  | passThruDisconnect => 4
  | passThruReadMsgs => 5
  | passThruWriteMsgs => 6
  | passThruStartPeriodicMsg => 7
  | passThruStopPeriodicMsg => 8
  | passThruStartMsgFilter => 9
  | passThruStopMsgFilter => 10
  | passThruSetProgrammingVoltage => 11
  | passThruReadVersion => 12
  | passThruGetLastError => 13
  | passThruIoctl => 14

/-- The header of a frame. -/
def headerBytes (function : Byte) (payload : Bytes) : Bytes :=
  FrameHeader.layout.encode ⟨function, UInt32.ofNat payload.length⟩

/-- `WriteFrame`. -/
def writeFrame (function : Byte) (payload : Bytes) : Io Bool := do
  let written ← Process.send (headerBytes function payload)
  if written then
    if payload.length = 0 then return true
    else Process.send payload
  else return false

/-- `ReadFrameHeader`. -/
def readFrameHeader : Io (Option FrameHeader) := do
  let bytes ← Process.receive FrameHeader.layout.size
  return bytes.map FrameHeader.layout.decode

/-- `ReadFramePayload`. -/
def readFramePayload (payloadSize : ℕ) : Io (Option Bytes) :=
  if payloadSize = 0 then return some []
  else Process.receive payloadSize

/-- `ReadFrame`. -/
def readFrame (payloadCapacity : ℕ) : Io (Option (FrameHeader × Bytes)) := do
  match ← readFrameHeader with
  | none => return none
  | some header =>
    if header.payloadSize.toNat > payloadCapacity then return none
    else
      let payload ← readFramePayload header.payloadSize.toNat
      return payload.map fun payload => (header, payload)

section Frames

open Process

variable {α : Type} {function : Byte} {payload : Bytes}

theorem writeFrame_bind (k : Bool → Io α) :
    (writeFrame function payload >>= k) =
      sent (headerBytes function payload) fun written =>
        if written then sent payload k else k false := by
  rw [writeFrame, bind_assoc', send_bind]
  congr 1
  funext written
  cases written with
  | false => rfl
  | true =>
    cases payload with
    | nil => rfl
    | cons b payload => rfl

theorem readFrameHeader_bind (k : Option FrameHeader → Io α) :
    (readFrameHeader >>= k) =
      received [] FrameHeader.layout.size fun bytes => k (bytes.map FrameHeader.layout.decode) := by
  rw [readFrameHeader, bind_assoc', receive_bind]
  rfl

theorem readFramePayload_bind (payloadSize : ℕ) (k : Option Bytes → Io α) :
    (readFramePayload payloadSize >>= k) = received [] payloadSize k := by
  cases payloadSize with
  | zero => rfl
  | succ payloadSize => rfl

theorem length_headerBytes : (headerBytes function payload).length = FrameHeader.layout.size :=
  FrameHeader.layout.length_encode _

theorem decode_headerBytes :
    FrameHeader.layout.decode (headerBytes function payload) = ⟨function, UInt32.ofNat payload.length⟩ :=
  FrameHeader.layout.decode_encode_self _

theorem headerBytes_ne_nil : headerBytes function payload ≠ [] := by
  intro h
  have hlength : (headerBytes function payload).length = 8 := length_headerBytes
  rw [h] at hlength
  exact absurd hlength (by decide)

end Frames

end FastEcu.Serial.Bridge
