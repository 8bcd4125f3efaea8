import FastEcu.Serial.BridgeProtocol

/-!
# The host of the J2534 bridge

`src/platform/desktop/windows/j2534/j2534_bridge_host/main.cpp` once the DLL of the vendor is loaded: the loop
that reads requests, calls the DLL and writes the responses.  The DLL is a parameter: what its functions
return, and store through the pointers they get, from a state of its own.

* `VendorApi` : the functions of the DLL.
* `VendorApi.call` : what the host calls for a request.
* `serve`, `runLoop` : the loop.
-/

namespace FastEcu.Serial.Bridge

open Data

/-- `kJ2534ErrFailed`. -/
def errFailed : UInt32 := 0x07

/-- `kJ2534ErrInvalidIoctlId`. -/
def errInvalidIoctlId : UInt32 := 0x0F

/-! ### The ids of `PassThruIoctl` -/

def setConfig : UInt32 := 0x02
def readVbatt : UInt32 := 0x03
def fiveBaudInit : UInt32 := 0x04
def fastInit : UInt32 := 0x05
def clearTxBuffer : UInt32 := 0x07
def clearRxBuffer : UInt32 := 0x08
def clearPeriodicMsgs : UInt32 := 0x09
def clearMsgFilters : UInt32 := 0x0A
def readProgVoltage : UInt32 := 0x0E

/-- The functions of the DLL.  What a pointer points to is passed and returned; `PassThruIoctl` is here once
for each kind of its pointers: a list of parameters, two arrays of bytes, a word to store, none. -/
structure VendorApi (σ : Type) where
  passThruOpen : Option (Vector Byte 256) → UInt32 → StateM σ (UInt32 × UInt32)
  passThruClose : UInt32 → StateM σ UInt32
  passThruConnect : UInt32 → UInt32 → UInt32 → UInt32 → UInt32 → StateM σ (UInt32 × UInt32)
  passThruDisconnect : UInt32 → StateM σ UInt32
  passThruReadMsgs : UInt32 → PassThruMsg → UInt32 → UInt32 → StateM σ (UInt32 × PassThruMsg × UInt32)
  passThruWriteMsgs : UInt32 → PassThruMsg → UInt32 → UInt32 → StateM σ (UInt32 × UInt32)
  passThruStartPeriodicMsg : UInt32 → PassThruMsg → UInt32 → UInt32 → StateM σ (UInt32 × UInt32)
  passThruStopPeriodicMsg : UInt32 → UInt32 → StateM σ UInt32
  passThruStartMsgFilter : UInt32 → UInt32 → PassThruMsg → PassThruMsg → Option PassThruMsg → UInt32 →
    StateM σ (UInt32 × UInt32)
  passThruStopMsgFilter : UInt32 → UInt32 → StateM σ UInt32
  passThruSetProgrammingVoltage : UInt32 → UInt32 → UInt32 → StateM σ UInt32
  passThruReadVersion : UInt32 → Vector Byte 80 → Vector Byte 80 → Vector Byte 80 →
    StateM σ (UInt32 × Vector Byte 80 × Vector Byte 80 × Vector Byte 80)
  passThruGetLastError : Vector Byte 80 → StateM σ (UInt32 × Vector Byte 80)
  ioctlConfig : UInt32 → UInt32 → UInt32 → Vector SConfig 16 → StateM σ UInt32
  ioctlBytes : UInt32 → UInt32 → UInt32 → Vector Byte 64 → UInt32 → Vector Byte 64 →
    StateM σ (UInt32 × UInt32 × Vector Byte 64)
  ioctlValue : UInt32 → UInt32 → UInt32 → StateM σ (UInt32 × UInt32)
  ioctlPlain : UInt32 → UInt32 → StateM σ UInt32

/-- A message of zeros. -/
def zeroMsg : PassThruMsg := ⟨0, 0, 0, 0, 0, 0, Vector.replicate 4128 0⟩

namespace VendorApi

variable {σ : Type} (api : VendorApi σ)

/-- `CallOpen`. -/
def callOpen (req : PassThruOpenRequest) : StateM σ PassThruOpenResponse := do
  let (result, deviceId) ← api.passThruOpen (if req.hasName then some req.name else none) 0
  return { result, deviceId }

/-- `CallClose`. -/
def callClose (req : PassThruCloseRequest) : StateM σ PassThruCloseResponse := do
  return { result := ← api.passThruClose req.deviceId }

/-- `CallConnect`. -/
def callConnect (req : PassThruConnectRequest) : StateM σ PassThruConnectResponse := do
  let (result, channelId) ← api.passThruConnect req.deviceId req.protocolId req.flags req.baudrate 0
  return { result, channelId }

/-- `CallDisconnect`. -/
def callDisconnect (req : PassThruDisconnectRequest) : StateM σ PassThruDisconnectResponse := do
  return { result := ← api.passThruDisconnect req.channelId }

/-- `CallReadMsgs`. -/
def callReadMsgs (req : PassThruReadMsgsRequest) : StateM σ PassThruReadMsgsResponse := do
  let (result, msg, numMsgs) ← api.passThruReadMsgs req.channelId zeroMsg 1 req.timeout
  return { result, numMsgs, msg }

/-- `CallWriteMsgs`. -/
def callWriteMsgs (req : PassThruWriteMsgsRequest) : StateM σ PassThruWriteMsgsResponse := do
  let (result, numMsgs) ← api.passThruWriteMsgs req.channelId req.msg 1 req.timeout
  return { result, numMsgs }

/-- `CallStartPeriodicMsg`. -/
def callStartPeriodicMsg (req : PassThruStartPeriodicMsgRequest) :
    StateM σ PassThruStartPeriodicMsgResponse := do
  let (result, msgId) ← api.passThruStartPeriodicMsg req.channelId req.msg 0 req.timeInterval
  return { result, msgId }

/-- `CallStopPeriodicMsg`. -/
def callStopPeriodicMsg (req : PassThruStopPeriodicMsgRequest) : StateM σ PassThruStopPeriodicMsgResponse := do
  return { result := ← api.passThruStopPeriodicMsg req.channelId req.msgId }

/-- `CallStartMsgFilter`. -/
def callStartMsgFilter (req : PassThruStartMsgFilterRequest) : StateM σ PassThruStartMsgFilterResponse := do
  let (result, msgId) ← api.passThruStartMsgFilter req.channelId req.filterType req.maskMsg req.patternMsg
    (if req.hasFlowControlMsg then some req.flowControlMsg else none) 0
  return { result, msgId }

/-- `CallStopMsgFilter`. -/
def callStopMsgFilter (req : PassThruStopMsgFilterRequest) : StateM σ PassThruStopMsgFilterResponse := do
  return { result := ← api.passThruStopMsgFilter req.channelId req.msgId }

/-- `CallSetProgrammingVoltage`. -/
def callSetProgrammingVoltage (req : PassThruSetProgrammingVoltageRequest) :
    StateM σ PassThruSetProgrammingVoltageResponse := do
  return { result := ← api.passThruSetProgrammingVoltage req.deviceId req.pin req.voltage }

/-- `CallReadVersion`. -/
def callReadVersion (req : PassThruReadVersionRequest) : StateM σ PassThruReadVersionResponse := do
  let zeros := Vector.replicate 80 0
  let (result, apiVersion, dllVersion, firmwareVersion) ←
    api.passThruReadVersion req.deviceId zeros zeros zeros
  return { result, apiVersion, dllVersion, firmwareVersion }

/-- `CallGetLastError`. -/
def callGetLastError (_req : PassThruGetLastErrorRequest) : StateM σ PassThruGetLastErrorResponse := do
  let (result, errorDescription) ← api.passThruGetLastError (Vector.replicate 80 0)
  return { result, errorDescription }

/-- `CallIoctl`.  Whatever the call does not store is zero. -/
def callIoctl (req : PassThruIoctlRequest) : StateM σ PassThruIoctlResponse := do
  let zeros := Vector.replicate 64 0
  if req.ioctlId = setConfig then
    let result ← api.ioctlConfig req.channelId req.ioctlId req.numConfigParams req.configParams
    return ⟨result, 0, zeros, 0⟩
  else if req.ioctlId = fiveBaudInit ∨ req.ioctlId = fastInit then
    let (result, count, bytes) ←
      api.ioctlBytes req.channelId req.ioctlId req.inputByteCount req.inputBytes 64 zeros
    return ⟨result, count, bytes, 0⟩
  else if req.ioctlId = readVbatt ∨ req.ioctlId = readProgVoltage then
    let (result, vbatt) ← api.ioctlValue req.channelId req.ioctlId 0
    return ⟨result, 0, zeros, vbatt⟩
  else if req.ioctlId = clearRxBuffer ∨ req.ioctlId = clearTxBuffer ∨ req.ioctlId = clearPeriodicMsgs ∨
      req.ioctlId = clearMsgFilters then
    let result ← api.ioctlPlain req.channelId req.ioctlId
    return ⟨result, 0, zeros, 0⟩
  else
    return ⟨errInvalidIoctlId, 0, zeros, 0⟩

/-- The `Call` of a route. -/
def call : (r : Route) → r.Req → StateM σ r.Resp
  | .passThruOpen => api.callOpen
  | .passThruClose => api.callClose
  | .passThruConnect => api.callConnect
  | .passThruDisconnect => api.callDisconnect
  | .passThruReadMsgs => api.callReadMsgs
  | .passThruWriteMsgs => api.callWriteMsgs
  | .passThruStartPeriodicMsg => api.callStartPeriodicMsg
  | .passThruStopPeriodicMsg => api.callStopPeriodicMsg
  | .passThruStartMsgFilter => api.callStartMsgFilter
  | .passThruStopMsgFilter => api.callStopMsgFilter
  | .passThruSetProgrammingVoltage => api.callSetProgrammingVoltage
  | .passThruReadVersion => api.callReadVersion
  | .passThruGetLastError => api.callGetLastError
  | .passThruIoctl => api.callIoctl

end VendorApi

/-- A response of zeros with the result `kJ2534ErrFailed`. -/
def failedResponse : (r : Route) → r.Resp
  | .passThruOpen => ⟨errFailed, 0⟩
  | .passThruClose => ⟨errFailed⟩
  | .passThruConnect => ⟨errFailed, 0⟩
  | .passThruDisconnect => ⟨errFailed⟩
  | .passThruReadMsgs => ⟨errFailed, 0, zeroMsg⟩
  | .passThruWriteMsgs => ⟨errFailed, 0⟩
  | .passThruStartPeriodicMsg => ⟨errFailed, 0⟩
  | .passThruStopPeriodicMsg => ⟨errFailed⟩
  | .passThruStartMsgFilter => ⟨errFailed, 0⟩
  | .passThruStopMsgFilter => ⟨errFailed⟩
  | .passThruSetProgrammingVoltage => ⟨errFailed⟩
  | .passThruReadVersion => ⟨errFailed, Vector.replicate 80 0, Vector.replicate 80 0, Vector.replicate 80 0⟩
  | .passThruGetLastError => ⟨errFailed, Vector.replicate 80 0⟩
  | .passThruIoctl => ⟨errFailed, 0, Vector.replicate 64 0, 0⟩

/-- `DrainPayload`. -/
def drainPayload (size : ℕ) : Io Bool := do
  if size = 0 then return true
  else
    let payload ← readFramePayload size
    return payload.isSome

/-- `ReadTypedRequest`, which answers a request of another size itself. -/
def readTypedRequest (r : Route) (header : FrameHeader) : Io (Option r.Req) := do
  if header.payloadSize.toNat ≠ r.request.size then
    let _ ← drainPayload header.payloadSize.toNat
    let _ ← writeFrame header.function (r.response.encode (failedResponse r))
    return none
  else
    let payload ← readFramePayload r.request.size
    return payload.map r.request.decode

section Host

variable {σ : Type} (api : VendorApi σ)

/-- `Serve`, from a state of the DLL to the next one. -/
def serve (r : Route) (header : FrameHeader) (v : σ) : Io σ := do
  match ← readTypedRequest r header with
  | none => return v
  | some req =>
    let (resp, v') := api.call r req v
    let _ ← writeFrame header.function (r.response.encode resp)
    return v'

/-- `kRoutes`. -/
def routes : List Route :=
  [.passThruOpen, .passThruClose, .passThruConnect, .passThruDisconnect, .passThruReadMsgs,
    .passThruWriteMsgs, .passThruStartPeriodicMsg, .passThruStopPeriodicMsg, .passThruStartMsgFilter,
    .passThruStopMsgFilter, .passThruSetProgrammingVoltage, .passThruReadVersion, .passThruGetLastError,
    .passThruIoctl]

/-- One turn of `RunLoop`. -/
def runLoop (v : σ) : Io (Loop σ) := do
  match ← readFrameHeader with
  | none => return .exit v
  | some header =>
    if header.function = shutdown then return .exit v
    else
      match routes.find? fun r => r.function == header.function with
      | none => return .again v
      | some r =>
        let v' ← serve api r header v
        return .again v'

end Host

theorem find_function (r : Route) : (routes.find? fun r' => r'.function == r.function) = some r := by
  cases r <;> rfl

theorem function_ne_shutdown (r : Route) : r.function ≠ shutdown := by
  cases r <;> decide

end FastEcu.Serial.Bridge
