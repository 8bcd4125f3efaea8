import FastEcu.Serial.BridgeHost

/-!
# The client of the J2534 bridge

`src/platform/desktop/windows/j2534/j2534_bridge_client.cpp` once the host process runs: each function of the
API packs its arguments into a request, calls the host and unpacks the response.  The first call that fails
stops the host; after it every write is to a closed pipe and fails.

* `Op`, `Op.request`, `Op.answer` : the functions of the API, what they send and what they return.
* `call` : one call over the pipes.
* `Calls` : an application that makes one call after another; `Calls.client` : the process that it is.
* `Session` : an application that uses the API; `Session.calls` : the calls that it makes.
* `Calls.direct`, `Session.direct` : the same on the DLL itself.
-/

namespace FastEcu.Serial.Bridge

open Data

/-! ### The API -/

/-- What `p_input` points to: a list of parameters for `kJ2534SetConfig`, an array of bytes for the
initialisations. -/
structure IoctlInput where
  configs : Option (List SConfig) := none
  bytes : Option Bytes := none

/-- What is stored through `p_output`. -/
inductive IoctlOutput
  | nothing
  | bytes (stored : Bytes)
  | value (stored : UInt32)

/-- A call of a function of the API; a message or an input may be a null pointer. -/
inductive Op
  | passThruOpen (name : Option Bytes)
  | passThruClose (deviceId : UInt32)
  | passThruConnect (deviceId protocolId flags baudrate : UInt32)
  | passThruDisconnect (channelId : UInt32)
  | passThruReadMsgs (channelId timeout : UInt32)
  | passThruWriteMsgs (channelId : UInt32) (msg : Option PassThruMsg) (timeout : UInt32)
  | passThruStartPeriodicMsg (channelId : UInt32) (msg : Option PassThruMsg) (timeInterval : UInt32)
  | passThruStopPeriodicMsg (channelId msgId : UInt32)
  | passThruStartMsgFilter (channelId filterType : UInt32) (maskMsg patternMsg flowControlMsg : Option PassThruMsg)
  | passThruStopMsgFilter (channelId msgId : UInt32)
  | passThruSetProgrammingVoltage (deviceId pin voltage : UInt32)
  | passThruReadVersion (deviceId : UInt32)
  | passThruGetLastError
  | passThruIoctl (channelId ioctlId : UInt32) (input : IoctlInput) (room : Option UInt32)

/-- What a function of the API returns, and stores unless it failed before. -/
structure Answer (α : Type) where
  result : UInt32
  out : Option α

namespace Op

/-- The function of the host. -/
abbrev route : Op → Route
  | passThruOpen .. => .passThruOpen
  | passThruClose .. => .passThruClose
  | passThruConnect .. => .passThruConnect
  | passThruDisconnect .. => .passThruDisconnect
  | passThruReadMsgs .. => .passThruReadMsgs
  | passThruWriteMsgs .. => .passThruWriteMsgs
  | passThruStartPeriodicMsg .. => .passThruStartPeriodicMsg
  | passThruStopPeriodicMsg .. => .passThruStopPeriodicMsg
  | passThruStartMsgFilter .. => .passThruStartMsgFilter
  | passThruStopMsgFilter .. => .passThruStopMsgFilter
  | passThruSetProgrammingVoltage .. => .passThruSetProgrammingVoltage
  | passThruReadVersion .. => .passThruReadVersion
  | passThruGetLastError => .passThruGetLastError
  | passThruIoctl .. => .passThruIoctl

/-- What is stored through the pointers. -/
abbrev Out : Op → Type
  | passThruOpen .. => UInt32
  | passThruConnect .. => UInt32
  | passThruReadMsgs .. => PassThruMsg × UInt32
  | passThruWriteMsgs .. => UInt32
  | passThruStartPeriodicMsg .. => UInt32
  | passThruStartMsgFilter .. => UInt32
  | passThruReadVersion .. => Vector Byte 80 × Vector Byte 80 × Vector Byte 80
  | passThruGetLastError => Vector Byte 80
  | passThruIoctl .. => IoctlOutput
  | passThruClose .. => Unit
  | passThruDisconnect .. => Unit
  | passThruStopPeriodicMsg .. => Unit
  | passThruStopMsgFilter .. => Unit
  | passThruSetProgrammingVoltage .. => Unit

/-- Bytes in an array that is zero after them. -/
def padded (n : ℕ) (bytes : Bytes) : Vector Byte n := Vector.ofFn fun i => bytes.getD i 0

/-- `strncpy_s` of at most 255 characters. -/
def copyName (name : Bytes) : Vector Byte 256 := padded 256 ((name.takeWhile (· != 0)).take 255)

/-- `PackConfig`. -/
def packConfig (input : IoctlInput) (req : PassThruIoctlRequest) : Option PassThruIoctlRequest :=
  match input.configs with
  | none => none
  | some configs =>
    if configs.length > 16 then none
    else some
      { req with
        numConfigParams := UInt32.ofNat configs.length
        configParams := Vector.ofFn fun i => configs.getD i ⟨0, 0⟩ }

/-- `PackBytes`. -/
def packBytes (input : IoctlInput) (req : PassThruIoctlRequest) : Option PassThruIoctlRequest :=
  match input.bytes with
  | none => none
  | some bytes =>
    if bytes.length > 64 then none
    else some { req with inputByteCount := UInt32.ofNat bytes.length, inputBytes := padded 64 bytes }

/-- `PackIoctlInput`. -/
def packIoctlInput (input : IoctlInput) (req : PassThruIoctlRequest) : Option PassThruIoctlRequest :=
  if req.ioctlId = setConfig then packConfig input req
  else if req.ioctlId = fiveBaudInit ∨ req.ioctlId = fastInit then packBytes input req
  else some req

/-- `UnpackIoctlOutput`, for an output of so many bytes of room. -/
def unpackIoctlOutput (ioctlId : UInt32) (resp : PassThruIoctlResponse) (room : Option UInt32) : IoctlOutput :=
  match room with
  | none => .nothing
  | some room =>
    if ioctlId = fiveBaudInit ∨ ioctlId = fastInit then
      .bytes (resp.outputBytes.toList.take (min resp.outputByteCount room).toNat)
    else if ioctlId = readVbatt ∨ ioctlId = readProgVoltage then .value resp.vbatt
    else .nothing

/-- The request; there is none if an input does not fit. -/
def request : (op : Op) → Option op.route.Req
  | passThruOpen name =>
    match name with
    | none => some ⟨false, Vector.replicate 256 0⟩
    | some name => some ⟨true, copyName name⟩
  | passThruClose deviceId => some ⟨deviceId⟩
  | passThruConnect deviceId protocolId flags baudrate => some ⟨deviceId, protocolId, flags, baudrate⟩
  | passThruDisconnect channelId => some ⟨channelId⟩
  | passThruReadMsgs channelId timeout => some ⟨channelId, timeout⟩
  | passThruWriteMsgs channelId msg timeout => some ⟨channelId, timeout, msg.getD zeroMsg⟩
  | passThruStartPeriodicMsg channelId msg timeInterval => some ⟨channelId, timeInterval, msg.getD zeroMsg⟩
  | passThruStopPeriodicMsg channelId msgId => some ⟨channelId, msgId⟩
  | passThruStartMsgFilter channelId filterType maskMsg patternMsg flowControlMsg =>
    some ⟨channelId, filterType, flowControlMsg.isSome, maskMsg.getD zeroMsg, patternMsg.getD zeroMsg,
      flowControlMsg.getD zeroMsg⟩
  | passThruStopMsgFilter channelId msgId => some ⟨channelId, msgId⟩
  | passThruSetProgrammingVoltage deviceId pin voltage => some ⟨deviceId, pin, voltage⟩
  | passThruReadVersion deviceId => some ⟨deviceId⟩
  | passThruGetLastError => some ⟨0⟩
  | passThruIoctl channelId ioctlId input _ =>
    packIoctlInput input ⟨channelId, ioctlId, 0, Vector.replicate 16 ⟨0, 0⟩, 0, Vector.replicate 64 0⟩

/-- What is returned and stored when the call succeeded. -/
def unpack : (op : Op) → op.route.Resp → Answer op.Out
  | passThruOpen _, resp => ⟨resp.result, some resp.deviceId⟩
  | passThruClose _, resp => ⟨resp.result, some ()⟩
  | passThruConnect .., resp => ⟨resp.result, some resp.channelId⟩
  | passThruDisconnect _, resp => ⟨resp.result, some ()⟩
  | passThruReadMsgs .., resp => ⟨resp.result, some (resp.msg, resp.numMsgs)⟩
  | passThruWriteMsgs .., resp => ⟨resp.result, some resp.numMsgs⟩
  | passThruStartPeriodicMsg .., resp => ⟨resp.result, some resp.msgId⟩
  | passThruStopPeriodicMsg .., resp => ⟨resp.result, some ()⟩
  | passThruStartMsgFilter .., resp => ⟨resp.result, some resp.msgId⟩
  | passThruStopMsgFilter .., resp => ⟨resp.result, some ()⟩
  | passThruSetProgrammingVoltage .., resp => ⟨resp.result, some ()⟩
  | passThruReadVersion _, resp => ⟨resp.result, some (resp.apiVersion, resp.dllVersion, resp.firmwareVersion)⟩
  | passThruGetLastError, resp => ⟨resp.result, some resp.errorDescription⟩
  | passThruIoctl _ ioctlId _ room, resp => ⟨resp.result, some (unpackIoctlOutput ioctlId resp room)⟩

/-- What is returned and stored. -/
def answer (op : Op) : Option op.route.Resp → Answer op.Out
  | none => ⟨errFailed, none⟩
  | some resp => op.unpack resp

end Op

/-! ### One call -/

/-- `ReadAndValidateResponse`.  A response that is too short leaves zeros. -/
def readAndValidateResponse (r : Route) : Io (Option r.Resp) := do
  match ← readFrame r.response.size with
  | none => return none
  | some (header, payload) =>
    if header.function = r.function then
      return some (r.response.decode (payload ++ List.replicate (r.response.size - payload.length) 0))
    else return none

/-- `J2534BridgeClient::Call` up to the point where it may stop the host. -/
def call (r : Route) (payload : Bytes) : Io (Option r.Resp) := do
  let written ← writeFrame r.function payload
  if written then readAndValidateResponse r
  else return none

/-! ### Applications -/

/-- An application that makes one call after another, each with the bytes of a request, depending on the
responses; it ends with a value. -/
inductive Calls (β : Type) : Type
  | ret (b : β)
  | call (r : Route) (payload : Bytes) (fits : payload.length < 4294967296) (next : Option r.Resp → Calls β)

namespace Calls

variable {β : Type}

/-- The application when every call fails. -/
def offline : Calls β → β
  | ret b => b
  | call _ _ _ next => (next none).offline

/-- The process of the client.  `Stop` writes the frame that ends the host and closes the pipes. -/
def client : Calls β → Io (Loop β)
  | ret b => do
    let _ ← writeFrame shutdown []
    return .exit b
  | call r payload _ next => do
    match ← Bridge.call r payload with
    | some resp => (next (some resp)).client
    | none => do
      let _ ← writeFrame shutdown []
      return .exit (next none).offline

variable {σ : Type} (api : VendorApi σ)

/-- The response to a request, and the state of the DLL after it. -/
def respond (r : Route) (payload : Bytes) (v : σ) : r.Resp × σ :=
  if payload.length = r.request.size then api.call r (r.request.decode payload) v
  else (failedResponse r, v)

/-- The application without processes and pipes. -/
def direct : Calls β → σ → β × σ
  | ret b, v => (b, v)
  | call r payload _ next, v =>
    (next (some (respond api r payload v).1)).direct (respond api r payload v).2

/-- The application when all calls after so many fail. -/
def cut : ℕ → Calls β → σ → β
  | 0, calls, _ => calls.offline
  | _ + 1, ret b, _ => b
  | n + 1, call r payload _ next, v =>
    (next (some (respond api r payload v).1)).cut n (respond api r payload v).2

end Calls

/-- An application that uses the API. -/
inductive Session (β : Type) : Type
  | ret (b : β)
  | call (op : Op) (next : Answer op.Out → Session β)

theorem Route.request_size_lt (r : Route) : r.request.size < 4294967296 := by
  cases r <;> decide

namespace Session

variable {β : Type}

/-- The calls of the application.  An input that does not fit is refused without one. -/
def calls : Session β → Calls β
  | ret b => .ret b
  | call op next =>
    match op.request with
    | none => (next (op.answer none)).calls
    | some req =>
      .call op.route (op.route.request.encode req)
        (by rw [op.route.request.length_encode]; exact op.route.request_size_lt)
        fun resp => (next (op.answer resp)).calls

variable {σ : Type} (api : VendorApi σ)

/-- The application on the DLL itself. -/
def direct : Session β → σ → β × σ
  | ret b, v => (b, v)
  | call op next, v =>
    match op.request with
    | none => (next (op.answer none)).direct v
    | some req =>
      (next (op.answer (some (api.call op.route req v).1))).direct (api.call op.route req v).2

/-- The application on the DLL itself when all calls after so many fail. -/
def cut : ℕ → Session β → σ → β
  | _, ret b, _ => b
  | n, call op next, v =>
    match op.request with
    | none => (next (op.answer none)).cut n v
    | some req =>
      match n with
      | 0 => (next (op.answer none)).cut 0 v
      | n + 1 =>
        (next (op.answer (some (api.call op.route req v).1))).cut n (api.call op.route req v).2

end Session

end FastEcu.Serial.Bridge
