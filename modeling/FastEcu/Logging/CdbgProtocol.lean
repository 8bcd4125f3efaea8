import FastEcu.Bytes.Words
import FastEcu.Data.Script
import FastEcu.Logging.UseCase

/-!
# The CDBG logging protocol

`CdbgLoggingProtocol` (`src/backend/logging/protocols/portable_cdbg_logging_protocol.cpp`) over
`CdbgLogDriver` (`src/backend/protocol/mitsu_colt_can_cdbg_driver.cpp`) and its frames
(`src/algorithms/protocol/colt/mitsu_colt_can_cdbg_protocol.cpp`): the ECU is told which values go into
which frame, and sends the frames with their index from then on.

* `CdbgLogDriver`, `startFreeFormLog`, `pollOnce` : the driver.
* `CdbgLoggingProtocol`, `start`, `poll` : the protocol, whose channels the values are assigned to.
* `Run` : the protocol after a sequence of calls, with what was sent.
* `EcuLog` : what the ECU makes of the commands.
-/

namespace FastEcu.Logging.Cdbg

open Calibration (Error ErrorKind invalidConfig)
open Data Computation

/-! ### Commands -/

/-- `BuildInitFrame`. -/
def buildInitFrame : Bytes := [1, 1, 0, 0, 0, 0, 0, 0]

/-- `BuildSecuritySeedRequestFrame`. -/
def buildSecuritySeedRequestFrame : Bytes := [18, 0, 2, 0, 0, 0, 0, 0]

/-- One byte of the seed in the first loop of `SeedToKey`. -/
def scrambled (x : Byte) : Byte :=
  let step : Byte :=
    if x &&& 0x03 = 0 then 145
    else if x &&& 0x03 = 1 then 24
    else if x &&& 0x03 = 2 then 211
    else 2
  ((x + step) <<< 3) ||| ((x + step) >>> 5)

/-- `SeedToKey`. -/
def seedToKey (seed : UInt32) : UInt32 :=
  let data := (beBytes seed).map scrambled
  let parity := (data.map fun b => (b &&& 1).toNat).sum
  let order : List ℕ :=
    match parity with
    | 0 => [1, 3, 2, 0]
    | 1 => [3, 2, 0, 1]
    | 2 => [1, 2, 3, 0]
    | 3 => [1, 0, 2, 3]
    | _ => [2, 0, 1, 3]
  let n := order.map fun i => (byteAt data i).toNat
  let word₀ := UInt16.ofNat ((n.getD 0 0 * 256 + n.getD 1 0) * 3 + n.getD 3 0 * 8)
  let word₁ := UInt16.ofNat ((n.getD 2 0 * 256 + n.getD 3 0) * 5 + n.getD 1 0 * 8)
  ((word₀ >>> 8).toUInt32 <<< 24) ||| ((word₀ &&& 0xFF).toUInt32 <<< 16) |||
    ((word₁ >>> 8).toUInt32 <<< 8) ||| (word₁ &&& 0xFF).toUInt32

/-- `ExtractSeed`. -/
def extractSeed (reply : Bytes) : UInt32 := if reply.length < 8 then 0 else readU32Be reply 4

/-- `BuildSecurityKeyFrame`. -/
def buildSecurityKeyFrame (key : UInt32) : Bytes := [19, 0] ++ beBytes key ++ [0, 0]

/-- `SecurityGranted`. -/
def securityGranted (reply : Bytes) : Bool := if reply.length < 4 then false else byteAt reply 3 != 0

/-- `BuildLogResetFrame`. -/
def buildLogResetFrame (logInstance : Byte) : Bytes := [20, 0, logInstance, 0, 0, 0, 0x06, 0x31]

/-- `BuildLogStartFrame`. -/
def buildLogStartFrame (logInstance frameCount : Byte) (intervalMs : UInt32) : Bytes :=
  let unitFlag : Byte := if intervalMs > 65535 then 1 else 0
  let encoded : UInt16 := if intervalMs > 65535 then (intervalMs / 10).toUInt16 else intervalMs.toUInt16
  [6, 0x00, 0x01, logInstance, frameCount, unitFlag] ++ beBytes16 encoded

/-- The command that selects an item of a frame. -/
def selectItem (logInstance frameIndex item : Byte) : Bytes :=
  [21, 0, logInstance, frameIndex, item, 0, 0, 0]

/-- The command that sets the pointer of the item that is selected. -/
def setPointer (channel : CdbgChannel) : Bytes := [22, 0x00, channel.size, 0x00] ++ beBytes channel.pointer

/-- The loop of `BuildFrameInitFrames`, from an item. -/
def initFramesFrom (logInstance frameIndex : Byte) : ℕ → List CdbgChannel → List Bytes
  | _, [] => []
  | i, channel :: rest =>
    selectItem logInstance frameIndex (UInt8.ofNat i) :: setPointer channel ::
      initFramesFrom logInstance frameIndex (i + 1) rest

/-- `BuildFrameInitFrames`. -/
def buildFrameInitFrames (logInstance frameIndex : Byte) (frameItems : List CdbgChannel) : List Bytes :=
  initFramesFrom logInstance frameIndex 0 frameItems

/-! ### Replies -/

/-- The values in the loop of `DecodeFrame`. -/
def valuesFrom (frame : Bytes) : ℕ → List CdbgChannel → List UInt32
  | _, [] => []
  | offset, channel :: rest =>
    readUBe frame offset channel.size.toNat :: valuesFrom frame (offset + channel.size.toNat) rest

/-- `DecodeFrame`. -/
def decodeFrame (expectedFrameIndex : Byte) (frameItems : List CdbgChannel) (frame : Bytes) : List UInt32 :=
  if frame.head? ≠ some expectedFrameIndex then []
  else if frame.length < frameItems.foldl (fun sum channel => sum + channel.size.toNat) 1 then []
  else valuesFrom frame 1 frameItems

/-! ### The driver -/

/-- `CanFrame`. -/
structure CanFrame where
  id : UInt32
  payload : Bytes
deriving DecidableEq, Repr

/-- What the transport answers to a command: how many bytes were written, and the reply. -/
structure CanExchange where
  written : Except Error ℕ := .ok 0
  reply : Except Error (Option CanFrame) := .ok none

instance : Inhabited CanExchange := ⟨{}⟩

/-- Commands that are sent on `kRequestCanId`, with what the transport is going to answer. -/
abbrev Wire (α : Type) := Computation Error Bytes (List CanExchange) α

/-- What `SendAndReceive` gives. -/
def replyOf (command : Bytes) (failureDetail : String) (exchange : CanExchange) : Except Error Bytes :=
  match exchange.written with
  | .error e => .error e
  | .ok written =>
    if written ≠ command.length then .error ⟨.internal, "partial CAN write"⟩
    else
      match exchange.reply with
      | .error e => .error e
      | .ok none => .error ⟨.badResponse, failureDetail⟩
      | .ok (some reply) =>
        if reply.id ≠ 0x631 ∨ reply.payload = [] then .error ⟨.badResponse, failureDetail⟩
        else .ok reply.payload

/-- `SendAndReceive`. -/
def sendAndReceive (command : Bytes) (failureDetail : String) : Wire Bytes :=
  ask fun exchange => (replyOf command failureDetail exchange, [command])

/-- `Send`. -/
def send (command : Bytes) (failureDetail : String) : Wire Unit := do
  let _ ← sendAndReceive command failureDetail

/-- `Unlock`. -/
def unlock : Wire Unit := do
  send buildInitFrame "CDBG session init failed"
  let seed ← sendAndReceive buildSecuritySeedRequestFrame "CDBG security seed request failed"
  let granted ← sendAndReceive (buildSecurityKeyFrame (seedToKey (extractSeed seed)))
    "CDBG security key request failed"
  if securityGranted granted then pure () else fail ⟨.badResponse, "CDBG security access denied"⟩

/-- The loop of `ConfigureFrames`, from a frame. -/
def configureFrom (logInstance : Byte) : ℕ → List (List CdbgChannel) → Wire Unit
  | _, [] => pure ()
  | f, frame :: frames => do
    each (buildFrameInitFrames logInstance (UInt8.ofNat f) frame) fun command =>
      send command "CDBG log frame setup failed"
    configureFrom logInstance (f + 1) frames

/-- `ConfigureFrames`. -/
def configureFrames (logInstance : Byte) (frames : List (List CdbgChannel)) : Wire Unit := do
  send (buildLogResetFrame logInstance) "CDBG log reset failed"
  configureFrom logInstance 0 frames

/-- `CdbgLogDriver`. -/
structure CdbgLogDriver where
  frames : List (List CdbgChannel) := []
  streaming : Bool := false

/-- What `StartFreeFormLog` gives, with the driver it leaves and the commands it has sent. -/
structure Started where
  result : Except Error Unit
  driver : CdbgLogDriver := {}
  commands : List Bytes := []

/-- What follows when the channels have been cut into frames. -/
def configureAndStart (frames : List (List CdbgChannel)) (logInstance : Byte) (intervalMs : UInt32) :
    Wire Unit := do
  configureFrames logInstance frames
  send (buildLogStartFrame logInstance (UInt8.ofNat frames.length) intervalMs) "CDBG log start failed"

/-- `CdbgLogDriver::StartFreeFormLog`: the frames are kept also when the ECU does not take them. -/
def startFreeFormLog (channels : List CdbgChannel) (logInstance : Byte) (intervalMs : UInt32)
    (exchanges : List CanExchange) : Started :=
  if channels = [] then { result := invalidConfig "no CDBG log parameters selected" }
  else if channels.any fun channel => channel.size != 1 && channel.size != 2 && channel.size != 4 then
    { result := invalidConfig "CDBG log parameter has unsupported byte length" }
  else
    let unlocked := unlock exchanges
    match unlocked.result with
    | .error e => { result := .error e, commands := unlocked.events }
    | .ok () =>
      match batchChannelsIntoFrames channels with
      | none =>
        { result := invalidConfig "too many CDBG log parameters selected", commands := unlocked.events }
      | some frames =>
        let started := configureAndStart frames logInstance intervalMs unlocked.state
        { result := started.result
          driver := { frames, streaming := started.result.isOk }
          commands := unlocked.events ++ started.events }

/-- `CdbgLogDriver::PollResult`. -/
structure PollResult where
  responded : Bool := false
  channelOffset : ℕ := 0
  values : List UInt32 := []

/-- `CdbgLogDriver::PollOnce`, with what the transport has read. -/
def CdbgLogDriver.pollOnce (driver : CdbgLogDriver) (read : Except Error (Option CanFrame)) :
    Except Error PollResult :=
  if ¬driver.streaming then .ok {}
  else
    match read with
    | .error e => .error e
    | .ok none => .ok {}
    | .ok (some frame) =>
      if frame.id ≠ 0x631 ∨ frame.payload = [] then .ok {}
      else
        let frameIndex := (byteAt frame.payload 0).toNat
        match driver.frames[frameIndex]? with
        | none => .ok {}
        | some frameItems =>
          let decoded := decodeFrame (UInt8.ofNat frameIndex) frameItems frame.payload
          if decoded = [] then .ok {}
          else
            .ok {
              responded := true
              channelOffset := (List.range frameIndex).foldl
                (fun total i => total + (driver.frames[i]?.getD []).length) 0
              values := decoded }

/-! ### The protocol -/

/-- `CdbgLoggingProtocol`; its wire channels are made of the channels. -/
structure CdbgLoggingProtocol where
  channels : List LoggingChannel
  driver : CdbgLogDriver := {}

/-- `CheckLoggingRunCanContinue`. -/
def checkLoggingRunCanContinue (cancelled isOpen : Bool) : Except Error Unit :=
  if cancelled then .error ⟨.cancelled, "logging cancelled"⟩
  else if ¬isOpen then .error ⟨.disconnected, "adapter disconnected"⟩
  else .ok ()

/-- The error of the branch for values that are outside the channels. -/
def outsideError : Error := ⟨.internal, "CDBG frame values lie outside the captured channels"⟩

namespace CdbgLoggingProtocol

variable (protocol : CdbgLoggingProtocol)

/-- `MakeWireChannels`. -/
def wireChannels : List CdbgChannel := protocol.channels.map (·.toCdbg)

/-- What `Start` gives, with the protocol it leaves and the commands it has sent. -/
def start (cancelled isOpen : Bool) (exchanges : List CanExchange) :
    Except Error Unit × CdbgLoggingProtocol × List Bytes :=
  match checkLoggingRunCanContinue cancelled isOpen with
  | .error e => (.error e, protocol, [])
  | .ok () =>
    let started := startFreeFormLog protocol.wireChannels 0 10 exchanges
    (started.result, { protocol with driver := started.driver }, started.commands)

/-- The samples that `Poll` makes of the values. -/
def samplesOf (values : PollResult) : Except Error PollData :=
  if ¬values.responded then .ok { responded := false }
  else if values.channelOffset > protocol.channels.length ∨
      values.values.length > protocol.channels.length - values.channelOffset then
    .error outsideError
  else
    .ok {
      responded := true
      samples := (List.range values.values.length).map fun i =>
        ⟨(protocol.channels[values.channelOffset + i]?.getD {}).id,
          toString (values.values[i]?.getD 0).toNat⟩ }

/-- `Poll`. -/
def poll (cancelled isOpen : Bool) (read : Except Error (Option CanFrame)) : Except Error PollData := do
  checkLoggingRunCanContinue cancelled isOpen
  if ¬protocol.driver.streaming then return { responded := false }
  let values ← protocol.driver.pollOnce read
  protocol.samplesOf values

end CdbgLoggingProtocol

/-- A call of the protocol, with what the token and the transport answer. -/
inductive Call
  | start (cancelled isOpen : Bool) (exchanges : List CanExchange)
  | poll (cancelled isOpen : Bool) (read : Except Error (Option CanFrame))
  | stop

/-- A protocol in use, with all commands that were sent. -/
structure Run where
  protocol : CdbgLoggingProtocol
  commands : List Bytes := []

/-- A call: only `Start` changes the protocol and sends commands. -/
def Run.after (run : Run) : Call → Run
  | .start cancelled isOpen exchanges =>
    let started := run.protocol.start cancelled isOpen exchanges
    ⟨started.2.1, run.commands ++ started.2.2⟩
  | .poll _ _ _ => run
  | .stop => run

/-- A new protocol after the calls. -/
def Run.of (channels : List LoggingChannel) (calls : List Call) : Run :=
  calls.foldl Run.after { protocol := { channels } }

/-! ### The ECU -/

/-- What the ECU is going to log: the item that is selected, and what each item of each frame of each
instance is. -/
structure EcuLog where
  selected : Byte × Byte × Byte := (0, 0, 0)
  slots : Byte × Byte × Byte → Option CdbgChannel := fun _ => none

/-- A command changes the slots when it resets an instance or sets the pointer of the item. -/
def EcuLog.after (log : EcuLog) (command : Bytes) : EcuLog :=
  if byteAt command 0 = 20 then
    { log with slots := fun slot => if slot.1 = byteAt command 2 then none else log.slots slot }
  else if byteAt command 0 = 21 then
    { log with selected := (byteAt command 2, byteAt command 3, byteAt command 4) }
  else if byteAt command 0 = 22 then
    { log with
      slots := Function.update log.slots log.selected (some ⟨readU32Be command 4, byteAt command 2⟩) }
  else log

/-- The ECU after the commands. -/
def ecuLog (log : EcuLog) (commands : List Bytes) : EcuLog := commands.foldl EcuLog.after log

end FastEcu.Logging.Cdbg
