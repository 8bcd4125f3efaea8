import FastEcu.Data.Protocol
import FastEcu.Diagnostics.ObdFrames
import FastEcu.Flash.KlineTransport
import FastEcu.Flash.Workflow

/-!
# The Unisia JECS M32R executor on K-line

A session of `src/backend/flash/ecu/subaru_unisia_jecs_m32r_kline_executor.cpp`, with the exchanges of
`m32r_ssm_exchange.cpp`.

* `readRom`, `writeRom`, `run` : the session.
-/

namespace FastEcu.Flash.UnisiaKline

open Calibration (ErrorKind)
open Data Computation Ports
open Logging (addHeader sum8)
open Diagnostics (hexDigits formatHex)
open Beef (KlineCalls KlineEvent KlineAnswer)

/-! ### Plans -/

/-- The ids of `SubaruUnisiaJecsM32rKlinePlan`. -/
structure Wire where
  testerId : Byte
  targetId : Byte

/-- What a session takes from its plan. -/
structure Plan where
  wire : Wire
  operation : FlashOperation
  image : Bytes
  transferRegion : MemoryRegion

/-! ### Frames -/

/-- `HasValidFrame`. -/
def hasValidFrame (frame : Bytes) (receiverId senderId : Byte) : Bool :=
  if frame.length < 5 then false
  else if frame.length ≠ 4 + (byteAt frame 3).toNat + 1 then false
  else if byteAt frame 0 ≠ 0x80 ∨ byteAt frame 1 ≠ receiverId ∨ byteAt frame 2 ≠ senderId then false
  else sum8 (frame.take (frame.length - 1)) == byteAt frame (frame.length - 1)

/-- `kEcuIdOffset`. -/
def ecuIdOffset : ℕ := 8

/-- `kEcuIdLength`. -/
def ecuIdLength : ℕ := 5

/-- `CarriesEcuId`. -/
def carriesEcuId (frame : Bytes) : Bool := decide (ecuIdOffset + ecuIdLength + 1 ≤ frame.length)

/-- The bytes of the ECU ID of a reply. -/
def ecuId (init : Bytes) : Bytes := subspan init ecuIdOffset ecuIdLength

/-- `EcuIdHex`. -/
def ecuIdHex (init : Bytes) : String :=
  (ecuId init).foldl (fun (id : String) (value : Byte) => id ++ (hexDigits 2 value.toNat).toUpper) ""

/-- An address in an error. -/
def addressText (address : UInt32) : String := "0x" ++ (hexDigits 6 address.toNat).toUpper

section Session

variable (wire : Wire)

/-- `HasSid`. -/
def hasSid (frame : Bytes) (sid : Byte) : Bool :=
  hasValidFrame frame wire.testerId wire.targetId && decide (1 ≤ byteAt frame 3) && byteAt frame 4 == sid

/-- `IsExactReply`. -/
def isExactReply (frame payload : Bytes) : Bool :=
  hasValidFrame frame wire.testerId wire.targetId && decide ((byteAt frame 3).toNat = payload.length) &&
    subspan frame 4 payload.length == payload

/-- The frame of a payload. -/
def frameOf (payload : Bytes) : Bytes := addHeader payload wire.testerId wire.targetId

/-- `SendM32rSsmFrame`. -/
def send (payload : Bytes) : KlineCalls Unit := do
  Beef.Kline.checkCancelled "cancelled before write"
  Beef.Kline.writeAll (frameOf wire payload)

/-- `ReceiveM32rSsmOnce`. -/
def receive (timeout : ℤ) : KlineCalls (Option Bytes) := do
  let response ← Beef.Kline.read timeout
  Beef.Kline.checkCancelled "cancelled after read"
  pure response

/-- What `ExchangeExpect` makes of a reply. -/
def expectSid (sid : Byte) (what : String) : Option Bytes → Except LinkError Bytes
  | none => .error (.of .timeout ("no response to " ++ what))
  | some response =>
    if hasSid wire response sid then .ok response
    else .error (.of .badResponse ("unexpected response to " ++ what ++ ": " ++ formatHex response))

/-- `ExchangeExpect`. -/
def exchangeExpect (payload : Bytes) (timeout : ℤ) (sid : Byte) (what : String) : KlineCalls Bytes := do
  send wire payload
  let response ← receive timeout
  ofExcept (expectSid wire sid what response)

/-- `ExpectSsmInit`. -/
def expectSsmInit : KlineCalls Bytes := do
  let init ← exchangeExpect wire [0xBF] 2000 0xFF "SSM init"
  if carriesEcuId init then pure init
  else fail (.of .badResponse ("SSM init reply carries no ECU ID: " ++ formatHex init))

/-! ### Reading -/

/-- `kPage`. -/
def page : ℕ := 0x80

/-- `ProbeReadMode`. -/
def probeReadMode : KlineCalls (Option Bytes) := do
  Beef.Kline.setBaud 38400
  send wire [0xBF]
  let probe ← receive 2000
  pure (probe.filter fun frame => hasSid wire frame 0xFF && carriesEcuId frame)

/-- `InitReadMode`. -/
def initReadMode : KlineCalls Bytes := do
  Beef.Kline.setBaud 4800
  let cold ← expectSsmInit wire
  let _ ← exchangeExpect wire [0xB8, 0x00, 0x00, 0x00, 0x75] 2000 0xF8 "baud rate change"
  Beef.Kline.setBaud 38400
  let _ ← expectSsmInit wire
  pure cold

/-- One turn of the loop of `ReadPages`. -/
def readPage (address : UInt32) : KlineCalls Bytes := do
  let block ← exchangeExpect wire ([0xA0, 0x00] ++ (beBytes24 address ++ [0x7F])) 3000 0xE0
    ("block read at " ++ addressText address)
  if block.length ≠ 4 + 1 + page + 1 then
    fail (.of .badResponse
      ("block read at " ++ addressText address ++ " returned " ++ toString block.length ++ " bytes"))
  else do
    Beef.Kline.sleep 1
    pure (subspan block 5 page)

/-- The loop of `ReadPages` over the addresses that are left. -/
def readPages : List UInt32 → KlineCalls Bytes
  | [] => pure []
  | address :: addresses => do
    let block ← readPage wire address
    let rest ← readPages addresses
    pure (block ++ rest)

/-- The addresses of `ReadPages`. -/
def pageAddresses (region : MemoryRegion) : List UInt32 :=
  (List.range (region.length.toNat / page)).map fun k => region.start + UInt32.ofNat k * 0x80

/-- The reply that names the ECU, in the read mode that is on already or is asked for. -/
def enterReadMode : KlineCalls Bytes := do
  match ← probeReadMode wire with
  | some init => pure init
  | none => initReadMode wire

/-- `ReadRom`: the bytes and the ROM id. -/
def readRom (region : MemoryRegion) : KlineCalls (Bytes × String) := do
  let init ← enterReadMode wire
  let rom ← readPages wire (pageAddresses region)
  pure (rom, ecuIdHex init ++ "_")

/-! ### Writing -/

/-- `PollFor`, with the rounds that are left. -/
def pollFor (expected : Bytes) (rounds : ℕ) (what : String) : ℕ → KlineCalls Unit
  | 0 => fail (.of .timeout ("no " ++ what ++ " response after " ++ toString rounds ++ " polls"))
  | left + 1 => do
    match ← receive 500 with
    | some response =>
      if isExactReply wire response expected then pure ()
      else fail (.of .badResponse (what ++ " failed: " ++ formatHex response))
    | none => do
      Beef.Kline.sleep 500
      pollFor expected rounds what left

/-- `ProbeObk`. -/
def probeObk : KlineCalls (Option Bytes) := do
  Beef.Kline.setBaud 19200
  send wire [0xAF]
  receive 2000

/-- Whether the probe found the ECU in flash mode. -/
def obkRunning : Option Bytes → Bool
  | none => false
  | some frame => hasSid wire frame 0xEF

/-- The payload that asks for the flash mode. -/
def enterRequest (init : Bytes) (romSize : UInt32) : Bytes :=
  [0xAF, 0x11] ++ (ecuId init ++ beBytes24 romSize)

/-- `EnterFlashMode`. -/
def enterFlashMode (romSize : UInt32) : KlineCalls Unit := do
  let probe ← probeObk wire
  if obkRunning wire probe then pure ()
  else do
    Beef.Kline.setBaud 4800
    let init ← expectSsmInit wire
    let _ ← exchangeExpect wire (enterRequest init romSize) 2000 0xEF "enter flash mode"
    Beef.Kline.setBaud 19200

/-- The payload that erases the flash. -/
def eraseRequest : Bytes := [0xAF, 0x31]

/-- `EraseFlash`. -/
def eraseFlash : KlineCalls Unit := do
  send wire eraseRequest
  pollFor wire [0xEF, 0x42] 20 "flash erase start" 20
  pollFor wire [0xEF, 0x52] 40 "flash erase" 40
  let _ ← receive 500

variable (image : Bytes)

/-- The payload of `WriteBlock`. -/
def blockRequest (block blocks : ℕ) : Bytes :=
  let address := UInt32.ofNat block * 0x80
  [0xAF, if block = blocks - 1 then 0x69 else 0x61] ++
    (beBytes24 address ++ (subspan image address.toNat page).map (· ^^^ 0x82))

/-- What `WriteBlock` makes of a reply. -/
def blockAnswer (block blocks : ℕ) : Option Bytes → Except LinkError Unit
  | none =>
    if block = blocks - 1 then .ok ()
    else .error (.of .timeout ("no response to block write at " ++ addressText (UInt32.ofNat block * 0x80)))
  | some response =>
    if isExactReply wire response [0xEF, 0x52] then .ok ()
    else .error (.of .badResponse ("block write at " ++ addressText (UInt32.ofNat block * 0x80) ++
      " failed: " ++ formatHex response))

/-- `WriteBlock`. -/
def writeBlock (blocks block : ℕ) : KlineCalls Unit := do
  send wire (blockRequest image block blocks)
  let response ← receive 3000
  ofExcept (blockAnswer wire block blocks response)

/-- `WriteRom`. -/
def writeRom (romSize : UInt32) : KlineCalls Unit := do
  enterFlashMode wire romSize
  Beef.Kline.checkCancelled "cancelled before programming voltage"
  Beef.Kline.enableProgrammingVoltageLine
  eraseFlash wire
  each (List.range (romSize.toNat / page)) (writeBlock wire image (romSize.toNat / page))

end Session

/-- The write of `Run`: the lines are dropped on every outcome, and an error of the write comes first. -/
def runWrite (plan : Plan) : KlineCalls Unit := do
  let written ← attempt (writeRom plan.wire plan.image plan.transferRegion.length)
  let dropped ← attempt Beef.Kline.disableLecLines
  ofExcept written
  ofExcept dropped

/-- `Run`: what was read, with the ROM id. -/
def run (plan : Plan) : KlineCalls (Option (Bytes × String)) :=
  match plan.operation with
  | .read => do
    let rom ← readRom plan.wire plan.transferRegion
    pure (some rom)
  | _ => do
    runWrite plan
    pure none

end FastEcu.Flash.UnisiaKline
