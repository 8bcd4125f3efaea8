import FastEcu.Bytes.Words
import FastEcu.Data.Resync
import FastEcu.Logging.UseCase
import Mathlib.Data.Nat.Digits.Defs

/-!
# The SSM logging protocol

One poll of `SsmLoggingProtocol` (`src/backend/logging/protocols/portable_ssm_logging_protocol.cpp`, with
`AddHeader` of `src/algorithms/protocol/ssm/ssm_protocol_core.cpp`): the request for the addresses of the
read plan, the reader that finds the reply in what arrives, and the decoder.  The transport, the clock
and the cancellation token are a parameter with a state of its own.

* `SsmLoggingProtocol.poll` : `Poll`, cut off after a number of reads.
* `Delivers` : reads before the deadline, and what they bring.
-/

namespace FastEcu.Logging

open Calibration (Error ErrorKind invalidConfig)
open Expression (Numbers Instruction)
open Data

/-! ### Frames -/

/-- `Sum8`. -/
def sum8 (bytes : Bytes) : Byte :=
  (bytes.foldl (fun (sum : UInt32) (b : Byte) => sum + b.toUInt32) 0 &&& 0xFF).toUInt8

/-- `AddHeader`. -/
def addHeader (output : Bytes) (testerId targetId : Byte) : Bytes :=
  let frame := [0x80, targetId, testerId, UInt8.ofNat output.length] ++ output
  frame ++ [sum8 frame]

/-- The bytes that `AppendU24Be` appends. -/
def u24Be (value : UInt32) : Bytes := [byteOf value 16, byteOf value 8, byteOf value 0]

/-- `BuildPollRequest`. -/
def buildPollRequest (plan : SsmReadPlan) : Bytes := [0xA8, 0x01] ++ plan.addresses.flatMap u24Be

/-- `TargetId`. -/
def targetId (targetIsEcu : Bool) : Byte := if targetIsEcu then 0x10 else 0x18

/-- The header of a reply. -/
def replyHeader (target : Byte) : Bytes := [0x80, 0xf0, target]

/-- `TakeReply`: the reply, and what is left of `received`. -/
def takeReply (target : Byte) (received : Bytes) : Option Bytes × Bytes :=
  let received := resync (replyHeader target) received
  match received[3]? with
  | none => (none, received)
  | some length =>
    if received.length < length.toNat + 5 then (none, received)
    else (some (received.take (length.toNat + 5)), received.drop (length.toNat + 5))

/-- `IsReadReply`. -/
def isReadReply (reply : Bytes) (target : Byte) (dataSize : ℕ) : Bool :=
  reply.length = dataSize + 6 ∧ reply[0]? = some 0x80 ∧ reply[1]? = some 0xf0 ∧
    reply[2]? = some target ∧ reply[3]?.map (·.toNat) = some (dataSize + 1) ∧
    reply[4]? = some 0xe8 ∧ some (sum8 reply.dropLast) = reply.getLast?

/-! ### Numbers -/

section Decode

variable {α : Type} (N : Numbers α)

/-- The loop of `DecodeNumeric`. -/
def numericValue (byteOrder : NumericByteOrder) (data : Bytes) : UInt32 :=
  (match byteOrder with
    | .littleEndian => data.reverse
    | .bigEndian => data).foldl
    (fun (value : UInt32) (b : Byte) => (value <<< 8) ||| b.toUInt32) 0

/-- `DecodeNumeric`. -/
def decodeNumeric (data : Bytes) (channel : LoggingChannel) : Except Error String :=
  if data.length ≠ channel.length ∨ (data.length ≠ 1 ∧ data.length ≠ 2 ∧ data.length ≠ 4) then
    .error ⟨.badResponse, "invalid SSM numeric width"⟩
  else
    let value := numericValue channel.byteOrder data
    match channel.storage with
    | .unsignedInteger => .ok (toString value.toNat)
    | .signedInteger =>
      let bits := data.length * 8
      let signedValue : ℤ :=
        if value &&& ((1 : UInt32) <<< UInt32.ofNat (bits - 1)) ≠ 0 then value.toNat - 2 ^ bits
        else value.toNat
      .ok (toString signedValue)
    | .float =>
      if data.length ≠ 4 then .error ⟨.badResponse, "SSM float requires four bytes"⟩
      else
        let number := N.ofFloat value
        if ¬N.isFinite number then .error ⟨.badResponse, "nonfinite SSM float"⟩
        else .ok (N.format number)

/-- The bytes at the positions, in the loop of `DecodeSamples` over them. -/
def rawBytes (data : Bytes) : Bytes → List ℕ → Except Error Bytes
  | raw, [] => .ok raw
  | raw, position :: rest =>
    match data[position]? with
    | none => invalidConfig "SSM response position outside physical read plan"
    | some b => rawBytes data (raw ++ [b]) rest

/-- The loop of `DecodeSamples`. -/
def decodeChannels (data : Bytes) : List ProtocolSample → List LoggingChannel → List (List ℕ) →
    Except Error (List ProtocolSample)
  | samples, channel :: channels, positions :: rest =>
    if positions.length ≠ channel.length then
      invalidConfig "SSM channel byte positions do not match width"
    else
      match rawBytes data [] positions with
      | .error e => .error e
      | .ok raw =>
        match decodeNumeric N raw channel with
        | .error e => .error e
        | .ok rawValue => decodeChannels data (samples ++ [⟨channel.id, rawValue⟩]) channels rest
  | samples, _, _ => .ok samples

/-- `DecodeSamples`. -/
def decodeSamples (plan : SsmReadPlan) (channels : List LoggingChannel) (data : Bytes) :
    Except Error (List ProtocolSample) :=
  if plan.responsePositions.length ≠ channels.length then
    invalidConfig "SSM logical channel/read-plan count mismatch"
  else decodeChannels N data [] channels plan.responsePositions

/-! ### A poll -/

/-- The transport, the clock in nanoseconds, and the cancellation token.  A read waits for a number of
milliseconds. -/
structure SsmEnvironment (σ : Type) where
  now : σ → ℤ × σ
  cancelled : σ → Bool × σ
  isOpen : σ → Bool × σ
  write : Bytes → σ → Except Error ℕ × σ
  read : ℤ → σ → Except Error (Option Bytes) × σ

/-- The fields of `SsmLoggingProtocol` that do not change. -/
structure SsmLoggingProtocol where
  channels : List LoggingChannel
  plan : SsmReadPlan
  targetIsEcu : Bool
  useOpenport2Adapter : Bool
deriving DecidableEq, Repr

/-- What `ReadFramedResponse` gives: the bytes, `pending_response_bytes_` and the environment. -/
structure FramedResponse (σ : Type) where
  received : Except Error Bytes
  pending : Bytes
  state : σ

/-- What ends a poll that has been cancelled. -/
def ssmLoggingCancelled : Error := ⟨.cancelled, "SSM logging cancelled"⟩

variable {σ : Type} (environment : SsmEnvironment σ)

/-- `read_and_append` of `ReadFramedResponse`. -/
def readAndAppend (readTimeout : ℤ) (received : Bytes) (s : σ) : Except Error Bytes × σ :=
  match environment.cancelled s with
  | (true, s) => (.error ssmLoggingCancelled, s)
  | (false, s) =>
    match environment.read readTimeout s with
    | (.error e, s) => (.error e, s)
    | (.ok chunk, s) => (.ok (received ++ chunk.getD []), s)

/-- The milliseconds that are left. -/
def remaining (deadline now : ℤ) : ℤ := (deadline - now).tdiv 1000000

/-- The loop of `ReadFramedResponse`, cut off after a number of rounds. -/
def readLoop (target : Byte) (deadline : ℤ) : ℕ → Bytes → σ → Option (FramedResponse σ)
  | 0, _, _ => none
  | fuel + 1, received, s =>
    match environment.cancelled s with
    | (true, s) => some ⟨.error ssmLoggingCancelled, [], s⟩
    | (false, s) =>
      match takeReply target received with
      | (some reply, received) => some ⟨.ok reply, received, s⟩
      | (none, received) =>
        let (now, s) := environment.now s
        if remaining deadline now ≤ 0 then some ⟨.ok received, [], s⟩
        else
          match readAndAppend environment (min 10 (remaining deadline now)) received s with
          | (.error e, s) => some ⟨.error e, [], s⟩
          | (.ok received, s) => readLoop target deadline fuel received s

namespace SsmLoggingProtocol

variable (protocol : SsmLoggingProtocol)

/-- `SsmLoggingProtocol::ReadFramedResponse`. -/
def readFramedResponse (timeout : ℤ) (fuel : ℕ) (pending : Bytes) (s : σ) :
    Option (FramedResponse σ) :=
  let (now, s) := environment.now s
  if protocol.useOpenport2Adapter then
    let (received, s) := readAndAppend environment timeout [] s
    some ⟨received, pending, s⟩
  else
    readLoop environment (targetId protocol.targetIsEcu) (now + timeout * 1000000) fuel pending s

/-- `SsmLoggingProtocol::BuildSsmHeader`. -/
def buildSsmHeader (output : Bytes) : Bytes := addHeader output 0xF0 (targetId protocol.targetIsEcu)

/-- `CheckLoggingRunCanContinue`. -/
def checkLoggingRunCanContinue (s : σ) : Except Error Unit × σ :=
  match environment.cancelled s with
  | (true, s) => (.error ⟨.cancelled, "logging cancelled"⟩, s)
  | (false, s) =>
    match environment.isOpen s with
    | (false, s) => (.error ⟨.disconnected, "adapter disconnected"⟩, s)
    | (true, s) => (.ok (), s)

/-- The end of `Poll`, with what was received. -/
def decodePoll (received : Bytes) : Except Error PollData :=
  if received = [] then .ok { responded := false }
  else if ¬isReadReply received (targetId protocol.targetIsEcu) protocol.plan.addresses.length then
    .error ⟨.badResponse, "SSM logging response does not match complete physical read plan"⟩
  else
    match decodeSamples N protocol.plan protocol.channels
        ((received.drop 5).take protocol.plan.addresses.length) with
    | .error e => .error e
    | .ok samples => .ok { responded := true, samples }

/-- What `Poll` gives, with the frames it has sent. -/
structure PollResult (σ : Type) where
  result : Except Error PollData
  sent : List Bytes
  pending : Bytes
  state : σ

/-- `SsmLoggingProtocol::Poll`. -/
def poll (timeout : ℤ) (fuel : ℕ) (pending : Bytes) (s : σ) : Option (PollResult σ) :=
  match checkLoggingRunCanContinue environment s with
  | (.error e, s) => some ⟨.error e, [], pending, s⟩
  | (.ok (), s) =>
    let frame := protocol.buildSsmHeader (buildPollRequest protocol.plan)
    match environment.write frame s with
    | (.error e, s) => some ⟨.error e, [frame], pending, s⟩
    | (.ok _, s) =>
      match protocol.readFramedResponse environment timeout fuel pending s with
      | none => none
      | some response =>
        match response.received with
        | .error e => some ⟨.error e, [frame], response.pending, response.state⟩
        | .ok received =>
          some ⟨protocol.decodePoll N received, [frame], response.pending, response.state⟩

end SsmLoggingProtocol

end Decode

end FastEcu.Logging
