import FastEcu.Calibration.Definition
import FastEcu.Expression.Checked

/-!
# Logging sessions

The channels of a logging run and the checks they pass before the run begins
(`src/backend/logging/logging_session.cpp`, `logging_read_plan.cpp`, and `BatchChannelsIntoFrames` of
`src/algorithms/protocol/colt/mitsu_colt_can_cdbg_protocol.cpp`).

* `LoggingSession` : the channels, their compiled conversions and the read plan of SSM.
* `makeLoggingSession` : the checks.
* `makeSsmReadPlan` : the addresses that SSM asks for, and where each channel finds its bytes.
-/

namespace FastEcu.Logging

open Calibration (Error ErrorKind invalidConfig)
open Expression (Numbers Instruction)

/-! ### Channels -/

/-- `LoggingProtocolId`. -/
inductive LoggingProtocolId
  | ssm
  | mutDma
  | cdbg
deriving DecidableEq, Repr

/-- `NumericStorage`. -/
inductive NumericStorage
  | unsignedInteger
  | signedInteger
  | float
deriving DecidableEq, Repr

/-- `NumericByteOrder`. -/
inductive NumericByteOrder
  | bigEndian
  | littleEndian
deriving DecidableEq, Repr

/-- `LoggingChannel`. -/
structure LoggingChannel where
  id : String := ""
  address : UInt32 := 0
  length : ℕ := 0
  fromByteExpression : String := ""
  unit : String := ""
  decimalPrecision : UInt8 := 0
  byteAddresses : List UInt32 := []
  sampleBit : Option UInt8 := none
  storage : NumericStorage := .unsignedInteger
  byteOrder : NumericByteOrder := .bigEndian
deriving DecidableEq, Repr

/-- `LoggingPolicy`; the timeout is in milliseconds. -/
structure LoggingPolicy where
  pollTimeout : ℤ
  carSilenceMissThreshold : ℤ
  reconnectAttemptThreshold : ℤ
  reconnectRetryPeriod : ℤ
deriving DecidableEq, Repr

/-! ### The read plan of SSM -/

/-- `SsmReadPlan`. -/
structure SsmReadPlan where
  addresses : List UInt32 := []
  responsePositions : List (List ℕ) := []
deriving DecidableEq, Repr

/-- The address of the `i`-th byte of a channel, before it is cut to 32 bits. -/
def byteAddress (channel : LoggingChannel) (i : ℕ) : ℕ :=
  if channel.byteAddresses = [] then channel.address.toNat + i
  else (channel.byteAddresses[i]?.getD 0).toNat

/-- The loop of `MakeSsmReadPlan` over the bytes of a channel, of which `count` are left. -/
def planBytes (channel : LoggingChannel) : ℕ → ℕ → List UInt32 → List ℕ →
    Except Error (List UInt32 × List ℕ)
  | _, 0, addresses, positions => .ok (addresses, positions)
  | i, count + 1, addresses, positions =>
    let address := byteAddress channel i
    if 0xffffff < address then
      invalidConfig s!"SSM channel {channel.id}: byte address outside 24-bit range"
    else
      planBytes channel (i + 1) count (addresses ++ [UInt32.ofNat address])
        (positions ++ [addresses.length])

/-- One round of the loop of `MakeSsmReadPlan` over the channels. -/
def planChannel (plan : SsmReadPlan) (channel : LoggingChannel) : Except Error SsmReadPlan :=
  if channel.length = 0 ∨ 84 < channel.length ∨ 84 - channel.length < plan.addresses.length ∨
      (channel.byteAddresses ≠ [] ∧ channel.byteAddresses.length ≠ channel.length) ∨
      (∃ bit ∈ channel.sampleBit, 8 ≤ bit ∨ channel.length ≠ 1) then
    invalidConfig s!"SSM channel {channel.id}: invalid byte layout or exceeds 84 requested addresses"
  else
    match planBytes channel 0 channel.length plan.addresses [] with
    | .error e => .error e
    | .ok (addresses, positions) =>
      .ok { addresses, responsePositions := plan.responsePositions ++ [positions] }

/-- The loop of `MakeSsmReadPlan`. -/
def planChannels : SsmReadPlan → List LoggingChannel → Except Error SsmReadPlan
  | plan, [] => .ok plan
  | plan, channel :: rest =>
    match planChannel plan channel with
    | .error e => .error e
    | .ok plan => planChannels plan rest

/-- `MakeSsmReadPlan`. -/
def makeSsmReadPlan (channels : List LoggingChannel) : Except Error SsmReadPlan :=
  planChannels {} channels

/-! ### The frames of CDBG -/

/-- `CdbgChannel`. -/
structure CdbgChannel where
  pointer : UInt32
  size : UInt8
deriving DecidableEq, Repr

/-- `kMaxFrames` and `kMaxFrameBytes`. -/
def kMaxFrames : ℕ := 8
def kMaxFrameBytes : ℕ := 7

/-- The loop of `BatchChannelsIntoFrames`. -/
def batchLoop : List (List CdbgChannel) → List CdbgChannel → ℕ → List CdbgChannel →
    List (List CdbgChannel)
  | frames, current, _, [] => if current ≠ [] then frames ++ [current] else frames
  | frames, current, byteIndex, channel :: rest =>
    if 8 < byteIndex + channel.size.toNat then
      batchLoop (frames ++ [current]) [channel] (1 + channel.size.toNat) rest
    else batchLoop frames (current ++ [channel]) (byteIndex + channel.size.toNat) rest

/-- `BatchChannelsIntoFrames`: the frames, if the channels fit. -/
def batchChannelsIntoFrames (channels : List CdbgChannel) : Option (List (List CdbgChannel)) :=
  if channels = [] then none
  else
    let frames := batchLoop [] [] 1 channels
    if kMaxFrames < frames.length then none else some frames

/-! ### The checks -/

/-- `ValidAddress`. -/
def validAddress : LoggingProtocolId → UInt32 → Bool
  | .ssm, address => address ≤ 0x00ffffff
  | .mutDma, address => address ≤ 0x0000ffff
  | .cdbg, _ => true

/-- The channel as CDBG selects it. -/
def LoggingChannel.toCdbg (channel : LoggingChannel) : CdbgChannel :=
  ⟨channel.address, UInt8.ofNat channel.length⟩

/-- `ValidWireShape`. -/
def validWireShape : LoggingProtocolId → List LoggingChannel → Bool
  | .ssm, _ => true
  | .mutDma, channels => channels.length ≤ 255
  | .cdbg, channels => (batchChannelsIntoFrames (channels.map (·.toCdbg))).isSome

/-- `KnownEncoding`. -/
def knownEncoding (channel : LoggingChannel) : Bool :=
  channel.storage ≠ .float ∨ channel.length = 4

/-- `OverridesEncoding`. -/
def overridesEncoding (channel : LoggingChannel) : Bool :=
  channel.storage ≠ .unsignedInteger ∨ channel.byteOrder ≠ .bigEndian

/-- `ExceedsSsmRange`. -/
def exceedsSsmRange (protocol : LoggingProtocolId) (channel : LoggingChannel) : Bool :=
  protocol = .ssm ∧ channel.byteAddresses = [] ∧
    0xffffff - channel.address.toNat < channel.length - 1

/-- The hexadecimal digits of a number, as `{:x}` writes them. -/
def hexText (n : ℕ) : String := String.ofList (Nat.toDigits 16 n)

/-- `ValidateChannelFields`. -/
def validateChannelFields (protocol : LoggingProtocolId) (channel : LoggingChannel) :
    Except Error Unit :=
  if channel.id = "" then invalidConfig "invalid id; expected a nonempty channel id"
  else if ¬ (channel.length = 1 ∨ channel.length = 2 ∨ channel.length = 4) then
    invalidConfig "invalid length; expected 1, 2 or 4 bytes"
  else if ¬ validAddress protocol channel.address then
    invalidConfig s!"invalid address '{
      hexText channel.address.toNat}'; outside the selected protocol's address range"
  else if ∃ bit ∈ channel.sampleBit, 8 ≤ bit ∨ channel.length ≠ 1 then
    invalidConfig "invalid switch sample bit; expected 0–7 in a one-byte source"
  else if ¬ knownEncoding channel then invalidConfig "invalid numeric storage or byte order"
  else if exceedsSsmRange protocol channel then
    invalidConfig "expanded byte address exceeds the SSM range"
  else if protocol ≠ .ssm ∧ overridesEncoding channel then
    invalidConfig "numeric metadata override is unsupported by this protocol"
  else if 15 < channel.decimalPrecision then
    invalidConfig "invalid precision; expected 0–15 decimal places"
  else .ok ()

variable {α : Type} (N : Numbers α)

/-- `CompileChannel`. -/
def compileChannel (protocol : LoggingProtocolId) (channel : LoggingChannel) :
    Except Error (List (Instruction α)) :=
  match validateChannelFields protocol channel with
  | .error e => .error e
  | .ok () =>
    if channel.fromByteExpression = "" then
      invalidConfig "invalid expression; expected a nonempty conversion"
    else
      match Expression.compile N.toArithmetic channel.fromByteExpression.toList with
      | .error e =>
        invalidConfig s!"invalid expression '{channel.fromByteExpression}': {e.detail}"
      | .ok compiled => .ok compiled

/-- `ValidateLoggingChannel`. -/
def validateLoggingChannel (protocol : LoggingProtocolId) (channel : LoggingChannel) :
    Except Error Unit :=
  match compileChannel N protocol channel with
  | .error e => .error e
  | .ok _ => .ok ()

/-- The loop of `CompileChannels`, with the ids and the conversions before. -/
def compileChannels (protocol : LoggingProtocolId) :
    List String → List (List (Instruction α)) → List LoggingChannel →
      Except Error (List (List (Instruction α)))
  | _, conversions, [] => .ok conversions
  | ids, conversions, channel :: rest =>
    if channel.id ∈ ids then invalidConfig "duplicate logging channel id"
    else
      match compileChannel N protocol channel with
      | .error e => .error e
      | .ok compiled =>
        compileChannels protocol (ids ++ [channel.id]) (conversions ++ [compiled]) rest

/-- `ValidPolicy`. -/
def validPolicy (policy : LoggingPolicy) : Bool :=
  0 < policy.pollTimeout ∧ 0 < policy.carSilenceMissThreshold ∧
    0 < policy.reconnectAttemptThreshold ∧ 0 ≤ policy.reconnectRetryPeriod

/-- `ValidateMutRequestSize`. -/
def validateMutRequestSize (channels : List LoggingChannel) : Except Error Unit :=
  if 96 < channels.length ∨ 96 < (channels.map (·.length)).sum then
    invalidConfig "MUT request exceeds 96 entries or 96 response bytes"
  else .ok ()

/-- `LoggingSession`. -/
structure LoggingSession (α : Type) where
  protocol : LoggingProtocolId
  channels : List LoggingChannel
  policy : LoggingPolicy
  readPlan : Option SsmReadPlan
  conversions : List (List (Instruction α))
deriving DecidableEq

/-- `LoggingSession::FindChannel`. -/
def LoggingSession.findChannel (session : LoggingSession α) (id : String) :
    Option LoggingChannel :=
  session.channels.find? (·.id == id)

/-- `LoggingSession::FindConversion`. -/
def LoggingSession.findConversion (session : LoggingSession α) (id : String) :
    Option (List (Instruction α)) :=
  (session.channels.findIdx? (·.id == id)).bind fun index => session.conversions[index]?

/-- `MakeLoggingSession`. -/
def makeLoggingSession (protocol : LoggingProtocolId) (channels : List LoggingChannel)
    (policy : LoggingPolicy) : Except Error (LoggingSession α) :=
  if ¬ validPolicy policy then invalidConfig "invalid logging policy"
  else if protocol = .cdbg ∧ channels = [] then invalidConfig "no CDBG log parameters selected"
  else
    match compileChannels N protocol [] [] channels with
    | .error e => .error e
    | .ok conversions =>
      if ¬ validWireShape protocol channels then
        invalidConfig "logging channels do not fit the selected protocol"
      else
        match protocol with
        | .ssm =>
          match makeSsmReadPlan channels with
          | .error e => .error e
          | .ok plan => .ok ⟨protocol, channels, policy, some plan, conversions⟩
        | .mutDma =>
          match validateMutRequestSize channels with
          | .error e => .error e
          | .ok () => .ok ⟨protocol, channels, policy, none, conversions⟩
        | .cdbg => .ok ⟨protocol, channels, policy, none, conversions⟩

end FastEcu.Logging
