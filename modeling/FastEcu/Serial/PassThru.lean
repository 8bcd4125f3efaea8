import FastEcu.Serial.ByteBuffer

/-!
# Reading messages from the Openport adapter

`PassThruReadMsgs` of `src/platform/desktop/unix/j2534/driver/J2534_unix.cpp` on an open port.  The source
neither checks an index nor a store nor how often a loop has turned; here each of them ends the call with a
`Fault`.

* `Fault` : what the source does not guard against.
* `Reader` : the members of `J2534`, the message and `RxState`.
* `handleAdapterFrame`, `handleRxFrame` : what is done with a frame.
* `passThruReadMsgs` : `PassThruReadMsgs`.
-/

namespace FastEcu.Serial.J2534

open Data

/-- An index outside the bytes that were received, a store outside the data of the message, or a loop that
has turned as often as it may. -/
inductive Fault
  | outOfRange
  | overflow
  | unfinished
deriving DecidableEq

/-- `kJ2534PassthruMsgDataSize`. -/
abbrev passthruMsgDataSize : ℕ := 4128

/-- The fields of `PassThruMsg` that a read sets. -/
structure PassThruMsg where
  rxStatus : UInt64
  timestamp : UInt32
  dataSize : UInt64
  data : Vector Byte passthruMsgDataSize

/-- The members of `J2534` that a read uses, with its `RxState`. -/
structure Reader where
  serial : SerialByteBuffer
  msgAck : Bool
  isTxDone : Bool
  msg : PassThruMsg
  timeout : UInt64
  msgCnt : UInt64 := 0
  chunkCnt : UInt64 := 0
  msgByteCnt : UInt64 := 0
  msgIndex : ℕ := 0

/-- `FrameOutcome`. -/
inductive FrameOutcome
  | continue
  | stop
  | return
deriving DecidableEq

/-- What is done with a frame: the outcome, the bytes that stay received, and the reader. -/
abbrev Handled := Except Fault (FrameOutcome × Bytes × Reader)

/-- `QByteArray::at`. -/
def byteAt? (received : Bytes) (i : ℕ) : Except Fault Byte :=
  match received[i]? with
  | some b => .ok b
  | none => .error .outOfRange

/-- A store into the data of the message. -/
def storeAt (msg : PassThruMsg) (i : ℕ) (b : Byte) : Except Fault PassThruMsg :=
  if h : i < passthruMsgDataSize then .ok { msg with data := msg.data.set i b h } else .error .overflow

namespace Reader

variable (reader : Reader)

/-- The timeout of a read, which `ReadSerialData` takes as 16 bits. -/
def readTimeout : ℕ := reader.timeout.toUInt16.toNat

/-- `ReadSerialData`. -/
def readSerialData (datalen : ℕ) : Bytes × Reader :=
  ((reader.serial.take datalen reader.readTimeout).1,
    { reader with serial := (reader.serial.take datalen reader.readTimeout).2 })

/-- `ReadSerialData` whose bytes are dropped. -/
def skip (datalen : ℕ) : Reader := (reader.readSerialData datalen).2

/-- `msg_byte_cnt` as the length of a read. -/
def byteCount : ℕ := reader.msgByteCnt.toUInt32.toNat

end Reader

/-! ### Lines -/

/-- A loop that appends one byte after another until the last one is the terminator. -/
def readTo (terminator : Byte) : ℕ → Bytes → Reader → Except Fault (Bytes × Reader)
  | 0, field, reader =>
    if field.getLast? = some terminator then .ok (field, reader) else .error .unfinished
  | fuel + 1, field, reader =>
    if field.getLast? = some terminator then .ok (field, reader)
    else readTo terminator fuel (field ++ (reader.readSerialData 1).1) (reader.readSerialData 1).2

/-- `ReadUntil`. -/
def readUntil (fuel : ℕ) (terminator : Byte) (reader : Reader) : Except Fault (Bytes × Reader) :=
  readTo terminator fuel [] reader

/-! ### Payloads -/

/-- The loop of `CopyPayload`, from an index on. -/
def copyFrom (received : Bytes) (offset : ℕ) : ℕ → ℕ → Reader → Except Fault Reader
  | 0, _, reader => .ok reader
  | count + 1, i, reader => do
    let b ← byteAt? received (i + offset)
    let msg ← storeAt reader.msg reader.msgIndex b
    copyFrom received offset count (i + 1) { reader with msg, msgIndex := reader.msgIndex + 1 }

/-- `CopyPayload`. -/
def copyPayload (received : Bytes) (offset : ℕ) (reader : Reader) : Except Fault Reader :=
  copyFrom received offset reader.msgByteCnt.toNat 0 reader

/-- What `CopyTimestampedPayload` skips. -/
def timestampSize (chunkCnt : UInt64) : UInt64 := if chunkCnt = 0 then 4 else 8

/-- `CopyTimestampedPayload`. -/
def copyTimestampedPayload (received : Bytes) (reader : Reader) : Except Fault Reader :=
  copyPayload received (5 + (timestampSize reader.chunkCnt).toNat)
    { reader with msgByteCnt := reader.msgByteCnt - timestampSize reader.chunkCnt }

/-- `FinishMessage`. -/
def finishMessage (received : Bytes) (reader : Reader) : Handled := do
  let b3 ← byteAt? received 8
  let b2 ← byteAt? received 7
  let b1 ← byteAt? received 6
  let b0 ← byteAt? received 5
  let timestamp := wordBe b0 b1 b2 b3
  .ok (.stop, [], { reader with
    msg := { reader.msg with timestamp, dataSize := UInt64.ofNat reader.msgIndex }
    msgCnt := reader.msgCnt + 1 })

/-! ### Frames -/

/-- The types of a received message. -/
inductive RxMsgType
  | txDone
  | loopback
  | startInd
  | startOfMessage
  | norm
  | endInd
  | other
deriving DecidableEq

/-- The type of a byte: `kTxDoneMsg`; `kTxLbStartInd`, `kTxLbMsg` and `kLbMsgEndInd`; `kNormMsgStartInd`;
`kJ2534StartOfMessage`; `kNormMsg`; `kRxMsgEndInd`. -/
def rxMsgType (b : Byte) : RxMsgType :=
  if b = 0x10 then .txDone
  else if b = 0xA0 ∨ b = 0x20 ∨ b = 0x60 then .loopback
  else if b = 0x80 then .startInd
  else if b = 0x02 then .startOfMessage
  else if b = 0x00 then .norm
  else if b = 0x40 then .endInd
  else .other

/-- The length of a message that the length byte, which is a `char`, stands for. -/
def lengthOf (b : Byte) : UInt64 := UInt64.ofInt (b.toInt8.toInt - 1)

/-- The copy of `HandleNormFrame`. -/
def copyNormPayload (kind : Byte) (received : Bytes) (reader : Reader) : Except Fault Reader :=
  if kind = 0x35 ∨ kind = 0x36 then copyTimestampedPayload received reader
  else copyPayload received 5 reader

/-- `HandleNormFrame`. -/
def handleNormFrame (received : Bytes) (reader : Reader) : Handled := do
  let reader := { reader with msg := { reader.msg with rxStatus := 0 } }
  let payload := (reader.readSerialData reader.byteCount).1
  let reader := (reader.readSerialData reader.byteCount).2
  let received := received ++ payload
  let kind ← byteAt? received 2
  let reader ← copyNormPayload kind received reader
  let reader := { reader with chunkCnt := reader.chunkCnt + 1 }
  if kind = 0x35 then finishMessage received reader else .ok (.continue, [], reader)

/-- The copy of `HandleRxFrame` at the end of a message. -/
def copyEndPayload (kind : Byte) (received : Bytes) (reader : Reader) : Except Fault Reader :=
  if kind = 0x36 then copyTimestampedPayload received reader else .ok reader

/-- What `HandleRxFrame` does with a message of a type. -/
def handleRxMessage (received : Bytes) (msgType : Byte) (reader : Reader) : Handled :=
  match rxMsgType msgType with
  | .txDone =>
    .ok (.continue, [], { reader.skip reader.byteCount with
      isTxDone := true, msg := { reader.msg with rxStatus := msgType.toUInt64 }, msgIndex := 0, msgCnt := 0 })
  | .loopback =>
    .ok (.continue, [], { reader.skip reader.byteCount with
      msg := { reader.msg with rxStatus := msgType.toUInt64 }, msgIndex := 0, msgCnt := 0 })
  | .startInd =>
    .ok (.continue, [], { reader.skip reader.byteCount with
      msg := { reader.msg with rxStatus := msgType.toUInt64 }, msgIndex := 0
      msgCnt := reader.msgCnt + 1, chunkCnt := 0 })
  | .startOfMessage => handleNormFrame received { reader with msgIndex := 0, msgCnt := reader.msgCnt + 1 }
  | .norm => handleNormFrame received reader
  | .endInd => do
    let reader := { reader with msg := { reader.msg with rxStatus := 0x40 } }
    let payload := (reader.readSerialData reader.byteCount).1
    let reader := (reader.readSerialData reader.byteCount).2
    let received := received ++ payload
    let kind ← byteAt? received 2
    let reader ← copyEndPayload kind received reader
    finishMessage received reader
  | .other => .ok (.continue, received, reader)

/-- `HandleRxFrame`. -/
def handleRxFrame (received : Bytes) (reader : Reader) : Handled := do
  let received := received ++ (reader.readSerialData 2).1
  let reader := (reader.readSerialData 2).2
  let length ← byteAt? received 3
  let msgType ← byteAt? received 4
  handleRxMessage received msgType { reader with msgByteCnt := lengthOf length }

/-- The kinds of a frame. -/
inductive FrameKind
  | ack
  | error
  | periodic
  | line
  | fastInit
  | rx
  | other
deriving DecidableEq

/-- The kind of a frame: `o`; `e`; `m`; `r` and `w`; `y`; the digits from `3` to `6`. -/
def frameKind (b : Byte) : FrameKind :=
  if b = 0x6F then .ack
  else if b = 0x65 then .error
  else if b = 0x6D then .periodic
  else if b = 0x72 ∨ b = 0x77 then .line
  else if b = 0x79 then .fastInit
  else if b = 0x33 ∨ b = 0x34 ∨ b = 0x35 ∨ b = 0x36 then .rx
  else .other

section Adapter

variable (toInt : Bytes → ℤ) (fuel : ℕ)

/-- The frame of a periodic message. -/
def handlePeriodic (reader : Reader) : Except Fault Reader := do
  let (_, reader) ← readUntil fuel 0x20 (reader.skip 2)
  let (_, reader) ← readUntil fuel 0x0A reader
  .ok { reader.skip reader.byteCount with msgIndex := 0 }

/-- `ReadFastInitReply`; `toInt` is `QByteArray::toInt`. -/
def readFastInitReply (reader : Reader) : Except Fault Reader := do
  let (field, reader) ← readUntil fuel 0x20 (reader.skip 2)
  let (_, reader) ← readUntil fuel 0x0A { reader with msgByteCnt := UInt64.ofInt (toInt field.dropLast) }
  let reply := (reader.readSerialData reader.byteCount).1
  let reader ← copyPayload reply 0 { (reader.readSerialData reader.byteCount).2 with msgIndex := 0 }
  .ok { reader with
    msg := { reader.msg with rxStatus := 0, dataSize := UInt64.ofNat reader.msgIndex }
    msgCnt := reader.msgCnt + 1 }

/-- The loop of `std::copy` into the data of the message. -/
def copyLine : Bytes → ℕ → PassThruMsg → Except Fault PassThruMsg
  | [], _, msg => .ok msg
  | b :: line, i, msg => do
    let msg ← storeAt msg i b
    copyLine line (i + 1) msg

/-- `HandleAdapterFrame`. -/
def handleAdapterFrame (received : Bytes) (reader : Reader) : Handled := do
  let kind ← byteAt? received 2
  match frameKind kind with
  | .ack => .ok (.continue, [], { reader.skip 2 with msgAck := true })
  | .error => .ok (.continue, [], reader)
  | .periodic => do
    let reader ← handlePeriodic fuel reader
    .ok (.continue, received, reader)
  | .line => do
    let (line, reader) ← readTo 0x0A fuel received reader
    let msg ← copyLine line 0 reader.msg
    .ok (.return, line, { reader with msg := { msg with dataSize := UInt64.ofNat line.length } })
  | .fastInit => do
    let reader ← readFastInitReply toInt fuel reader
    .ok (.continue, received, reader)
  | .rx => handleRxFrame received reader
  | .other => .ok (.continue, received, reader)

/-- The bytes are dispatched when they start with `ar`. -/
def dispatch (received : Bytes) (reader : Reader) : Handled := do
  let first ← byteAt? received 0
  if first = 0x61 then do
    let second ← byteAt? received 1
    if second = 0x72 then handleAdapterFrame toInt fuel received reader
    else .ok (.continue, received, reader)
  else .ok (.continue, received, reader)

/-- The loop of `PassThruReadMsgs`, with the turns that it may take: the reader at its end, and the number of
messages that is stored, if any. -/
def readLoop : ℕ → Bytes → Reader → Except Fault (Reader × Option UInt64)
  | 0, _, _ => .error .unfinished
  | turns + 1, received, reader =>
    if received = [] then .ok (reader, some reader.msgCnt)
    else do
      let (outcome, received, reader) ← dispatch toInt fuel received reader
      match outcome with
      | .return => .ok (reader, none)
      | .stop => .ok (reader, some reader.msgCnt)
      | .continue =>
        let response := (reader.readSerialData 3).1
        readLoop turns (if response = [] then [] else received ++ response) (reader.readSerialData 3).2

/-- `PassThruReadMsgs` whose loops may turn `fuel` times. -/
def passThruReadMsgs (reader : Reader) : Except Fault (Reader × Option UInt64) :=
  readLoop toInt fuel fuel (reader.readSerialData 3).1 (reader.readSerialData 3).2

end Adapter

end FastEcu.Serial.J2534
