import FastEcu.Serial.PassThruSpec

/-!
# Messages that come in frames

What the adapter delivers as one message, and when `PassThruReadMsgs` reads it right
(`src/platform/desktop/unix/j2534/driver/J2534_unix.cpp`).

* `Message` : a message in one frame or in chunks, with acknowledgements and `txDone` frames between them.
* `Delivered` : the message is read right, whatever was read before and whatever follows.
* `Message.Plain` : no length is taken for a negative number, and nothing is dropped.
* `delivered_iff_plain` : the plain messages are the ones that are read right.
-/

namespace FastEcu.Serial.J2534

open Data

/-! ### Messages and their bytes -/

/-- A frame with a message: its length counts the type and what follows. -/
def rxFrame (kind msgType : Byte) (content : Bytes) : Bytes :=
  [0x61, 0x72, kind, UInt8.ofNat (content.length + 1), msgType] ++ content

theorem length_rxFrame (kind msgType : Byte) (content : Bytes) :
    (rxFrame kind msgType content).length = 5 + content.length := by
  rw [rxFrame, List.length_append]
  rfl

/-- A part of a message; in every chunk but the first four bytes follow the timestamp. -/
structure Chunk where
  timestamp : UInt32
  more : UInt32
  payload : Bytes

/-- A frame that is not the last one of a message: what the adapter says of what was sent, the start of a message,
and a chunk of it. -/
inductive Frame
  | ack (a b : Byte)
  | txDone (kind : Byte) (content : Bytes)
  | startInd (content : Bytes)
  | chunk (c : Chunk)

/-- A message in one frame, or in chunks between its start and its end. -/
inductive Message
  | single (before : List Frame) (whole : Chunk)
  | chunked (before : List Frame) (start : Bytes) (body : List Frame) (last : Chunk)

/-- The content of the frame of a chunk, by the number of chunks before it. -/
def Chunk.content (k : ℕ) (c : Chunk) : Bytes :=
  beBytes c.timestamp ++ ((if k = 0 then [] else beBytes c.more) ++ c.payload)

namespace Frame

/-- The number of chunks after a frame. -/
def count (k : ℕ) : Frame → ℕ
  | .startInd _ => 0
  | .chunk _ => k + 1
  | _ => k

def bytes (k : ℕ) : Frame → Bytes
  | .ack a b => [0x61, 0x72, 0x6F, a, b]
  | .txDone kind content => rxFrame kind 0x10 content
  | .startInd content => rxFrame 0x36 0x80 content
  | .chunk c => rxFrame 0x36 0x00 (c.content k)

def payload : Frame → Bytes
  | .chunk c => c.payload
  | _ => []

/-- What the length byte of a frame says, if it has one. -/
def lengths (k : ℕ) : Frame → List ℕ
  | .ack _ _ => []
  | .txDone _ content => [content.length + 1]
  | .startInd content => [content.length + 1]
  | .chunk c => [(c.content k).length + 1]

/-- The frame is about what was sent. -/
def Between : Frame → Prop
  | .ack _ _ => True
  | .txDone kind _ => frameKind kind = .rx
  | _ => False

/-- The frame may stand between the start and the end of a message. -/
def Inside : Frame → Prop
  | .chunk _ => True
  | f => f.Between

end Frame

/-- The bytes of frames, by the number of chunks before them. -/
def framesBytes : ℕ → List Frame → Bytes
  | _, [] => []
  | k, f :: frames => f.bytes k ++ framesBytes (f.count k) frames

def framesLengths : ℕ → List Frame → List ℕ
  | _, [] => []
  | k, f :: frames => f.lengths k ++ framesLengths (f.count k) frames

namespace Message

/-- The frames before the last one. -/
def frames : Message → List Frame
  | .single before _ => before
  | .chunked before start body _ => before ++ .startInd start :: body

/-- The last frame. -/
def last : Message → Chunk
  | .single _ whole => whole
  | .chunked _ _ _ last => last

/-- The number of chunks before the last frame. -/
def count (m : Message) : ℕ := m.frames.foldl Frame.count 0

/-- The content of the last frame. -/
def content (m : Message) : Bytes := m.last.content m.count

def lastBytes : Message → Bytes
  | .single before whole => rxFrame 0x35 0x00 (content (.single before whole))
  | .chunked before start body last => rxFrame 0x36 0x40 (content (.chunked before start body last))

/-- What the adapter sends. -/
def bytes (m : Message) : Bytes := framesBytes 0 m.frames ++ m.lastBytes

def payload (m : Message) : Bytes := m.frames.flatMap Frame.payload ++ m.last.payload

/-- What the length bytes say. -/
def lengths (m : Message) : List ℕ := framesLengths 0 m.frames ++ [m.content.length + 1]

/-- The frames are where they may be. -/
def Ordered : Message → Prop
  | .single before _ => ∀ f ∈ before, f.Between
  | .chunked before _ body _ => (∀ f ∈ before, f.Between) ∧ ∀ f ∈ body, f.Inside

/-- What the adapter can send: every length fits into its byte, and the payload into the message. -/
structure Valid (m : Message) : Prop where
  ordered : m.Ordered
  lengths : ∀ n ∈ m.lengths, n ≤ 255
  fits : m.payload.length ≤ passthruMsgDataSize

/-- No length byte is negative as a `char`, no chunk is dropped for a `txDone` frame, and the counter of the chunks
does not wrap. -/
structure Plain (m : Message) : Prop where
  lengths : ∀ n ∈ m.lengths, n ≤ 127
  kept : ∀ before kind content after, m.frames = before ++ .txDone kind content :: after →
    before.flatMap Frame.payload = []
  counted : ∀ before, before <+: m.frames → before.foldl Frame.count 0 < 0x10000000000000000

end Message

/-- The message that was read is the one that was sent. -/
structure Message.Stored (m : Message) (msg : PassThruMsg) : Prop where
  data : msg.data.toList.take m.payload.length = m.payload
  dataSize : msg.dataSize.toNat = m.payload.length
  timestamp : msg.timestamp = m.last.timestamp

/-- **The message is read right**, whatever the reader was before and whatever follows the message: it is stored, and
what follows is not read. -/
def Message.Delivered (m : Message) : Prop :=
  ∀ (toInt : Bytes → ℤ) (serial : SerialByteBuffer) (msgAck isTxDone : Bool) (msg : PassThruMsg) (timeout : UInt64)
    (rest : Bursts Byte), serial.bursts timeout.toUInt16.toNat = rest.prepend m.bytes →
      ∃ turns, ∀ fuel, turns ≤ fuel → ∃ reader num,
        passThruReadMsgs toInt fuel (.start serial msgAck isTxDone msg timeout) = .ok (reader, some num) ∧
          m.Stored reader.msg ∧ reader.stream = rest

/-! ### Copies -/

section Copies

variable {received : Bytes} {offset count i : ℕ} {reader : Reader}

/-- The bytes that are copied follow those that are stored. -/
theorem copyFrom_stores (hthere : i + offset + count ≤ received.length)
    (hfits : reader.msgIndex + count ≤ passthruMsgDataSize) :
    ∃ data, copyFrom received offset count i reader =
        .ok { reader with msg := { reader.msg with data }, msgIndex := reader.msgIndex + count } ∧
      data.toList.take (reader.msgIndex + count) =
        reader.msg.data.toList.take reader.msgIndex ++ (received.drop (i + offset)).take count := by
  induction count generalizing i reader with
  | zero =>
    refine ⟨reader.msg.data, rfl, ?_⟩
    rw [Nat.add_zero, List.take_zero, List.append_nil]
  | succ count ih =>
    have hlt : i + offset < received.length := by omega
    have hindex : reader.msgIndex < passthruMsgDataSize := by omega
    have hbyte : byteAt? received (i + offset) = .ok received[i + offset] :=
      byteAt?_eq_ok.2 (List.getElem?_eq_getElem hlt)
    have hstore : storeAt reader.msg reader.msgIndex received[i + offset] =
        .ok { reader.msg with data := reader.msg.data.set reader.msgIndex received[i + offset] hindex } :=
      dif_pos hindex
    obtain ⟨data, hcopy, hdata⟩ := @ih (i + 1) { reader with
      msg := { reader.msg with data := reader.msg.data.set reader.msgIndex received[i + offset] hindex }
      msgIndex := reader.msgIndex + 1 } (by omega) (by dsimp only; omega)
    refine ⟨data, ?_, ?_⟩
    · rw [copyFrom]
      refine bind_eq_ok.2 ⟨_, hbyte, bind_eq_ok.2 ⟨_, hstore, hcopy.trans ?_⟩⟩
      dsimp only
      rw [Nat.add_right_comm, Nat.add_assoc]
    · dsimp only at hdata
      have hset : (reader.msg.data.set reader.msgIndex received[i + offset] hindex).toList.take
          (reader.msgIndex + 1) = reader.msg.data.toList.take reader.msgIndex ++ [received[i + offset]] := by
        rw [Vector.toList_set, List.take_add_one, List.take_set_of_le (Nat.le_refl _),
          List.getElem?_set_self (by rw [Vector.length_toList]; exact hindex)]
        rfl
      rw [List.drop_eq_getElem_cons hlt, List.take_succ_cons, ← List.singleton_append, ← List.append_assoc, ← hset,
        show reader.msgIndex + (count + 1) = reader.msgIndex + 1 + count by omega, hdata, Nat.add_right_comm i 1]

end Copies

/-! ### What is left of a message -/

/-- What is stored after a frame: a chunk follows what was stored, and nothing is left of it when the adapter says
that something was sent. -/
def Frame.keep (stored : Bytes) : Frame → Bytes
  | .ack _ _ => stored
  | .txDone _ _ => []
  | .startInd _ => []
  | .chunk c => stored ++ c.payload

/-- The reader has read so many chunks, and has stored the bytes. -/
structure Reader.At (reader : Reader) (k : ℕ) (stored : Bytes) : Prop where
  chunkCnt : reader.chunkCnt = UInt64.ofNat k
  msgIndex : reader.msgIndex = stored.length
  data : reader.msg.data.toList.take stored.length = stored

section Heads

variable {kind msgType : Byte} {content : Bytes} {s : Bursts Byte}

/-- The length byte is read as a `char`: up to 127 it is the length. -/
theorem lengthOf_small : ∀ n < 127, lengthOf (UInt8.ofNat (n + 1)) = UInt64.ofNat n := by
  decide +kernel

/-- From 128 on it is negative, and so is the length, which is then taken for an unsigned number. -/
theorem lengthOf_large : ∀ n < 128, lengthOf (UInt8.ofNat (n + 128)) = UInt64.ofNat (0xFFFFFFFFFFFFFF7F + n) := by
  decide +kernel

/-- What a read of a frame finds. -/
theorem rxHead_prepend (hkind : frameKind kind = .rx) {payload : Bytes} {rest : Bursts Byte}
    (h : (s.prepend content).take (lengthOf (UInt8.ofNat (content.length + 1))).toUInt32.toNat = (payload, rest)) :
    RxHead (s.prepend (rxFrame kind msgType content)) kind (UInt8.ofNat (content.length + 1)) msgType payload rest := by
  have hthree : (s.prepend (rxFrame kind msgType content)).take 3 =
      ([0x61, 0x72, kind], s.prepend ([UInt8.ofNat (content.length + 1), msgType] ++ content)) := by
    rw [Bursts.take_prepend (by simp [rxFrame])]
    rfl
  have htwo : (s.prepend ([UInt8.ofNat (content.length + 1), msgType] ++ content)).take 2 =
      ([UInt8.ofNat (content.length + 1), msgType], s.prepend content) := by
    rw [Bursts.take_prepend (by simp)]
    rfl
  refine ⟨?_, hkind, ?_, ?_⟩
  · rw [hthree]
  · rw [hthree, htwo]
  · rw [hthree, htwo, h]

/-- The length of a frame is read right, when it is not negative as a `char`. -/
theorem rxHead_small (hkind : frameKind kind = .rx) (h : content.length + 1 ≤ 127) :
    lengthOf (UInt8.ofNat (content.length + 1)) = UInt64.ofNat content.length ∧
      RxHead (s.prepend (rxFrame kind msgType content)) kind (UInt8.ofNat (content.length + 1)) msgType content s := by
  have hlength := lengthOf_small content.length (by omega)
  refine ⟨hlength, rxHead_prepend hkind ?_⟩
  have hcount : (UInt64.ofNat content.length).toUInt32.toNat = content.length := by
    rw [UInt64.toNat_toUInt32, UInt64.toNat_ofNat_of_lt' (by rw [UInt64.size]; omega)]
    omega
  rw [hlength, hcount, Bursts.take_prepend (Nat.le_refl _), List.take_length, List.drop_length]
  rfl

/-- A length that is negative is more than what arrives: all of it is taken, up to the silence. -/
theorem rxHead_large (hkind : frameKind kind = .rx) (h : 128 ≤ content.length + 1) (h' : content.length + 1 ≤ 255)
    {more : Bytes} (hmore : content.length + more.length < 0xFFFFFF7F) :
    0xFFFFFFFFFFFFFF7F ≤ (lengthOf (UInt8.ofNat (content.length + 1))).toNat ∧
      RxHead ((⟨more, []⟩ : Bursts Byte).prepend (rxFrame kind msgType content)) kind
        (UInt8.ofNat (content.length + 1)) msgType (content ++ more) ⟨[], []⟩ := by
  have hlength := lengthOf_large (content.length - 127) (by omega)
  rw [show content.length - 127 + 128 = content.length + 1 by omega] at hlength
  have hvalue : (lengthOf (UInt8.ofNat (content.length + 1))).toNat = 0xFFFFFFFFFFFFFF7F + (content.length - 127) := by
    rw [hlength, UInt64.toNat_ofNat_of_lt' (by rw [UInt64.size]; omega)]
  refine ⟨by omega, rxHead_prepend hkind ?_⟩
  have hcount : ¬ (lengthOf (UInt8.ofNat (content.length + 1))).toUInt32.toNat ≤ (content ++ more).length := by
    rw [UInt64.toNat_toUInt32, hvalue, List.length_append]
    omega
  exact if_neg hcount

end Heads

/-! ### One frame -/

/-- What follows a computation that has not ended with a fault. -/
theorem bind_of_eq_ok {α β : Type} {m : Except Fault α} {a : α} (h : m = .ok a) (f : α → Except Fault β) :
    (m >>= f) = f a := by
  rw [h]
  rfl

section Frames

variable {reader : Reader} {s : Bursts Byte} {k : ℕ} {stored : Bytes}

/-- The next frame is read, and leaves another reader. -/
def Leads (reader reader' : Reader) : Prop :=
  ∀ toInt fuel turns, readNext toInt fuel (turns + 1) reader = readNext toInt fuel turns reader'

theorem leads_of_dispatch {reader' : Reader} (hne : (reader.readSerialData 3).1 ≠ [])
    (h : ∀ toInt fuel, dispatch toInt fuel (reader.readSerialData 3).1 (reader.readSerialData 3).2 =
      .ok (.continue, [], reader')) : Leads reader reader' :=
  fun toInt fuel _ => readLoop_cleared hne (h toInt fuel)

theorem header_ne_nil {kind length msgType : Byte} {payload : Bytes} {rest : Bursts Byte}
    (h : RxHead reader.stream kind length msgType payload rest) : (reader.readSerialData 3).1 ≠ [] := by
  rw [Reader.readSerialData_fst, h.header]
  exact List.cons_ne_nil _ _

/-- The head of a frame changes only the length. -/
theorem Reader.At.headed (h : reader.At k stored) (length : Byte) : (reader.headed length).At k stored :=
  ⟨h.chunkCnt, h.msgIndex, h.data⟩

theorem leads_ack {a b : Byte} (h : reader.At k stored)
    (hstream : reader.stream = s.prepend [0x61, 0x72, 0x6F, a, b]) :
    ∃ reader', Leads reader reader' ∧ reader'.At k stored ∧ reader'.stream = s := by
  have hthree : reader.stream.take 3 = ([0x61, 0x72, 0x6F], s.prepend [a, b]) := by
    rw [hstream, Bursts.take_prepend (by simp)]
    rfl
  refine ⟨{ (reader.readSerialData 3).2.skip 2 with msgAck := true }, leads_of_dispatch ?_ ?_, ?_, ?_⟩
  · rw [Reader.readSerialData_fst, hthree]
    exact List.cons_ne_nil _ _
  · intro toInt fuel
    rw [Reader.readSerialData_fst, hthree]
    rfl
  · exact ⟨h.chunkCnt, h.msgIndex, h.data⟩
  · show ((reader.readSerialData 3).2.readSerialData 2).2.stream = s
    rw [Reader.stream_readSerialData, Reader.stream_readSerialData, hthree, Bursts.take_prepend (by simp)]
    rfl

/-- A frame about what was sent drops what was stored. -/
theorem leads_txDone {kind : Byte} {content : Bytes} (hkind : frameKind kind = .rx)
    (hlength : content.length + 1 ≤ 127) (h : reader.At k stored)
    (hstream : reader.stream = s.prepend (rxFrame kind 0x10 content)) :
    ∃ reader', Leads reader reader' ∧ reader'.At k [] ∧ reader'.stream = s := by
  obtain ⟨-, hhead⟩ := @rxHead_small kind 0x10 content s hkind hlength
  rw [← hstream] at hhead
  have hreceived := received_headed hhead
  refine ⟨_, leads_of_dispatch (header_ne_nil hhead) (fun _ _ => (dispatch_rx hhead).trans rfl), ⟨h.chunkCnt, rfl, rfl⟩, ?_⟩
  show ((reader.headed _).readSerialData _).2.stream = s
  rw [Reader.stream_readSerialData]
  exact congrArg Prod.snd hreceived

/-- A message starts. -/
theorem leads_startInd {content : Bytes} (hlength : content.length + 1 ≤ 127)
    (hstream : reader.stream = s.prepend (rxFrame 0x36 0x80 content)) :
    ∃ reader', Leads reader reader' ∧ reader'.At 0 [] ∧ reader'.stream = s := by
  obtain ⟨-, hhead⟩ := @rxHead_small 0x36 0x80 content s rfl hlength
  rw [← hstream] at hhead
  have hreceived := received_headed hhead
  refine ⟨_, leads_of_dispatch (header_ne_nil hhead) (fun _ _ => (dispatch_rx hhead).trans rfl), ⟨rfl, rfl, rfl⟩, ?_⟩
  show ((reader.headed _).readSerialData _).2.stream = s
  rw [Reader.stream_readSerialData]
  exact congrArg Prod.snd hreceived

/-- What a chunk has before its payload. -/
theorem skipped_eq {kind : Byte} (hkind : kind = 0x35 ∨ kind = 0x36) (hk : k < 0x10000000000000000) :
    (skipped kind (UInt64.ofNat k)).toNat = if k = 0 then 4 else 8 := by
  rw [skipped, if_pos hkind, timestampSize]
  by_cases hzero : k = 0
  · subst hzero
    rfl
  · have hne : UInt64.ofNat k ≠ 0 := by
      intro heq
      have hnat := congrArg UInt64.toNat heq
      rw [UInt64.toNat_ofNat_of_lt' (by rw [UInt64.size]; omega)] at hnat
      exact hzero hnat
    rw [if_neg hne, if_neg hzero]
    rfl

theorem length_content (c : Chunk) :
    (c.content k).length = (if k = 0 then 4 else 8) + c.payload.length := by
  unfold Chunk.content
  split_ifs
  · simp
  · simp
    omega

/-- What is copied of a chunk is its payload. -/
theorem drop_content (c : Chunk) : (c.content k).drop (if k = 0 then 4 else 8) = c.payload := by
  unfold Chunk.content
  split_ifs
  · exact List.drop_left' (length_beBytes _)
  · rw [← List.append_assoc]
    exact List.drop_left' (by rw [List.length_append, length_beBytes, length_beBytes])

/-- The copy of a chunk whose payload fits. -/
theorem copy_chunk {kind length msgType : Byte} {c : Chunk} (hkind : kind = 0x35 ∨ kind = 0x36)
    (hk : k < 0x10000000000000000) (h : reader.At k stored) (hlength : (c.content k).length + 1 ≤ 127)
    (hcount : reader.msgByteCnt = UInt64.ofNat (c.content k).length)
    (hfits : stored.length + c.payload.length ≤ passthruMsgDataSize) :
    ∃ data, copyPayload ([0x61, 0x72, kind, length, msgType] ++ c.content k)
        (5 + (skipped kind reader.chunkCnt).toNat)
        { reader with msgByteCnt := reader.msgByteCnt - skipped kind reader.chunkCnt } =
      .ok { reader with
        msg := { reader.msg with data }
        msgByteCnt := reader.msgByteCnt - skipped kind reader.chunkCnt
        msgIndex := (stored ++ c.payload).length } ∧
      data.toList.take (stored ++ c.payload).length = stored ++ c.payload := by
  have hskip : (skipped kind reader.chunkCnt).toNat = if k = 0 then 4 else 8 := by
    rw [h.chunkCnt]
    exact skipped_eq hkind hk
  have hcontent := @length_content k c
  have hbytes : (reader.msgByteCnt - skipped kind reader.chunkCnt).toNat = c.payload.length := by
    have htotal : reader.msgByteCnt.toNat = (c.content k).length := by
      rw [hcount, UInt64.toNat_ofNat_of_lt' (by rw [UInt64.size]; omega)]
    rw [UInt64.toNat_sub_of_le _ _ (UInt64.le_iff_toNat_le.2 (by rw [hskip, htotal]; omega)), hskip, htotal]
    omega
  obtain ⟨data, hcopy, hdata⟩ := @copyFrom_stores ([0x61, 0x72, kind, length, msgType] ++ c.content k)
    (5 + (skipped kind reader.chunkCnt).toNat) c.payload.length 0
    { reader with msgByteCnt := reader.msgByteCnt - skipped kind reader.chunkCnt }
    (by rw [List.length_append, hskip, hcontent]; simp; omega) (by dsimp only; rw [h.msgIndex]; exact hfits)
  refine ⟨data, ?_, ?_⟩
  · rw [copyPayload]
    dsimp only
    rw [hbytes, hcopy]
    dsimp only
    rw [h.msgIndex, List.length_append]
  · dsimp only at hdata
    rw [List.length_append, ← h.msgIndex, hdata, h.msgIndex, h.data, hskip, Nat.zero_add, ← List.drop_drop]
    have hfive : ([0x61, 0x72, kind, length, msgType] ++ c.content k).drop 5 = c.content k := rfl
    rw [hfive, drop_content, List.take_length]

/-- A reader whose head and content have been read. -/
theorem Reader.At.appended (h : reader.At k stored) (rxStatus : UInt64) : (reader.appended rxStatus).At k stored :=
  ⟨h.chunkCnt, h.msgIndex, h.data⟩

/-- What a normal frame stores. -/
theorem handleNormFrame_stores {kind length msgType : Byte} {c : Chunk} (hkind : kind = 0x35 ∨ kind = 0x36)
    (hk : k < 0x10000000000000000) (h : reader.At k stored) (hlength : (c.content k).length + 1 ≤ 127)
    (hcount : reader.msgByteCnt = UInt64.ofNat (c.content k).length)
    (hfits : stored.length + c.payload.length ≤ passthruMsgDataSize) (hreceived : reader.received (c.content k) s) :
    ∃ copied, handleNormFrame [0x61, 0x72, kind, length, msgType] reader =
        (if kind = 0x35 then finishMessage ([0x61, 0x72, kind, length, msgType] ++ c.content k) copied
          else .ok (.continue, [], copied)) ∧
      copied.At (k + 1) (stored ++ c.payload) ∧ copied.stream = s := by
  obtain ⟨data, hcopy, hdata⟩ := @copy_chunk (reader.appended 0) k stored kind length msgType c hkind hk
    (h.appended 0) hlength hcount hfits
  refine ⟨_, (handleNormFrame_eq hreceived).trans (bind_of_eq_ok hcopy _), ⟨?_, rfl, hdata⟩, ?_⟩
  · show reader.chunkCnt + 1 = UInt64.ofNat (k + 1)
    rw [h.chunkCnt, UInt64.ofNat_add]
    rfl
  · exact stream_appended hreceived 0

/-- A chunk is stored behind the ones before. -/
theorem leads_chunk {c : Chunk} (hk : k < 0x10000000000000000) (hlength : (c.content k).length + 1 ≤ 127)
    (hfits : stored.length + c.payload.length ≤ passthruMsgDataSize) (h : reader.At k stored)
    (hstream : reader.stream = s.prepend (rxFrame 0x36 0x00 (c.content k))) :
    ∃ reader', Leads reader reader' ∧ reader'.At (k + 1) (stored ++ c.payload) ∧ reader'.stream = s := by
  obtain ⟨hvalue, hhead⟩ := @rxHead_small 0x36 0x00 (c.content k) s rfl hlength
  rw [← hstream] at hhead
  obtain ⟨copied, hnorm, hat, hrest⟩ := @handleNormFrame_stores (reader.headed _) s k stored 0x36
    (UInt8.ofNat ((c.content k).length + 1)) 0x00 c (.inr rfl) hk (h.headed _) hlength hvalue hfits
    (received_headed hhead)
  exact ⟨copied, leads_of_dispatch (header_ne_nil hhead) (fun _ _ => (dispatch_rx hhead).trans hnorm), hat, hrest⟩

/-- The end of a message takes its timestamp from the last frame. -/
theorem finishMessage_eq (kind length msgType : Byte) (c : Chunk) (j : ℕ) (h : reader.At k stored) :
    finishMessage ([0x61, 0x72, kind, length, msgType] ++ c.content j) reader = .ok (.stop, [], { reader with
      msg := { reader.msg with timestamp := c.timestamp, dataSize := UInt64.ofNat stored.length }
      msgCnt := reader.msgCnt + 1 }) := by
  have hfinish : finishMessage ([0x61, 0x72, kind, length, msgType] ++ c.content j) reader =
      .ok (.stop, [], { reader with
        msg := { reader.msg with
          timestamp := wordBe (byteOf c.timestamp 24) (byteOf c.timestamp 16) (byteOf c.timestamp 8)
            (byteOf c.timestamp 0)
          dataSize := UInt64.ofNat reader.msgIndex }
        msgCnt := reader.msgCnt + 1 }) := rfl
  rw [hfinish, wordBe_byteOf, h.msgIndex]

/-- A reader that has finished a message. -/
structure Reader.Finished (reader : Reader) (stored : Bytes) (timestamp : UInt32) : Prop where
  data : reader.msg.data.toList.take stored.length = stored
  dataSize : reader.msg.dataSize = UInt64.ofNat stored.length
  timestamp : reader.msg.timestamp = timestamp

/-- The next frame ends the message. -/
def Stops (reader reader' : Reader) : Prop :=
  ∀ toInt fuel turns, readNext toInt fuel (turns + 1) reader = .ok (reader', some reader'.msgCnt)

theorem stops_of_dispatch {reader' : Reader} (hne : (reader.readSerialData 3).1 ≠ [])
    (h : ∀ toInt fuel, dispatch toInt fuel (reader.readSerialData 3).1 (reader.readSerialData 3).2 =
      .ok (.stop, [], reader')) : Stops reader reader' := by
  intro toInt fuel turns
  rw [readNext, readLoop, if_neg hne, h]
  rfl

/-- A message in one frame is stored. -/
theorem stops_single {c : Chunk} (hk : k < 0x10000000000000000) (hlength : (c.content k).length + 1 ≤ 127)
    (hfits : stored.length + c.payload.length ≤ passthruMsgDataSize) (h : reader.At k stored)
    (hstream : reader.stream = s.prepend (rxFrame 0x35 0x00 (c.content k))) :
    ∃ reader', Stops reader reader' ∧ reader'.Finished (stored ++ c.payload) c.timestamp ∧
      reader'.stream = s := by
  obtain ⟨hvalue, hhead⟩ := @rxHead_small 0x35 0x00 (c.content k) s rfl hlength
  rw [← hstream] at hhead
  obtain ⟨copied, hnorm, hat, hrest⟩ := @handleNormFrame_stores (reader.headed _) s k stored 0x35
    (UInt8.ofNat ((c.content k).length + 1)) 0x00 c (.inl rfl) hk (h.headed _) hlength hvalue hfits
    (received_headed hhead)
  have hfinish := finishMessage_eq 0x35 (UInt8.ofNat ((c.content k).length + 1)) 0x00 c k hat
  refine ⟨_, stops_of_dispatch (header_ne_nil hhead) (fun _ _ => (dispatch_rx hhead).trans (hnorm.trans hfinish)),
    ⟨hat.data, rfl, rfl⟩, hrest⟩

/-- The end of a message has its last chunk. -/
theorem stops_end {c : Chunk} (hk : k < 0x10000000000000000) (hlength : (c.content k).length + 1 ≤ 127)
    (hfits : stored.length + c.payload.length ≤ passthruMsgDataSize) (h : reader.At k stored)
    (hstream : reader.stream = s.prepend (rxFrame 0x36 0x40 (c.content k))) :
    ∃ reader', Stops reader reader' ∧ reader'.Finished (stored ++ c.payload) c.timestamp ∧
      reader'.stream = s := by
  obtain ⟨hvalue, hhead⟩ := @rxHead_small 0x36 0x40 (c.content k) s rfl hlength
  rw [← hstream] at hhead
  have hreceived := received_headed hhead
  obtain ⟨data, hcopy, hdata⟩ := @copy_chunk ((reader.headed _).appended 0x40) k stored 0x36
    (UInt8.ofNat ((c.content k).length + 1)) 0x40 c (.inr rfl) hk ((h.headed _).appended 0x40) hlength hvalue hfits
  have hend := (@handleRxMessage_endInd (reader.headed _) 0x36 (UInt8.ofNat ((c.content k).length + 1)) 0x40 _ _
    hreceived rfl).trans (bind_of_eq_ok ((copyEndPayload_timed rfl _ _).trans hcopy) _)
  have hfinish := hend.trans (finishMessage_eq 0x36 (UInt8.ofNat ((c.content k).length + 1)) 0x40 c k
    ⟨h.chunkCnt, rfl, hdata⟩)
  exact ⟨_, stops_of_dispatch (header_ne_nil hhead) (fun _ _ => (dispatch_rx hhead).trans hfinish), ⟨hdata, rfl, rfl⟩,
    stream_appended hreceived 0x40⟩

/-! ### A negative length -/

/-- Whatever the reader ends with, it has read all that arrives. -/
def Misses (reader : Reader) : Prop :=
  ∀ toInt fuel turns reader' num, readNext toInt fuel turns reader = .ok (reader', num) → reader'.stream = ⟨[], []⟩

theorem Misses.of_leads {reader' : Reader} (hleads : Leads reader reader')
    (h : Misses reader') : Misses reader := by
  intro toInt fuel turns last num hread
  cases turns with
  | zero => cases hread
  | succ turns =>
    rw [hleads toInt fuel turns] at hread
    exact h toInt fuel turns last num hread

/-- Silence is the end. -/
theorem misses_silence (h : reader.stream = ⟨[], []⟩) : Misses reader := by
  intro toInt fuel turns last num hread
  cases turns with
  | zero => cases hread
  | succ turns =>
    have hnothing : (reader.readSerialData 3).1 = [] := by
      rw [Reader.readSerialData_fst, h]
      rfl
    rw [readNext, hnothing] at hread
    cases hread
    rw [Reader.stream_readSerialData, h]
    rfl

/-- A negative length takes all that arrives. -/
theorem misses_large {kind msgType : Byte} {content more : Bytes}
    (hframe : (frameKind kind = .rx ∧ msgType = 0x10) ∨ (kind = 0x36 ∧ msgType = 0x80) ∨
      ((kind = 0x35 ∨ kind = 0x36) ∧ msgType = 0x00) ∨ (kind = 0x36 ∧ msgType = 0x40))
    (h : 128 ≤ content.length + 1) (h' : content.length + 1 ≤ 255) (hmore : content.length + more.length < 0xFFFFFF7F)
    (hstream : reader.stream = (⟨more, []⟩ : Bursts Byte).prepend (rxFrame kind msgType content)) :
    Misses reader := by
  have hkind : frameKind kind = .rx := by
    rcases hframe with ⟨hkind, -⟩ | ⟨rfl, -⟩ | ⟨rfl | rfl, -⟩ | ⟨rfl, -⟩
    · exact hkind
    all_goals rfl
  obtain ⟨hvalue, hhead⟩ := @rxHead_large kind msgType content hkind h h' more hmore
  rw [← hstream] at hhead
  have hreceived := received_headed hhead
  have hrest : ∀ n, n = (reader.headed (UInt8.ofNat (content.length + 1))).byteCount →
      ((reader.headed (UInt8.ofNat (content.length + 1))).readSerialData n).2.stream = ⟨[], []⟩ := by
    rintro n rfl
    rw [Reader.stream_readSerialData]
    exact congrArg Prod.snd hreceived
  have htoo : ∀ skip : UInt64, skip.toNat ≤ 8 → ∀ index,
      ¬ Copies (content ++ more) skip (lengthOf (UInt8.ofNat (content.length + 1))) index := by
    rintro skip hskip index ⟨-, hcopies⟩
    obtain ⟨hthere, -⟩ := hcopies (UInt64.lt_iff_toNat_lt.2 (by omega))
    rw [List.length_append] at hthere
    omega
  have hsmall : ∀ chunkCnt, (skipped kind chunkCnt).toNat ≤ 8 := by
    intro chunkCnt
    unfold skipped timestampSize
    split_ifs <;> decide
  -- a frame with a message that is dispatched has copied more than there is
  have hfault : (∀ r, handleRxMessage [0x61, 0x72, kind, UInt8.ofNat (content.length + 1), msgType] msgType
      (reader.headed (UInt8.ofNat (content.length + 1))) ≠ .ok r) → Misses reader := by
    intro hno toInt fuel turns last num hread
    obtain ⟨turns', r, -, hdispatch⟩ := dispatch_of_ends (header_ne_nil hhead) ⟨_, hread⟩
    rw [dispatch_rx hhead] at hdispatch
    exact absurd hdispatch (hno r)
  rcases hframe with ⟨-, rfl⟩ | ⟨rfl, rfl⟩ | ⟨-, rfl⟩ | ⟨rfl, rfl⟩
  · exact .of_leads (leads_of_dispatch (header_ne_nil hhead) fun _ _ => (dispatch_rx hhead).trans rfl)
      (misses_silence (hrest _ rfl))
  · exact .of_leads (leads_of_dispatch (header_ne_nil hhead) fun _ _ => (dispatch_rx hhead).trans rfl)
      (misses_silence (hrest _ rfl))
  · refine hfault fun r hr => ?_
    obtain ⟨hcopies, -⟩ := of_handleNormFrame hreceived (show handleNormFrame _ _ = .ok r from hr)
    exact htoo _ (hsmall _) _ hcopies
  · refine hfault fun r hr => ?_
    obtain ⟨hcopies, -⟩ := of_handleRxMessage_end hreceived rfl hr
    exact htoo _ (hsmall _) _ (hcopies rfl)

end Frames

/-! ### A message -/

section Messages

/-- The frames lead to another reader, one after another. -/
def LeadsBy (n : ℕ) (reader reader' : Reader) : Prop :=
  ∀ toInt fuel turns, readNext toInt fuel (turns + n) reader = readNext toInt fuel turns reader'

theorem LeadsBy.cons {n : ℕ} {reader reader' reader'' : Reader} (h : Leads reader reader')
    (h' : LeadsBy n reader' reader'') : LeadsBy (n + 1) reader reader'' := by
  intro toInt fuel turns
  rw [← Nat.add_assoc, h toInt fuel, h']

/-- A frame of a kind that the adapter sends. -/
def Frame.Sent : Frame → Prop
  | .txDone kind _ => frameKind kind = .rx
  | _ => True

variable {reader : Reader} {s : Bursts Byte} {k : ℕ} {stored : Bytes} {frames : List Frame}

/-- **One frame** leads to a reader that has counted it and has stored what it leaves. -/
theorem frame_leads {f : Frame} (hsent : f.Sent) (hlengths : ∀ n ∈ f.lengths k, n ≤ 127)
    (hk : k < 0x10000000000000000) (hfits : stored.length + f.payload.length ≤ passthruMsgDataSize)
    (h : reader.At k stored) (hstream : reader.stream = s.prepend (f.bytes k)) :
    ∃ reader', Leads reader reader' ∧ reader'.At (f.count k) (f.keep stored) ∧ reader'.stream = s := by
  cases f with
  | ack a b => exact leads_ack h hstream
  | txDone kind content => exact leads_txDone hsent (hlengths _ (List.mem_singleton_self _)) h hstream
  | startInd content => exact leads_startInd (hlengths _ (List.mem_singleton_self _)) hstream
  | chunk c => exact leads_chunk hk (hlengths _ (List.mem_singleton_self _)) hfits h hstream

/-- What is kept is not more than there was. -/
theorem length_keep_le (f : Frame) : (f.keep stored).length ≤ stored.length + f.payload.length := by
  cases f with
  | chunk c => exact (List.length_append ..).le
  | ack a b => exact Nat.le_add_right _ _
  | _ => exact Nat.zero_le _

/-- **The frames of a message**, whose lengths are read right. -/
theorem frames_lead (hsent : ∀ f ∈ frames, f.Sent) (hlengths : ∀ n ∈ framesLengths k frames, n ≤ 127)
    (hcount : ∀ before, before <+: frames → before.foldl Frame.count k < 0x10000000000000000)
    (hfits : stored.length + (frames.flatMap Frame.payload).length ≤ passthruMsgDataSize) (h : reader.At k stored)
    (hstream : reader.stream = s.prepend (framesBytes k frames)) :
    ∃ reader', LeadsBy frames.length reader reader' ∧
      reader'.At (frames.foldl Frame.count k) (frames.foldl Frame.keep stored) ∧ reader'.stream = s := by
  induction frames generalizing reader k stored with
  | nil => exact ⟨reader, fun _ _ _ => rfl, h, hstream⟩
  | cons f frames ih =>
    rw [List.flatMap_cons, List.length_append] at hfits
    rw [framesBytes, ← Bursts.prepend_prepend] at hstream
    obtain ⟨reader', hleads, hat, hrest⟩ := frame_leads (hsent f (List.mem_cons_self ..))
      (fun n hn => hlengths n (List.mem_append_left _ hn)) (hcount [] List.nil_prefix) (by omega) h hstream
    have hkeep := @length_keep_le stored f
    obtain ⟨last, hlast, hat', hrest'⟩ := ih (fun f' hf' => hsent f' (List.mem_cons_of_mem _ hf'))
      (fun n hn => hlengths n (List.mem_append_right _ hn))
      (fun before hbefore => hcount (f :: before) (List.cons_prefix_cons.2 ⟨rfl, hbefore⟩)) (by omega) hat hrest
    exact ⟨last, .cons hleads hlast, hat', hrest'⟩

/-- A length that is negative hides the rest. -/
theorem frame_misses {f : Frame} {more : Bytes} (hsent : f.Sent) (h : ∃ n ∈ f.lengths k, 127 < n)
    (h' : ∀ n ∈ f.lengths k, n ≤ 255) (hmore : (f.bytes k).length + more.length < 0xFFFFFF7F)
    (hstream : reader.stream = (⟨more, []⟩ : Bursts Byte).prepend (f.bytes k)) : Misses reader := by
  obtain ⟨n, hn, hlarge⟩ := h
  have hle := h' n hn
  cases f with
  | ack a b => cases hn
  | txDone kind content =>
    rw [List.mem_singleton.1 hn] at hlarge hle
    refine misses_large (.inl ⟨hsent, rfl⟩) (by omega) hle ?_ hstream
    rw [Frame.bytes, length_rxFrame] at hmore
    omega
  | startInd content =>
    rw [List.mem_singleton.1 hn] at hlarge hle
    refine misses_large (.inr (.inl ⟨rfl, rfl⟩)) (by omega) hle ?_ hstream
    rw [Frame.bytes, length_rxFrame] at hmore
    omega
  | chunk c =>
    rw [List.mem_singleton.1 hn] at hlarge hle
    refine misses_large (.inr (.inr (.inl ⟨.inr rfl, rfl⟩))) (by omega) hle ?_ hstream
    rw [Frame.bytes, length_rxFrame] at hmore
    omega

theorem frames_miss {more : Bytes} (hsent : ∀ f ∈ frames, f.Sent) (h : ∃ n ∈ framesLengths k frames, 127 < n)
    (h' : ∀ n ∈ framesLengths k frames, n ≤ 255)
    (hcount : ∀ before, before <+: frames → before.foldl Frame.count k < 0x10000000000000000)
    (hfits : stored.length + (frames.flatMap Frame.payload).length ≤ passthruMsgDataSize)
    (hmore : (framesBytes k frames).length + more.length < 0xFFFFFF7F) (hat : reader.At k stored)
    (hstream : reader.stream = (⟨more, []⟩ : Bursts Byte).prepend (framesBytes k frames)) : Misses reader := by
  induction frames generalizing reader k stored with
  | nil =>
    obtain ⟨n, hn, -⟩ := h
    cases hn
  | cons f frames ih =>
    rw [List.flatMap_cons, List.length_append] at hfits
    rw [framesBytes, List.length_append] at hmore
    rw [framesBytes, ← Bursts.prepend_prepend] at hstream
    by_cases hsmall : ∀ n ∈ f.lengths k, n ≤ 127
    · obtain ⟨reader', hleads, hat', hrest⟩ := frame_leads (hsent f (List.mem_cons_self ..)) hsmall
        (hcount [] List.nil_prefix) (by omega) hat hstream
      have hkeep := @length_keep_le stored f
      obtain ⟨n, hn, hlarge⟩ := h
      have hlater : n ∈ framesLengths (f.count k) frames := by
        refine (List.mem_append.1 hn).resolve_left fun hfirst => ?_
        have hle := hsmall n hfirst
        omega
      exact .of_leads hleads (ih (fun f' hf' => hsent f' (List.mem_cons_of_mem _ hf')) ⟨n, hlater, hlarge⟩
        (fun n hn => h' n (List.mem_append_right _ hn))
        (fun before hbefore => hcount (f :: before) (List.cons_prefix_cons.2 ⟨rfl, hbefore⟩)) (by omega) (by omega)
        hat' hrest)
    · push Not at hsmall
      exact @frame_misses reader k f (framesBytes (f.count k) frames ++ more) (hsent f (List.mem_cons_self ..)) hsmall
        (fun n hn => h' n (List.mem_append_left _ hn)) (by rw [List.length_append]; omega) hstream

/-! ### What is dropped -/

/-- A frame after which nothing is left of what was stored. -/
def Frame.Resets : Frame → Prop
  | .txDone _ _ => True
  | .startInd _ => True
  | _ => False

theorem length_foldl_keep_le (frames : List Frame) (stored : Bytes) :
    (frames.foldl Frame.keep stored).length ≤ stored.length + (frames.flatMap Frame.payload).length := by
  induction frames generalizing stored with
  | nil => exact Nat.le_refl _
  | cons f frames ih =>
    have hkeep := @length_keep_le stored f
    have hrest := ih (f.keep stored)
    rw [List.foldl_cons, List.flatMap_cons, List.length_append]
    omega

/-- Nothing is dropped when nothing was stored at the frames that drop it. -/
theorem foldl_keep_of (h : ∀ before f after, frames = before ++ f :: after → f.Resets →
      stored ++ before.flatMap Frame.payload = []) :
    frames.foldl Frame.keep stored = stored ++ frames.flatMap Frame.payload := by
  induction frames generalizing stored with
  | nil => exact (List.append_nil _).symm
  | cons f frames ih =>
    have hkeep : f.keep stored = stored ++ f.payload := by
      cases f with
      | ack a b => exact (List.append_nil _).symm
      | chunk c => rfl
      | txDone kind content =>
        have hnil := h [] _ frames rfl trivial
        rw [List.flatMap_nil, List.append_nil] at hnil
        rw [hnil]
        rfl
      | startInd content =>
        have hnil := h [] _ frames rfl trivial
        rw [List.flatMap_nil, List.append_nil] at hnil
        rw [hnil]
        rfl
    rw [List.foldl_cons, hkeep, List.flatMap_cons, ← List.append_assoc]
    refine ih fun before f' after hsplit hresets => ?_
    rw [List.append_assoc, ← List.flatMap_cons]
    exact h (f :: before) f' after (by rw [hsplit, List.cons_append]) hresets

/-- What is dropped is missing. -/
theorem of_length_foldl_keep
    (h : (frames.foldl Frame.keep stored).length = stored.length + (frames.flatMap Frame.payload).length)
    {before after : List Frame} {f : Frame} (hsplit : frames = before ++ f :: after) (hresets : f.Resets) :
    stored ++ before.flatMap Frame.payload = [] := by
  rw [hsplit, List.foldl_append, List.foldl_cons, List.flatMap_append, List.flatMap_cons, List.length_append,
    List.length_append] at h
  have hafter := length_foldl_keep_le after (f.keep (before.foldl Frame.keep stored))
  have hnone : f.keep (before.foldl Frame.keep stored) = [] ∧ f.payload = [] := by
    cases f with
    | txDone kind content => exact ⟨rfl, rfl⟩
    | startInd content => exact ⟨rfl, rfl⟩
    | _ => exact hresets.elim
  rw [hnone.1] at h hafter
  rw [hnone.2, List.length_nil] at h
  rw [List.length_nil] at hafter
  refine List.eq_nil_of_length_eq_zero ?_
  rw [List.length_append]
  omega

end Messages

/-! ### The messages that are read right -/

namespace Message

variable {m : Message}

theorem Valid.sent (h : m.Valid) : ∀ f ∈ m.frames, f.Sent := by
  have hbetween : ∀ f : Frame, f.Between → f.Sent := fun f hf => by
    cases f with
    | txDone kind content => exact hf
    | _ => trivial
  have hinside : ∀ f : Frame, f.Inside → f.Sent := fun f hf => by
    cases f with
    | txDone kind content => exact hf
    | _ => trivial
  have hordered := h.ordered
  cases m with
  | single before whole => exact fun f hf => hbetween f (hordered f hf)
  | chunked before start body last =>
    intro f hf
    rcases List.mem_append.1 hf with hf | hf
    · exact hbetween f (hordered.1 f hf)
    · rcases List.mem_cons.1 hf with rfl | hf
      · trivial
      · exact hinside f (hordered.2 f hf)

/-- A message has one start, before which there is no chunk. -/
theorem Valid.before_start (h : m.Valid) {before after : List Frame} {content : Bytes}
    (hsplit : m.frames = before ++ .startInd content :: after) : before.flatMap Frame.payload = [] := by
  have hbetween : ∀ frames : List Frame, (∀ f ∈ frames, f.Between) → frames.flatMap Frame.payload = [] := by
    intro frames hframes
    refine List.flatMap_eq_nil_iff.2 fun f hf => ?_
    cases f with
    | chunk c => exact (hframes _ hf).elim
    | _ => rfl
  have hordered := h.ordered
  cases m with
  | single before' whole =>
    refine absurd (hordered (.startInd content) ?_) id
    rw [show before' = before ++ .startInd content :: after from hsplit]
    exact List.mem_append_right _ (List.mem_cons_self ..)
  | chunked before' start body last =>
    have hframes : before' ++ .startInd start :: body = before ++ .startInd content :: after := hsplit
    refine hbetween before fun f hf => ?_
    rcases List.append_eq_append_iff.1 hframes with ⟨rest, hbefore, hrest⟩ | ⟨rest, hbefore, -⟩
    · cases rest with
      | nil =>
        rw [hbefore, List.append_nil] at hf
        exact hordered.1 f hf
      | cons f' rest =>
        -- a second start would be in the body
        rw [List.cons_append, List.cons.injEq] at hrest
        refine absurd (hordered.2 (.startInd content) ?_) id
        rw [hrest.2]
        exact List.mem_append_right _ (List.mem_cons_self ..)
    · refine hordered.1 f ?_
      rw [hbefore]
      exact List.mem_append_left _ hf

/-- What is stored of a plain message is all of it. -/
theorem Plain.keep_eq (hplain : m.Plain) (h : m.Valid) :
    m.frames.foldl Frame.keep [] = m.frames.flatMap Frame.payload := by
  refine foldl_keep_of fun before f after hsplit hresets => ?_
  rw [List.nil_append]
  cases f with
  | txDone kind content => exact hplain.kept before kind content after hsplit
  | startInd content => exact h.before_start hsplit
  | _ => exact hresets.elim

/-- The frames of a message lead to its last one. -/
theorem frames_lead (h : m.Valid) (hlengths : ∀ n ∈ m.lengths, n ≤ 127)
    (hcount : ∀ before, before <+: m.frames → before.foldl Frame.count 0 < 0x10000000000000000) {reader : Reader}
    {s : Bursts Byte} (hat : reader.At 0 []) (hstream : reader.stream = s.prepend m.bytes) :
    ∃ reader' last, LeadsBy m.frames.length reader reader' ∧ Stops reader' last ∧
      last.Finished (m.frames.foldl Frame.keep [] ++ m.last.payload) m.last.timestamp ∧ last.stream = s := by
  have hfits := h.fits
  rw [payload, List.length_append] at hfits
  rw [bytes, ← Bursts.prepend_prepend] at hstream
  obtain ⟨reader', hleads, hat', hrest⟩ := J2534.frames_lead h.sent
    (fun n hn => hlengths n (List.mem_append_left _ hn)) hcount (by rw [List.length_nil]; omega) hat hstream
  have hkept := length_foldl_keep_le m.frames []
  rw [List.length_nil, Nat.zero_add] at hkept
  have hk := hcount m.frames (List.prefix_refl _)
  have hlast : m.content.length + 1 ≤ 127 := hlengths _ (List.mem_append_right _ (List.mem_singleton_self _))
  have hstops : ∃ last, Stops reader' last ∧
      last.Finished (m.frames.foldl Frame.keep [] ++ m.last.payload) m.last.timestamp ∧ last.stream = s := by
    cases m with
    | single before whole => exact stops_single hk hlast (by omega) hat' hrest
    | chunked before start body last => exact stops_end hk hlast (by omega) hat' hrest
  obtain ⟨last, hstop, hfinished, hend⟩ := hstops
  exact ⟨reader', last, hleads, hstop, hfinished, hend⟩

/-- A call reads the frames and the last one. -/
theorem passThruReadMsgs_eq {n fuel : ℕ} {toInt : Bytes → ℤ} {reader reader' last : Reader}
    (hleads : LeadsBy n reader reader') (hstops : Stops reader' last) (h : n + 1 ≤ fuel) :
    passThruReadMsgs toInt fuel reader = .ok (last, some last.msgCnt) := by
  obtain ⟨turns, rfl⟩ : ∃ turns, fuel = turns + 1 + n := ⟨fuel - n - 1, by omega⟩
  have hcall : passThruReadMsgs toInt (turns + 1 + n) reader = readNext toInt (turns + 1 + n) (turns + 1 + n) reader :=
    rfl
  rw [hcall, hleads, hstops]

/-- A plain message is read right. -/
theorem Plain.delivered (hplain : m.Plain) (h : m.Valid) : m.Delivered := by
  intro toInt serial msgAck isTxDone msg timeout rest hstream
  obtain ⟨reader', last, hleads, hstops, hfinished, hend⟩ := @frames_lead m h hplain.lengths hplain.counted
    (.start serial msgAck isTxDone msg timeout) rest ⟨rfl, rfl, rfl⟩ hstream
  rw [hplain.keep_eq h, ← payload] at hfinished
  have hfits : m.payload.length ≤ 4128 := h.fits
  refine ⟨m.frames.length + 1, fun fuel hfuel => ⟨last, last.msgCnt, passThruReadMsgs_eq hleads hstops hfuel,
    ⟨hfinished.data, ?_, hfinished.timestamp⟩, hend⟩⟩
  rw [hfinished.dataSize, UInt64.toNat_ofNat_of_lt' (by rw [UInt64.size]; omega)]

theorem count_le (frames : List Frame) (k : ℕ) : frames.foldl Frame.count k ≤ k + frames.length := by
  induction frames generalizing k with
  | nil => exact Nat.le_refl _
  | cons f frames ih =>
    have hrest := ih (f.count k)
    have hone : f.count k ≤ k + 1 := by
      cases f with
      | chunk c => exact Nat.le_refl _
      | startInd content => exact Nat.zero_le _
      | _ => exact Nat.le_add_right _ _
    rw [List.foldl_cons, List.length_cons]
    omega

theorem length_le_bytes (frames : List Frame) (k : ℕ) : frames.length ≤ (framesBytes k frames).length := by
  induction frames generalizing k with
  | nil => exact Nat.le_refl _
  | cons f frames ih =>
    have hrest := ih (f.count k)
    have hone : 5 ≤ (f.bytes k).length := by
      cases f with
      | ack a b => exact Nat.le_refl _
      | _ =>
        rw [Frame.bytes, length_rxFrame]
        exact Nat.le_add_right _ _
    rw [framesBytes, List.length_append, List.length_cons]
    omega

/-- The counter of the chunks does not wrap in a message of less than four gibibytes. -/
theorem counted_of_size (hsize : m.bytes.length < 0xFFFFFF00) {before : List Frame} (h : before <+: m.frames) :
    before.foldl Frame.count 0 < 0x10000000000000000 := by
  have hcount := count_le before 0
  have hframes := length_le_bytes m.frames 0
  have hle := h.length_le
  rw [bytes, List.length_append] at hsize
  omega

/-- A negative length hides what follows the message. -/
theorem lengths_of_delivered (h : m.Valid) (hsize : m.bytes.length < 0xFFFFFF00) {reader last : Reader}
    {num : Option UInt64} {toInt : Bytes → ℤ} {fuel : ℕ} (hfuel : m.frames.length ≤ fuel) (hat : reader.At 0 [])
    (hstream : reader.stream = (⟨[0x00], []⟩ : Bursts Byte).prepend m.bytes)
    (hread : passThruReadMsgs toInt fuel reader = .ok (last, num)) (hend : last.stream = ⟨[0x00], []⟩) :
    ∀ n ∈ m.lengths, n ≤ 127 := by
  have hfits := h.fits
  rw [payload, List.length_append] at hfits
  have hcounted : ∀ before, before <+: m.frames → before.foldl Frame.count 0 < 0x10000000000000000 :=
    fun before hbefore => counted_of_size hsize hbefore
  rw [bytes, List.length_append] at hsize
  rw [bytes, ← Bursts.prepend_prepend] at hstream
  have hnot : last.stream ≠ ⟨[], []⟩ := by
    rw [hend]
    decide
  have hframes : ∀ n ∈ framesLengths 0 m.frames, n ≤ 127 := by
    by_contra hlarge
    push Not at hlarge
    have hmiss := @frames_miss reader 0 [] m.frames (m.lastBytes ++ [0x00]) h.sent hlarge
      (fun n hn => h.lengths n (List.mem_append_left _ hn)) hcounted (by rw [List.length_nil]; omega)
      (by rw [List.length_append, List.length_singleton]; omega) hat hstream
    exact hnot (hmiss toInt fuel fuel last num hread)
  intro n hn
  rcases List.mem_append.1 hn with hn | hn
  · exact hframes n hn
  · rw [List.mem_singleton.1 hn]
    by_contra hlarge
    obtain ⟨reader', hleads, -, hrest⟩ := J2534.frames_lead h.sent hframes hcounted
      (by rw [List.length_nil]; omega) hat hstream
    have hle := h.lengths _ (List.mem_append_right _ (List.mem_singleton_self _))
    have hmiss : Misses reader' := by
      cases m with
      | single before whole =>
        rw [lastBytes, length_rxFrame] at hsize
        exact @misses_large reader' 0x35 0x00 _ [0x00] (.inr (.inr (.inl ⟨.inl rfl, rfl⟩))) (by omega) hle
          (by rw [List.length_singleton]; omega) hrest
      | chunked before start body last =>
        rw [lastBytes, length_rxFrame] at hsize
        exact @misses_large reader' 0x36 0x40 _ [0x00] (.inr (.inr (.inr ⟨rfl, rfl⟩))) (by omega) hle
          (by rw [List.length_singleton]; omega) hrest
    obtain ⟨turns, rfl⟩ : ∃ turns, fuel = turns + m.frames.length := ⟨fuel - m.frames.length, by omega⟩
    have hcall : passThruReadMsgs toInt (turns + m.frames.length) reader =
        readNext toInt (turns + m.frames.length) (turns + m.frames.length) reader := rfl
    rw [hcall, hleads] at hread
    exact hnot (hmiss toInt _ turns last num hread)

/-- A message that is read right is plain, unless it has four gibibytes. -/
theorem Delivered.plain (hdelivered : m.Delivered) (h : m.Valid) (hsize : m.bytes.length < 0xFFFFFF00) : m.Plain := by
  have hcounted : ∀ before, before <+: m.frames → before.foldl Frame.count 0 < 0x10000000000000000 :=
    fun before hbefore => counted_of_size hsize hbefore
  have hstream : (⟨m.bytes ++ [0x00], []⟩ : SerialByteBuffer).bursts (0 : UInt64).toUInt16.toNat =
      (⟨[0x00], []⟩ : Bursts Byte).prepend m.bytes := by
    show (⟨(m.bytes ++ [0x00]) ++ [], []⟩ : Bursts Byte) = ⟨m.bytes ++ [0x00], []⟩
    rw [List.append_nil]
  obtain ⟨turns, hturns⟩ := hdelivered (fun _ => 0) ⟨m.bytes ++ [0x00], []⟩ false false
    ⟨0, 0, 0, Vector.replicate passthruMsgDataSize 0⟩ 0 ⟨[0x00], []⟩ hstream
  obtain ⟨reader, num, hread, hstored, hend⟩ := hturns (turns + (m.frames.length + 1)) (by omega)
  have hlengths := @lengths_of_delivered m h hsize (.start ⟨m.bytes ++ [0x00], []⟩ false false
    ⟨0, 0, 0, Vector.replicate passthruMsgDataSize 0⟩ 0) reader _ _ _ (by omega) ⟨rfl, rfl, rfl⟩ hstream hread hend
  refine ⟨hlengths, fun before kind content after hsplit => ?_, hcounted⟩
  obtain ⟨reader', last, hleads, hstops, hfinished, -⟩ := @frames_lead m h hlengths hcounted
    (.start ⟨m.bytes ++ [0x00], []⟩ false false ⟨0, 0, 0, Vector.replicate passthruMsgDataSize 0⟩ 0) ⟨[0x00], []⟩
    ⟨rfl, rfl, rfl⟩ hstream
  have hsame := (passThruReadMsgs_eq hleads hstops (by omega)).symm.trans hread
  rw [Except.ok.injEq, Prod.mk.injEq] at hsame
  rw [← hsame.1] at hstored
  -- the size that is stored is the one of what is kept
  have hkept := length_foldl_keep_le m.frames []
  rw [List.length_nil, Nat.zero_add] at hkept
  have hfits : m.payload.length ≤ 4128 := h.fits
  have hdataSize := hstored.dataSize
  rw [payload, List.length_append] at hfits hdataSize
  rw [hfinished.dataSize, UInt64.toNat_ofNat_of_lt' (by rw [UInt64.size, List.length_append]; omega),
    List.length_append] at hdataSize
  exact of_length_foldl_keep (by rw [List.length_nil]; omega) hsplit trivial

end Message

/-- **The messages that are read right are the plain ones**: every length byte is up to 127, and no `txDone` frame
follows a chunk that has bytes. -/
theorem delivered_iff_plain (m : Message) (h : m.Valid) :
    (m.Plain → m.Delivered) ∧ (m.bytes.length < 0xFFFFFF00 → (m.Delivered ↔ m.Plain)) :=
  ⟨fun hplain => hplain.delivered h, fun hsize => ⟨fun hdelivered => hdelivered.plain h hsize,
    fun hplain => hplain.delivered h⟩⟩

/-- A message in one frame, behind an acknowledgement. -/
theorem delivered_iff_plain_ack : (Message.single [.ack 0x0D 0x0A] ⟨0x01020304, 0, [0xAA, 0xBB]⟩).Delivered := by
  refine (delivered_iff_plain _ ⟨?_, by decide, by decide⟩).1 ⟨by decide, ?_, ?_⟩
  · intro f hf
    rw [List.mem_singleton.1 hf]
    trivial
  · intro before kind content after hsplit
    rcases before with _ | ⟨f, _ | ⟨f', before⟩⟩
    · cases hsplit
    · rw [show f = .ack 0x0D 0x0A from (List.cons.inj hsplit).1.symm]
      rfl
    · cases hsplit
  · intro before hbefore
    have hcount := Message.count_le before 0
    have hle : before.length ≤ 1 := hbefore.length_le
    omega

/-- A payload of 123 bytes has a length byte of 128. -/
theorem long_frame_missed : ¬ ∀ m : Message, m.Valid → m.Delivered := by
  intro hall
  have hvalid : (Message.single [] ⟨0, 0, List.replicate 123 0x00⟩).Valid :=
    { ordered := by intro f hf; cases hf
      lengths := by decide +kernel
      fits := by decide +kernel }
  have hplain := (hall _ hvalid).plain hvalid (by decide +kernel)
  have hle := hplain.lengths 128 (by decide +kernel)
  revert hle
  decide

end FastEcu.Serial.J2534
