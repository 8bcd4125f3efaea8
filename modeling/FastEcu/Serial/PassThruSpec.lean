import FastEcu.Serial.PassThru

/-!
# Which streams can be read

The bytes that the adapter sends, cut at the silences that are as long as the timeout, and the streams of
them that `PassThruReadMsgs` reads to an end.

* `Rx` : the counters that one frame leaves to the next.
* `Readable` : the frames arrive whole and fit.
* `passThruReadMsgs_ends_iff` : the call ends without a fault exactly when its stream is readable.
-/

namespace FastEcu.Serial.J2534

open Data

/-! ### Streams -/

/-- The counters that one frame leaves to the next. -/
structure Rx where
  chunkCnt : UInt64 := 0
  msgByteCnt : UInt64 := 0
  msgIndex : ℕ := 0

namespace Reader

/-- The counters of a reader. -/
def rx (reader : Reader) : Rx := ⟨reader.chunkCnt, reader.msgByteCnt, reader.msgIndex⟩

/-- What a reader has received and what is to come, cut at the silences. -/
def stream (reader : Reader) : Bursts Byte := reader.serial.bursts reader.readTimeout

variable (reader : Reader) (n : ℕ)

theorem readSerialData_fst : (reader.readSerialData n).1 = (reader.stream.take n).1 := by
  rw [stream, take_bursts]
  rfl

theorem stream_readSerialData : (reader.readSerialData n).2.stream = (reader.stream.take n).2 := by
  rw [stream, stream, take_bursts]
  rfl

end Reader

/-- A computation ends without a fault. -/
def Ends {α : Type} (r : Except Fault α) : Prop := ∃ a, r = .ok a

theorem ends_ok {α : Type} (a : α) : Ends (.ok a) := ⟨a, rfl⟩

theorem not_ends_error {α : Type} (fault : Fault) : ¬ Ends (.error fault : Except Fault α) := by
  rintro ⟨a, h⟩
  cases h

theorem bind_eq_ok {α β : Type} {m : Except Fault α} {f : α → Except Fault β} {b : β} :
    (m >>= f) = .ok b ↔ ∃ a, m = .ok a ∧ f a = .ok b := by
  cases m with
  | error fault =>
    constructor
    · intro h
      cases h
    · rintro ⟨a, h, -⟩
      cases h
  | ok a =>
    constructor
    · exact fun h => ⟨a, rfl, h⟩
    · rintro ⟨a', h, hf⟩
      cases h
      exact hf

theorem byteAt?_eq_ok {received : Bytes} {i : ℕ} {b : Byte} :
    byteAt? received i = .ok b ↔ received[i]? = some b := by
  unfold byteAt?
  cases received[i]? with
  | none => exact ⟨fun h => (nomatch h), fun h => (nomatch h)⟩
  | some c =>
    constructor
    · intro h
      cases h
      rfl
    · intro h
      cases h
      rfl

/-! ### Lines -/

section Lines

variable {terminator : Byte} {reader : Reader}

theorem readTo_of_last {fuel : ℕ} {field : Bytes} (h : field.getLast? = some terminator) :
    readTo terminator fuel field reader = .ok (field, reader) := by
  cases fuel with
  | zero => exact if_pos h
  | succ fuel => exact if_pos h

/-- A line that is read to its end is there. -/
theorem lineTo_of_readTo {fuel : ℕ} {field line : Bytes} {reader' : Reader}
    (hfield : field.getLast? ≠ some terminator)
    (h : readTo terminator fuel field reader = .ok (line, reader')) :
    ∃ rest, reader.stream.lineTo terminator = some (rest, reader'.stream) ∧ line = field ++ rest ∧
      ∃ serial, reader' = { reader with serial := serial } := by
  induction fuel generalizing field reader with
  | zero =>
    rw [readTo, if_neg hfield] at h
    cases h
  | succ fuel ih =>
    rw [readTo, if_neg hfield, reader.readSerialData_fst] at h
    have hstream := reader.stream_readSerialData 1
    have hsame : ∃ serial, (reader.readSerialData 1).2 = { reader with serial := serial } := ⟨_, rfl⟩
    generalize (reader.readSerialData 1).2 = next at h hstream hsame
    obtain ⟨serial, rfl⟩ := hsame
    generalize reader.stream = stream at h hstream
    obtain ⟨_ | ⟨a, l⟩, later⟩ := stream
    · -- a silence: nothing is appended, and the loop goes on
      rw [Bursts.take_one_nil] at h hstream
      rw [List.append_nil] at h
      obtain ⟨rest, hrest, hline, serial', rfl⟩ := ih hfield h
      refine ⟨rest, ?_, hline, serial', rfl⟩
      rw [hstream] at hrest
      cases later with
      | nil => exact hrest
      | cons burst later =>
        rw [Bursts.lineTo_silence]
        exact hrest
    · rw [Bursts.take_one_cons] at h hstream
      rw [Bursts.lineTo_cons]
      by_cases ha : a = terminator
      · rw [readTo_of_last (by rw [List.getLast?_concat, ha])] at h
        cases h
        rw [if_pos ha, hstream]
        exact ⟨[a], rfl, rfl, serial, rfl⟩
      · have hlast : (field ++ [a]).getLast? ≠ some terminator := by
          rw [List.getLast?_concat]
          exact fun h => ha (Option.some.inj h)
        obtain ⟨rest, hrest, hline, serial', rfl⟩ := ih hlast h
        rw [hstream] at hrest
        rw [if_neg ha, hrest]
        refine ⟨a :: rest, rfl, ?_, serial', rfl⟩
        rw [hline, List.append_assoc]
        rfl

/-- A line that is there is read to its end. -/
theorem readTo_of_lineTo {fuel : ℕ} {field line : Bytes} {rest : Bursts Byte}
    (hfield : field.getLast? ≠ some terminator) (hfuel : reader.stream.size ≤ fuel)
    (h : reader.stream.lineTo terminator = some (line, rest)) :
    ∃ serial, readTo terminator fuel field reader = .ok (field ++ line, { reader with serial := serial }) ∧
      ({ reader with serial := serial } : Reader).stream = rest := by
  obtain ⟨stream, hstream⟩ : ∃ stream, stream = reader.stream := ⟨_, rfl⟩
  rw [← hstream] at hfuel h
  induction stream using Bursts.induction generalizing field line fuel reader with
  | nil => cases h
  | silence burst later ih =>
    rw [Bursts.lineTo_silence] at h
    have hread := reader.readSerialData_fst 1
    have hnext := reader.stream_readSerialData 1
    rw [← hstream, Bursts.take_one_nil] at hread hnext
    have hsize := Bursts.size_silence burst later
    cases fuel with
    | zero =>
      rw [hsize] at hfuel
      cases hfuel
    | succ fuel =>
      rw [readTo, if_neg hfield, hread, List.append_nil]
      exact ih hfield h (by omega) hnext.symm
  | cons a l later ih =>
    rw [Bursts.lineTo_cons] at h
    have hread := reader.readSerialData_fst 1
    have hnext := reader.stream_readSerialData 1
    rw [← hstream, Bursts.take_one_cons] at hread hnext
    have hsize := Bursts.size_cons a l later
    cases fuel with
    | zero =>
      rw [hsize] at hfuel
      cases hfuel
    | succ fuel =>
      rw [readTo, if_neg hfield, hread]
      by_cases ha : a = terminator
      · rw [if_pos ha] at h
        cases h
        rw [readTo_of_last (by rw [List.getLast?_concat, ha])]
        exact ⟨_, rfl, hnext⟩
      · rw [if_neg ha, Option.map_eq_some_iff] at h
        obtain ⟨⟨line', rest'⟩, hline, heq⟩ := h
        cases heq
        have hlast : (field ++ [a]).getLast? ≠ some terminator := by
          rw [List.getLast?_concat]
          exact fun h => ha (Option.some.inj h)
        have hle : (⟨l, later⟩ : Bursts Byte).size ≤ fuel := by omega
        obtain ⟨serial, hend, hrest⟩ := ih hlast hline hle hnext.symm
        refine ⟨serial, ?_, hrest⟩
        show readTo terminator fuel (field ++ [a]) _ = _
        rw [hend, List.append_assoc]
        rfl

end Lines

/-! ### Copies -/

section Copies

variable {received : Bytes} {offset count i : ℕ} {reader : Reader}

theorem storeAt_of_lt {msg : PassThruMsg} {index : ℕ} (h : index < passthruMsgDataSize) (b : Byte) :
    ∃ msg', storeAt msg index b = .ok msg' := ⟨_, dif_pos h⟩

theorem lt_of_storeAt {msg msg' : PassThruMsg} {index : ℕ} {b : Byte} (h : storeAt msg index b = .ok msg') :
    index < passthruMsgDataSize := by
  by_contra hle
  rw [storeAt, dif_neg hle] at h
  cases h

/-- A payload that is there and fits is copied. -/
theorem copyFrom_of_fits (h : 0 < count →
      i + offset + count ≤ received.length ∧ reader.msgIndex + count ≤ passthruMsgDataSize) :
    ∃ msg, copyFrom received offset count i reader =
      .ok { reader with msg, msgIndex := reader.msgIndex + count } := by
  induction count generalizing i reader with
  | zero => exact ⟨_, rfl⟩
  | succ count ih =>
    obtain ⟨hthere, hfits⟩ := h (Nat.succ_pos _)
    have hbyte : byteAt? received (i + offset) = .ok received[i + offset] :=
      byteAt?_eq_ok.2 (List.getElem?_eq_getElem (by omega))
    obtain ⟨msg, hmsg⟩ := @storeAt_of_lt reader.msg reader.msgIndex (by omega) received[i + offset]
    obtain ⟨msg', hrest⟩ := @ih (i + 1) { reader with msg, msgIndex := reader.msgIndex + 1 }
      fun _ => ⟨by omega, by show reader.msgIndex + 1 + count ≤ _; omega⟩
    refine ⟨msg', ?_⟩
    rw [copyFrom]
    refine bind_eq_ok.2 ⟨_, hbyte, bind_eq_ok.2 ⟨_, hmsg, hrest.trans ?_⟩⟩
    rw [Nat.add_right_comm, Nat.add_assoc]

/-- A payload that is copied is there and fits. -/
theorem fits_of_copyFrom {reader' : Reader} (h : copyFrom received offset count i reader = .ok reader') :
    (0 < count →
      i + offset + count ≤ received.length ∧ reader.msgIndex + count ≤ passthruMsgDataSize) ∧
    ∃ msg, reader' = { reader with msg, msgIndex := reader.msgIndex + count } := by
  induction count generalizing i reader with
  | zero =>
    cases h
    exact ⟨fun h => absurd h (lt_irrefl _), _, rfl⟩
  | succ count ih =>
    rw [copyFrom] at h
    obtain ⟨b, hbyte, h⟩ := bind_eq_ok.1 h
    obtain ⟨msg, hstore, h⟩ := bind_eq_ok.1 h
    obtain ⟨hrest, msg', rfl⟩ := ih h
    have hlt := (List.getElem?_eq_some_iff.1 (byteAt?_eq_ok.1 hbyte)).1
    have hindex := lt_of_storeAt hstore
    refine ⟨fun _ => ?_, msg', ?_⟩
    · by_cases hcount : 0 < count
      · obtain ⟨hthere, hfits⟩ := hrest hcount
        refine ⟨by omega, ?_⟩
        simp only at hfits
        omega
      · omega
    · rw [show reader.msgIndex + (count + 1) = reader.msgIndex + 1 + count by omega]

/-- A reply that is there and fits is copied to the start of the message. -/
theorem copyPayload_reply (reply : Bytes) (reader : Reader)
    (h : 0 < reader.msgByteCnt.toNat →
      reader.msgByteCnt.toNat ≤ reply.length ∧ reader.msgByteCnt.toNat ≤ passthruMsgDataSize) :
    ∃ msg, copyPayload reply 0 { reader with msgIndex := 0 } =
      .ok { reader with msg, msgIndex := reader.msgByteCnt.toNat } := by
  have hcopied := @copyFrom_of_fits reply 0 reader.msgByteCnt.toNat 0 { reader with msgIndex := 0 }
  simp only [Nat.zero_add] at hcopied
  exact hcopied h

theorem of_copyPayload_reply {reply : Bytes} {reader reader' : Reader}
    (h : copyPayload reply 0 { reader with msgIndex := 0 } = .ok reader') :
    (0 < reader.msgByteCnt.toNat →
      reader.msgByteCnt.toNat ≤ reply.length ∧ reader.msgByteCnt.toNat ≤ passthruMsgDataSize) ∧
    ∃ msg, reader' = { reader with msg, msgIndex := reader.msgByteCnt.toNat } := by
  have hfits := fits_of_copyFrom h
  simp only [Nat.zero_add] at hfits
  exact hfits

/-- The bytes of a payload after `skip` ones are there, and fit into the message. -/
def Copies (payload : Bytes) (skip n : UInt64) (index : ℕ) : Prop :=
  skip ≤ n ∧ (skip < n → n.toNat ≤ payload.length ∧ index + (n - skip).toNat ≤ passthruMsgDataSize)

/-- The reader after the bytes of a payload are copied. -/
def Reader.copied (reader : Reader) (msg : PassThruMsg) (count : UInt64) : Reader :=
  { reader with msg, msgByteCnt := count, msgIndex := reader.msgIndex + count.toNat }

variable {head payload : Bytes} {skip n : UInt64}

theorem copyPayload_of_copies (hhead : head.length = 5) (h : Copies payload skip n reader.msgIndex) :
    ∃ msg, copyPayload (head ++ payload) (5 + skip.toNat) { reader with msgByteCnt := n - skip } =
      .ok (reader.copied msg (n - skip)) := by
  obtain ⟨hskip, hcopies⟩ := h
  have hcount := UInt64.toNat_sub_of_le n skip hskip
  refine copyFrom_of_fits fun hpos => ?_
  have hlt : skip < n := by
    rw [UInt64.lt_iff_toNat_lt]
    rw [show ({ reader with msgByteCnt := n - skip } : Reader).msgByteCnt = n - skip from rfl] at hpos
    omega
  obtain ⟨hthere, hfits⟩ := hcopies hlt
  rw [UInt64.lt_iff_toNat_lt] at hlt
  refine ⟨?_, hfits⟩
  rw [List.length_append, hhead]
  show 0 + (5 + skip.toNat) + (n - skip).toNat ≤ _
  omega

theorem copies_of_copyPayload {reader' : Reader} (hhead : head.length = 5)
    (hpayload : payload.length ≤ n.toNat)
    (h : copyPayload (head ++ payload) (5 + skip.toNat) { reader with msgByteCnt := n - skip } = .ok reader') :
    Copies payload skip n reader.msgIndex ∧ ∃ msg, reader' = reader.copied msg (n - skip) := by
  obtain ⟨hfits, msg, rfl⟩ := fits_of_copyFrom h
  rw [List.length_append, hhead] at hfits
  replace hfits : 0 < (n - skip).toNat → 0 + (5 + skip.toNat) + (n - skip).toNat ≤ 5 + payload.length ∧
    reader.msgIndex + (n - skip).toNat ≤ passthruMsgDataSize := hfits
  have hle : skip ≤ n := by
    -- otherwise the count wraps, and no payload is as long
    by_contra hlt
    have hsub := UInt64.toNat_sub n skip
    have hn := n.toNat_lt
    have hs := skip.toNat_lt
    rw [UInt64.le_iff_toNat_le] at hlt
    omega
  have hcount := UInt64.toNat_sub_of_le n skip hle
  refine ⟨⟨hle, fun hlt => ?_⟩, msg, rfl⟩
  rw [UInt64.lt_iff_toNat_lt] at hlt
  obtain ⟨hthere, hdata⟩ := hfits (by omega)
  exact ⟨by omega, hdata⟩

end Copies

/-! ### Readable streams -/

/-- A header that is no frame: it does not start with `ar`. -/
def Foreign (received : Bytes) : Prop :=
  (∃ b rest, received = b :: rest ∧ b ≠ 0x61) ∨ ∃ b rest, received = 0x61 :: b :: rest ∧ b ≠ 0x72

/-- The frame of a periodic message, and the counters and the stream after it: two bytes, a field that ends in a
space, a line that ends, and as many bytes as the message before had. -/
def Periodic (rx : Rx) (s : Bursts Byte) (rx' : Rx) (s' : Bursts Byte) : Prop :=
  ∃ field line s₁ s₂, (s.take 2).2.lineTo 0x20 = some (field, s₁) ∧ s₁.lineTo 0x0A = some (line, s₂) ∧
    rx' = { rx with msgIndex := 0 } ∧ s' = (s₂.take rx.msgByteCnt.toUInt32.toNat).2

variable (toInt : Bytes → ℤ)

/-- The reply to a fast initialisation, and the counters and the stream after it: the field has the length of the
payload that comes after the line. -/
def FastInit (rx : Rx) (s : Bursts Byte) (rx' : Rx) (s' : Bursts Byte) : Prop :=
  ∃ field line s₁ s₂ n, (s.take 2).2.lineTo 0x20 = some (field, s₁) ∧ s₁.lineTo 0x0A = some (line, s₂) ∧
    n = UInt64.ofInt (toInt field.dropLast) ∧
    (0 < n.toNat → n.toNat ≤ (s₂.take n.toUInt32.toNat).1.length ∧ n.toNat ≤ passthruMsgDataSize) ∧
    rx' = { rx with msgByteCnt := n, msgIndex := n.toNat } ∧ s' = (s₂.take n.toUInt32.toNat).2

/-- Such a frame that is followed by silence, or by three bytes and another one: the header stays received, and
what comes next is taken for the same frame again. -/
inductive Repeated (Line : Rx → Bursts Byte → Rx → Bursts Byte → Prop) : Rx → Bursts Byte → Prop
  | last {rx rx' : Rx} {s s' : Bursts Byte} (line : Line rx s rx' s') (silence : (s'.take 3).1 = []) :
      Repeated Line rx s
  | again {rx rx' : Rx} {s s' : Bursts Byte} (line : Line rx s rx' s') (more : (s'.take 3).1 ≠ [])
      (rest : Repeated Line rx' (s'.take 3).2) : Repeated Line rx s

/-- The head of a frame with a message: its kind, its length and its type, what arrives of its payload, and the
stream after it. -/
structure RxHead (s : Bursts Byte) (kind length msgType : Byte) (payload : Bytes) (rest : Bursts Byte) :
    Prop where
  header : (s.take 3).1 = [0x61, 0x72, kind]
  rx : frameKind kind = .rx
  head : ((s.take 3).2.take 2).1 = [length, msgType]
  payload : ((s.take 3).2.take 2).2.take (lengthOf length).toUInt32.toNat = (payload, rest)

/-- What is not copied of a payload in a frame of a kind: its timestamp, if it has one. -/
def skipped (kind : Byte) (chunkCnt : UInt64) : UInt64 :=
  if kind = 0x35 ∨ kind = 0x36 then timestampSize chunkCnt else 0

/-- The place of the first byte of a message: a message that starts begins at the first place. -/
def startIndex (rx : Rx) (msgType : Byte) : ℕ := if rxMsgType msgType = .startOfMessage then 0 else rx.msgIndex

/-- The type is the one of a message or of its start. -/
def Normal (msgType : Byte) : Prop := rxMsgType msgType = .norm ∨ rxMsgType msgType = .startOfMessage

/-- A stream that can be read, with the counters that the frames before have left: the frames are whole as far as
they are read, and what is copied fits into the message. -/
inductive Readable : Rx → Bursts Byte → Prop
  /-- Nothing arrives. -/
  | silence {rx : Rx} {s : Bursts Byte} (silence : (s.take 3).1 = []) : Readable rx s
  /-- What does not start with `ar` is skipped to the next silence, with all that follows. -/
  | foreign {rx : Rx} {s : Bursts Byte} (header : Foreign (s.take 3).1) : Readable rx s
  | otherKind {rx : Rx} {s : Bursts Byte} {kind : Byte} (header : (s.take 3).1 = [0x61, 0x72, kind])
      (other : frameKind kind = .other) : Readable rx s
  | ack {rx : Rx} {s : Bursts Byte} {kind : Byte} (header : (s.take 3).1 = [0x61, 0x72, kind])
      (ack : frameKind kind = .ack) (next : Readable rx ((s.take 3).2.take 2).2) : Readable rx s
  | error {rx : Rx} {s : Bursts Byte} {kind : Byte} (header : (s.take 3).1 = [0x61, 0x72, kind])
      (error : frameKind kind = .error) (next : Readable rx (s.take 3).2) : Readable rx s
  /-- The line of an ioctl reply ends, and fits into the message. -/
  | line {rx : Rx} {s rest : Bursts Byte} {kind : Byte} {line : Bytes}
      (header : (s.take 3).1 = [0x61, 0x72, kind]) (lineKind : frameKind kind = .line)
      (ends : (s.take 3).2.lineTo 0x0A = some (line, rest)) (fits : 3 + line.length ≤ passthruMsgDataSize) :
      Readable rx s
  | periodic {rx : Rx} {s : Bursts Byte} {kind : Byte} (header : (s.take 3).1 = [0x61, 0x72, kind])
      (periodic : frameKind kind = .periodic) (lines : Repeated Periodic rx (s.take 3).2) : Readable rx s
  | fastInit {rx : Rx} {s : Bursts Byte} {kind : Byte} (header : (s.take 3).1 = [0x61, 0x72, kind])
      (fastInit : frameKind kind = .fastInit) (lines : Repeated (FastInit toInt) rx (s.take 3).2) :
      Readable rx s
  | otherType {rx : Rx} {s rest : Bursts Byte} {kind length msgType : Byte} {payload : Bytes}
      (head : RxHead s kind length msgType payload rest) (other : rxMsgType msgType = .other) : Readable rx s
  /-- What the adapter says of a message that was sent. -/
  | loopback {rx : Rx} {s rest : Bursts Byte} {kind length msgType : Byte} {payload : Bytes}
      (head : RxHead s kind length msgType payload rest)
      (loopback : rxMsgType msgType = .txDone ∨ rxMsgType msgType = .loopback)
      (next : Readable { rx with msgByteCnt := lengthOf length, msgIndex := 0 } rest) : Readable rx s
  | startInd {rx : Rx} {s rest : Bursts Byte} {kind length msgType : Byte} {payload : Bytes}
      (head : RxHead s kind length msgType payload rest) (start : rxMsgType msgType = .startInd)
      (next : Readable ⟨0, lengthOf length, 0⟩ rest) : Readable rx s
  /-- A message without a timestamp, or a chunk of a message with one. -/
  | chunk {rx : Rx} {s rest : Bursts Byte} {kind length msgType : Byte} {payload : Bytes}
      (head : RxHead s kind length msgType payload rest) (normal : Normal msgType) (chunk : kind ≠ 0x35)
      (copies : Copies payload (skipped kind rx.chunkCnt) (lengthOf length) (startIndex rx msgType))
      (next : Readable ⟨rx.chunkCnt + 1, lengthOf length - skipped kind rx.chunkCnt,
        startIndex rx msgType + (lengthOf length - skipped kind rx.chunkCnt).toNat⟩ rest) : Readable rx s
  /-- A whole message with its timestamp. -/
  | message {rx : Rx} {s rest : Bursts Byte} {kind length msgType : Byte} {payload : Bytes}
      (head : RxHead s kind length msgType payload rest) (normal : Normal msgType) (message : kind = 0x35)
      (copies : Copies payload (skipped kind rx.chunkCnt) (lengthOf length) (startIndex rx msgType))
      (timestamp : 4 ≤ payload.length) : Readable rx s
  /-- The end of a message, with its last chunk or without one. -/
  | endInd {rx : Rx} {s rest : Bursts Byte} {kind length msgType : Byte} {payload : Bytes}
      (head : RxHead s kind length msgType payload rest) (endInd : rxMsgType msgType = .endInd)
      (copies : kind = 0x36 → Copies payload (skipped kind rx.chunkCnt) (lengthOf length) rx.msgIndex)
      (timestamp : 4 ≤ payload.length) : Readable rx s

/-! ### Messages -/

section Messages

variable {reader : Reader} {kind length msgType : Byte} {payload : Bytes} {rest : Bursts Byte}

/-- A reader that has received the head of a message and its payload. -/
def Reader.received (reader : Reader) (payload : Bytes) (rest : Bursts Byte) : Prop :=
  reader.stream.take reader.msgByteCnt.toUInt32.toNat = (payload, rest)

theorem length_received (h : reader.received payload rest) : payload.length ≤ reader.msgByteCnt.toNat := by
  have hlength := reader.stream.length_take reader.msgByteCnt.toUInt32.toNat
  rw [h, UInt64.toNat_toUInt32] at hlength
  exact hlength.trans (Nat.mod_le _ _)

/-- The timestamp is there when four bytes of the payload are. -/
theorem finishMessage_ok {head : Bytes} (hhead : head.length = 5) (h : 4 ≤ payload.length) (reader : Reader) :
    ∃ reader', finishMessage (head ++ payload) reader = .ok (.stop, [], reader') := by
  have hbyte : ∀ i, i < 9 → byteAt? (head ++ payload) i = .ok ((head ++ payload).getD i 0) := by
    intro i hi
    have hlt : i < (head ++ payload).length := by
      rw [List.length_append]
      omega
    rw [List.getD_eq_getElem _ _ hlt]
    exact byteAt?_eq_ok.2 (List.getElem?_eq_getElem hlt)
  rw [finishMessage, hbyte 8 (by decide), hbyte 7 (by decide), hbyte 6 (by decide), hbyte 5 (by decide)]
  exact ⟨_, rfl⟩

theorem of_finishMessage {head : Bytes} (hhead : head.length = 5) {r : FrameOutcome × Bytes × Reader}
    (h : finishMessage (head ++ payload) reader = .ok r) : 4 ≤ payload.length := by
  obtain ⟨b, hb, -⟩ := bind_eq_ok.1 h
  have hlt := (List.getElem?_eq_some_iff.1 (byteAt?_eq_ok.1 hb)).1
  rw [List.length_append] at hlt
  omega

/-- The reader when the payload of a message is appended. -/
def Reader.appended (reader : Reader) (rxStatus : UInt64) : Reader :=
  ({ reader with msg := { reader.msg with rxStatus } }.readSerialData reader.byteCount).2

theorem stream_appended (h : reader.received payload rest) (rxStatus : UInt64) :
    (reader.appended rxStatus).stream = rest := by
  have hstream := ({ reader with msg := { reader.msg with rxStatus } } : Reader).stream_readSerialData
    reader.byteCount
  rw [Reader.appended, hstream]
  exact congrArg Prod.snd h

/-- `HandleNormFrame` with the payload that arrives. -/
theorem handleNormFrame_eq (h : reader.received payload rest) :
    handleNormFrame [0x61, 0x72, kind, length, msgType] reader = (do
      let copied ← copyPayload ([0x61, 0x72, kind, length, msgType] ++ payload)
        (5 + (skipped kind reader.chunkCnt).toNat)
        { reader.appended 0 with msgByteCnt := reader.msgByteCnt - skipped kind reader.chunkCnt }
      let counted := { copied with chunkCnt := copied.chunkCnt + 1 }
      if kind = 0x35 then finishMessage ([0x61, 0x72, kind, length, msgType] ++ payload) counted
      else .ok (.continue, [], counted)) := by
  have hpayload : ({ reader with msg := { reader.msg with rxStatus := 0 } }.readSerialData
      reader.byteCount).1 = payload := by
    rw [Reader.readSerialData_fst]
    exact congrArg Prod.fst h
  have hcopy : copyNormPayload kind ([0x61, 0x72, kind, length, msgType] ++ payload) (reader.appended 0) =
      copyPayload ([0x61, 0x72, kind, length, msgType] ++ payload)
        (5 + (skipped kind reader.chunkCnt).toNat)
        { reader.appended 0 with msgByteCnt := reader.msgByteCnt - skipped kind reader.chunkCnt } := by
    unfold copyNormPayload skipped
    by_cases hkind : kind = 0x35 ∨ kind = 0x36
    · rw [if_pos hkind, if_pos hkind]
      rfl
    · rw [if_neg hkind, if_neg hkind, UInt64.sub_zero]
      rfl
  rw [← hcopy, ← hpayload]
  rfl

theorem handleNormFrame_chunk (h : reader.received payload rest) (hkind : kind ≠ 0x35)
    (hcopies : Copies payload (skipped kind reader.chunkCnt) reader.msgByteCnt reader.msgIndex) :
    ∃ reader', handleNormFrame [0x61, 0x72, kind, length, msgType] reader = .ok (.continue, [], reader') ∧
      reader'.rx = ⟨reader.chunkCnt + 1, reader.msgByteCnt - skipped kind reader.chunkCnt,
        reader.msgIndex + (reader.msgByteCnt - skipped kind reader.chunkCnt).toNat⟩ ∧
      reader'.stream = rest := by
  have hstream := stream_appended h 0
  obtain ⟨msg, hmsg⟩ := @copyPayload_of_copies (reader.appended 0) [0x61, 0x72, kind, length, msgType] payload
    (skipped kind reader.chunkCnt) reader.msgByteCnt rfl hcopies
  rw [handleNormFrame_eq h, hmsg]
  refine ⟨_, if_neg hkind, rfl, hstream⟩

theorem handleNormFrame_message (h : reader.received payload rest) (hkind : kind = 0x35)
    (hcopies : Copies payload (skipped kind reader.chunkCnt) reader.msgByteCnt reader.msgIndex)
    (htimestamp : 4 ≤ payload.length) :
    ∃ reader', handleNormFrame [0x61, 0x72, kind, length, msgType] reader = .ok (.stop, [], reader') := by
  obtain ⟨msg, hmsg⟩ := @copyPayload_of_copies (reader.appended 0) [0x61, 0x72, kind, length, msgType] payload
    (skipped kind reader.chunkCnt) reader.msgByteCnt rfl hcopies
  rw [handleNormFrame_eq h, hmsg]
  obtain ⟨reader', hfinish⟩ := @finishMessage_ok payload [0x61, 0x72, kind, length, msgType] rfl htimestamp
    { (reader.appended 0).copied msg (reader.msgByteCnt - skipped kind reader.chunkCnt) with
      chunkCnt := reader.chunkCnt + 1 }
  exact ⟨reader', (if_pos hkind).trans hfinish⟩

theorem of_handleNormFrame (h : reader.received payload rest) {r : FrameOutcome × Bytes × Reader}
    (hok : handleNormFrame [0x61, 0x72, kind, length, msgType] reader = .ok r) :
    Copies payload (skipped kind reader.chunkCnt) reader.msgByteCnt reader.msgIndex ∧
      (kind = 0x35 → 4 ≤ payload.length) := by
  rw [handleNormFrame_eq h] at hok
  obtain ⟨copied, hcopied, hok⟩ := bind_eq_ok.1 hok
  obtain ⟨hcopies, -⟩ := @copies_of_copyPayload (reader.appended 0) [0x61, 0x72, kind, length, msgType] payload
    (skipped kind reader.chunkCnt) reader.msgByteCnt _ rfl (length_received h) hcopied
  refine ⟨hcopies, fun hkind => ?_⟩
  rw [if_pos hkind] at hok
  exact @of_finishMessage _ payload [0x61, 0x72, kind, length, msgType] rfl _ hok

/-- The end of a message, with the payload that arrives. -/
theorem handleRxMessage_endInd (h : reader.received payload rest) (hend : rxMsgType msgType = .endInd) :
    handleRxMessage [0x61, 0x72, kind, length, msgType] msgType reader = (do
      let copied ← copyEndPayload kind ([0x61, 0x72, kind, length, msgType] ++ payload)
        (reader.appended 0x40)
      finishMessage ([0x61, 0x72, kind, length, msgType] ++ payload) copied) := by
  have hpayload : ({ reader with msg := { reader.msg with rxStatus := 0x40 } }.readSerialData
      reader.byteCount).1 = payload := by
    rw [Reader.readSerialData_fst]
    exact congrArg Prod.fst h
  rw [handleRxMessage, hend, ← hpayload]
  rfl

theorem copyEndPayload_timed (h : kind = 0x36) (received : Bytes) (reader : Reader) :
    copyEndPayload kind received reader = copyPayload received (5 + (skipped kind reader.chunkCnt).toNat)
      { reader with msgByteCnt := reader.msgByteCnt - skipped kind reader.chunkCnt } := by
  rw [copyEndPayload, if_pos h, skipped, if_pos (.inr h)]
  rfl

theorem handleRxMessage_end_ok (h : reader.received payload rest) (hend : rxMsgType msgType = .endInd)
    (hcopies : kind = 0x36 → Copies payload (skipped kind reader.chunkCnt) reader.msgByteCnt reader.msgIndex)
    (htimestamp : 4 ≤ payload.length) :
    ∃ reader', handleRxMessage [0x61, 0x72, kind, length, msgType] msgType reader =
      .ok (.stop, [], reader') := by
  rw [handleRxMessage_endInd h hend]
  by_cases hkind : kind = 0x36
  · obtain ⟨msg, hmsg⟩ := @copyPayload_of_copies (reader.appended 0x40)
      [0x61, 0x72, kind, length, msgType] payload (skipped kind reader.chunkCnt) reader.msgByteCnt rfl
      (hcopies hkind)
    rw [copyEndPayload_timed hkind]
    obtain ⟨reader', hfinish⟩ := @finishMessage_ok payload [0x61, 0x72, kind, length, msgType] rfl htimestamp
      ((reader.appended 0x40).copied msg (reader.msgByteCnt - skipped kind reader.chunkCnt))
    exact ⟨reader', bind_eq_ok.2 ⟨_, hmsg, hfinish⟩⟩
  · rw [copyEndPayload, if_neg hkind]
    exact finishMessage_ok rfl htimestamp _

theorem of_handleRxMessage_end (h : reader.received payload rest) (hend : rxMsgType msgType = .endInd)
    {r : FrameOutcome × Bytes × Reader}
    (hok : handleRxMessage [0x61, 0x72, kind, length, msgType] msgType reader = .ok r) :
    (kind = 0x36 → Copies payload (skipped kind reader.chunkCnt) reader.msgByteCnt reader.msgIndex) ∧
      4 ≤ payload.length := by
  rw [handleRxMessage_endInd h hend] at hok
  obtain ⟨copied, hcopied, hok⟩ := bind_eq_ok.1 hok
  refine ⟨fun hkind => ?_, @of_finishMessage _ payload [0x61, 0x72, kind, length, msgType] rfl _ hok⟩
  rw [copyEndPayload_timed hkind] at hcopied
  exact (@copies_of_copyPayload (reader.appended 0x40) [0x61, 0x72, kind, length, msgType] payload
    (skipped kind reader.chunkCnt) reader.msgByteCnt _ rfl (length_received h) hcopied).1

end Messages

/-! ### The loop -/

section Loop

variable (fuel : ℕ)

/-- The loop when all that was received is handled: the next header is read. -/
def readNext (turns : ℕ) (reader : Reader) : Except Fault (Reader × Option UInt64) :=
  readLoop toInt fuel turns (reader.readSerialData 3).1 (reader.readSerialData 3).2

variable {toInt fuel} {turns : ℕ} {received : Bytes} {reader : Reader}

theorem readLoop_nil (turns : ℕ) (reader : Reader) : Ends (readLoop toInt fuel (turns + 1) [] reader) :=
  ends_ok _

theorem readLoop_continue {received' : Bytes} {reader' : Reader} (hne : received ≠ [])
    (h : dispatch toInt fuel received reader = .ok (.continue, received', reader')) :
    readLoop toInt fuel (turns + 1) received reader =
      readLoop toInt fuel turns
        (if (reader'.readSerialData 3).1 = [] then [] else received' ++ (reader'.readSerialData 3).1)
        (reader'.readSerialData 3).2 := by
  rw [readLoop, if_neg hne, h]
  rfl

/-- After a frame that is cleared the next header is read. -/
theorem readLoop_cleared {reader' : Reader} (hne : received ≠ [])
    (h : dispatch toInt fuel received reader = .ok (.continue, [], reader')) :
    readLoop toInt fuel (turns + 1) received reader = readNext toInt fuel turns reader' := by
  rw [readLoop_continue hne h, readNext, List.nil_append]
  by_cases hsilence : (reader'.readSerialData 3).1 = []
  · rw [if_pos hsilence, hsilence]
  · rw [if_neg hsilence]

theorem readLoop_stop {received' : Bytes} {reader' : Reader} (hne : received ≠ [])
    (h : dispatch toInt fuel received reader = .ok (.stop, received', reader')) :
    Ends (readLoop toInt fuel (turns + 1) received reader) := by
  rw [readLoop, if_neg hne, h]
  exact ends_ok _

theorem readLoop_return {received' : Bytes} {reader' : Reader} (hne : received ≠ [])
    (h : dispatch toInt fuel received reader = .ok (.return, received', reader')) :
    Ends (readLoop toInt fuel (turns + 1) received reader) := by
  rw [readLoop, if_neg hne, h]
  exact ends_ok _

/-- A loop that ends has dispatched what was received. -/
theorem dispatch_of_ends (hne : received ≠ []) (h : Ends (readLoop toInt fuel turns received reader)) :
    ∃ turns' r, turns = turns' + 1 ∧ dispatch toInt fuel received reader = .ok r := by
  obtain ⟨out, hout⟩ := h
  cases turns with
  | zero => cases hout
  | succ turns =>
    rw [readLoop, if_neg hne] at hout
    obtain ⟨r, hr, -⟩ := bind_eq_ok.1 hout
    exact ⟨turns, r, rfl, hr⟩

/-! ### Repeated frames -/

section Repeated

variable {kind : Byte} {handler : Reader → Except Fault Reader}
  {Line : Rx → Bursts Byte → Rx → Bursts Byte → Prop}
  (hdispatch : ∀ more reader, dispatch toInt fuel (0x61 :: 0x72 :: kind :: more) reader =
    handler reader >>= fun reader' => .ok (.continue, 0x61 :: 0x72 :: kind :: more, reader'))

include hdispatch

theorem repeated_of_ends {more : Bytes}
    (hsound : ∀ reader reader', handler reader = .ok reader' →
      Line reader.rx reader.stream reader'.rx reader'.stream)
    (h : Ends (readLoop toInt fuel turns (0x61 :: 0x72 :: kind :: more) reader)) :
    Repeated Line reader.rx reader.stream := by
  induction turns generalizing reader more with
  | zero => exact absurd h (not_ends_error _)
  | succ turns ih =>
    obtain ⟨-, r, -, hr⟩ := dispatch_of_ends (List.cons_ne_nil _ _) h
    rw [hdispatch] at hr
    obtain ⟨reader', hhandler, -⟩ := bind_eq_ok.1 hr
    have hline := hsound reader reader' hhandler
    have hcontinue := hdispatch more reader
    rw [hhandler] at hcontinue
    rw [readLoop_continue (List.cons_ne_nil _ _) hcontinue] at h
    by_cases hsilence : (reader'.readSerialData 3).1 = []
    · rw [Reader.readSerialData_fst] at hsilence
      exact .last hline hsilence
    · rw [if_neg hsilence] at h
      have hrest := ih h
      rw [Reader.stream_readSerialData] at hrest
      rw [Reader.readSerialData_fst] at hsilence
      exact .again hline hsilence hrest

theorem ends_of_repeated {rx : Rx} {s : Bursts Byte} {more : Bytes}
    (hcomplete : ∀ (reader : Reader) rx' s', reader.stream.size ≤ fuel →
      Line reader.rx reader.stream rx' s' →
      ∃ reader', handler reader = .ok reader' ∧ reader'.rx = rx' ∧ reader'.stream = s')
    (hsize : ∀ rx s rx' s', Line rx s rx' s' → s'.size ≤ s.size) (h : Repeated Line rx s)
    (hrx : reader.rx = rx) (hstream : reader.stream = s) (hfuel : s.size ≤ fuel)
    (hturns : s.size + 2 ≤ turns) :
    Ends (readLoop toInt fuel turns (0x61 :: 0x72 :: kind :: more) reader) := by
  induction h generalizing reader turns more with
  | @last rx rx' s s' line silence =>
    subst hrx hstream
    obtain ⟨reader', hhandler, -, hstream'⟩ := hcomplete reader rx' s' hfuel line
    have hcontinue := hdispatch more reader
    rw [hhandler] at hcontinue
    obtain ⟨turns, rfl⟩ : ∃ t, turns = t + 2 := ⟨turns - 2, by omega⟩
    rw [readLoop_continue (List.cons_ne_nil _ _) hcontinue, Reader.readSerialData_fst, hstream',
      if_pos silence]
    exact readLoop_nil _ _
  | @again rx rx' s s' line hmore rest ih =>
    subst hrx hstream
    obtain ⟨reader', hhandler, hrx', hstream'⟩ := hcomplete reader rx' s' hfuel line
    have hcontinue := hdispatch more reader
    rw [hhandler] at hcontinue
    have hle := hsize _ _ _ _ line
    have htake := s'.size_take 3
    have hpos := List.length_pos_iff.2 hmore
    obtain ⟨turns, rfl⟩ : ∃ t, turns = t + 1 := ⟨turns - 1, by omega⟩
    rw [readLoop_continue (List.cons_ne_nil _ _) hcontinue, Reader.readSerialData_fst, hstream',
      if_neg hmore]
    exact ih (show (reader'.readSerialData 3).2.rx = rx' from hrx')
      (by rw [Reader.stream_readSerialData, hstream']) (by omega) (by omega)

end Repeated

theorem getLast?_nil_ne (c : Byte) : ([] : Bytes).getLast? ≠ some c := fun h => (nomatch h)

/-- A line that is read is there. -/
theorem lineTo_of_readUntil {terminator : Byte} {line : Bytes} {reader' : Reader}
    (h : readUntil fuel terminator reader = .ok (line, reader')) :
    reader.stream.lineTo terminator = some (line, reader'.stream) ∧
      ∃ serial, reader' = { reader with serial := serial } := by
  obtain ⟨rest, hfound, hrest, hsame⟩ := lineTo_of_readTo (getLast?_nil_ne _) h
  rw [List.nil_append] at hrest
  subst hrest
  exact ⟨hfound, hsame⟩

/-- The field and the line with which both kinds of frames begin are read. -/
theorem readUntil_of_lines {field line : Bytes} {s₁ s₂ : Bursts Byte} (hfuel : reader.stream.size ≤ fuel)
    (hfield : (reader.stream.take 2).2.lineTo 0x20 = some (field, s₁))
    (hline : s₁.lineTo 0x0A = some (line, s₂)) (n : UInt64) :
    ∃ serial₁ serial₂,
      readUntil fuel 0x20 (reader.skip 2) = .ok (field, { reader with serial := serial₁ }) ∧
      readUntil fuel 0x0A { reader with serial := serial₁, msgByteCnt := n } =
        .ok (line, { reader with serial := serial₂, msgByteCnt := n }) ∧
      ({ reader with serial := serial₂, msgByteCnt := n } : Reader).stream = s₂ := by
  have h₀ := reader.stream.size_take_le 2
  have h₁ := (Bursts.lineTo_spec _ hfield).2
  have hskip : (reader.skip 2).stream = (reader.stream.take 2).2 := reader.stream_readSerialData 2
  rw [← hskip] at hfield
  obtain ⟨serial₁, hread₁, hstream₁⟩ := readTo_of_lineTo (getLast?_nil_ne _)
    (by rw [hskip]; omega : (reader.skip 2).stream.size ≤ fuel) hfield
  replace hstream₁ : ({ reader with serial := serial₁, msgByteCnt := n } : Reader).stream = s₁ := hstream₁
  rw [← hstream₁] at hline
  obtain ⟨serial₂, hread₂, hstream₂⟩ := readTo_of_lineTo (getLast?_nil_ne _)
    (by rw [hstream₁]; omega :
      ({ reader with serial := serial₁, msgByteCnt := n } : Reader).stream.size ≤ fuel) hline
  exact ⟨serial₁, serial₂, hread₁, hread₂, hstream₂⟩

theorem handlePeriodic_sound (reader reader' : Reader) (h : handlePeriodic fuel reader = .ok reader') :
    Periodic reader.rx reader.stream reader'.rx reader'.stream := by
  obtain ⟨⟨field, reader₁⟩, hfield, h⟩ := bind_eq_ok.1 h
  obtain ⟨⟨line, reader₂⟩, hline, h⟩ := bind_eq_ok.1 h
  cases h
  obtain ⟨hfound, serial₁, rfl⟩ := lineTo_of_readUntil hfield
  obtain ⟨hfound', serial₂, rfl⟩ := lineTo_of_readUntil hline
  rw [Reader.skip, Reader.stream_readSerialData] at hfound
  exact ⟨field, line, _, _, hfound, hfound', rfl, Reader.stream_readSerialData _ _⟩

theorem handlePeriodic_complete (reader : Reader) (rx' : Rx) (s' : Bursts Byte)
    (hfuel : reader.stream.size ≤ fuel) (h : Periodic reader.rx reader.stream rx' s') :
    ∃ reader', handlePeriodic fuel reader = .ok reader' ∧ reader'.rx = rx' ∧ reader'.stream = s' := by
  obtain ⟨field, line, s₁, s₂, hfield, hline, rfl, rfl⟩ := h
  obtain ⟨serial₁, serial₂, hread₁, hread₂, hstream₂⟩ :=
    readUntil_of_lines hfuel hfield hline reader.msgByteCnt
  have hskip := ({ reader with serial := serial₂ } : Reader).stream_readSerialData reader.byteCount
  refine ⟨{ ({ reader with serial := serial₂ } : Reader).skip reader.byteCount with msgIndex := 0 },
    bind_eq_ok.2 ⟨_, hread₁, bind_eq_ok.2 ⟨_, hread₂, rfl⟩⟩, rfl, ?_⟩
  rw [← hstream₂]
  exact hskip

theorem periodic_size (rx : Rx) (s : Bursts Byte) (rx' : Rx) (s' : Bursts Byte) (h : Periodic rx s rx' s') :
    s'.size ≤ s.size := by
  obtain ⟨field, line, s₁, s₂, hfield, hline, -, rfl⟩ := h
  have h₀ := s.size_take_le 2
  have h₁ := (Bursts.lineTo_spec _ hfield).2
  have h₂ := (Bursts.lineTo_spec _ hline).2
  have h₃ := s₂.size_take_le rx.msgByteCnt.toUInt32.toNat
  omega

theorem readFastInitReply_sound (reader reader' : Reader)
    (h : readFastInitReply toInt fuel reader = .ok reader') :
    FastInit toInt reader.rx reader.stream reader'.rx reader'.stream := by
  obtain ⟨⟨field, reader₁⟩, hfield, h⟩ := bind_eq_ok.1 h
  obtain ⟨⟨line, reader₂⟩, hline, h⟩ := bind_eq_ok.1 h
  obtain ⟨copied, hcopied, h⟩ := bind_eq_ok.1 h
  cases h
  obtain ⟨hfound, serial₁, rfl⟩ := lineTo_of_readUntil hfield
  obtain ⟨hfound', serial₂, rfl⟩ := lineTo_of_readUntil hline
  rw [Reader.skip, Reader.stream_readSerialData] at hfound
  obtain ⟨hfits, msg, rfl⟩ := of_copyPayload_reply hcopied
  rw [Reader.readSerialData_fst] at hfits
  exact ⟨field, line, _, _, _, hfound, hfound', rfl, hfits, rfl, Reader.stream_readSerialData _ _⟩

theorem readFastInitReply_complete (reader : Reader) (rx' : Rx) (s' : Bursts Byte)
    (hfuel : reader.stream.size ≤ fuel) (h : FastInit toInt reader.rx reader.stream rx' s') :
    ∃ reader', readFastInitReply toInt fuel reader = .ok reader' ∧ reader'.rx = rx' ∧
      reader'.stream = s' := by
  obtain ⟨field, line, s₁, s₂, n, hfield, hline, rfl, hfits, rfl, rfl⟩ := h
  obtain ⟨serial₁, serial₂, hread₁, hread₂, hstream₂⟩ :=
    readUntil_of_lines hfuel hfield hline (UInt64.ofInt (toInt field.dropLast))
  let reader₂ : Reader :=
    { reader with serial := serial₂, msgByteCnt := UInt64.ofInt (toInt field.dropLast) }
  have hreply := reader₂.readSerialData_fst reader₂.byteCount
  have hrest := reader₂.stream_readSerialData reader₂.byteCount
  rw [hstream₂] at hreply hrest
  replace hfits : 0 < reader₂.msgByteCnt.toNat →
      reader₂.msgByteCnt.toNat ≤ (s₂.take reader₂.byteCount).1.length ∧
        reader₂.msgByteCnt.toNat ≤ passthruMsgDataSize := hfits
  rw [← hreply] at hfits
  obtain ⟨msg, hcopied⟩ := copyPayload_reply _ (reader₂.readSerialData reader₂.byteCount).2 hfits
  exact ⟨_, bind_eq_ok.2 ⟨_, hread₁, bind_eq_ok.2 ⟨_, hread₂, bind_eq_ok.2 ⟨_, hcopied, rfl⟩⟩⟩, rfl, hrest⟩

theorem fastInit_size (rx : Rx) (s : Bursts Byte) (rx' : Rx) (s' : Bursts Byte)
    (h : FastInit toInt rx s rx' s') : s'.size ≤ s.size := by
  obtain ⟨field, line, s₁, s₂, n, hfield, hline, -, -, -, rfl⟩ := h
  have h₀ := s.size_take_le 2
  have h₁ := (Bursts.lineTo_spec _ hfield).2
  have h₂ := (Bursts.lineTo_spec _ hline).2
  have h₃ := s₂.size_take_le n.toUInt32.toNat
  omega

/-! ### What is skipped -/

/-- What no frame is made of: it stays received, and all that comes is skipped. -/
def Skipped (received : Bytes) : Prop :=
  Foreign received ∨ (∃ kind rest, received = 0x61 :: 0x72 :: kind :: rest ∧ frameKind kind = .other) ∨
    ∃ kind length msgType rest, received = 0x61 :: 0x72 :: kind :: length :: msgType :: rest ∧
      frameKind kind = .rx ∧ rxMsgType msgType = .other

theorem Skipped.append (h : Skipped received) (more : Bytes) : Skipped (received ++ more) := by
  rcases h with (⟨b, rest, rfl, hb⟩ | ⟨b, rest, rfl, hb⟩) | ⟨kind, rest, rfl, hkind⟩ |
    ⟨kind, length, msgType, rest, rfl, hkind, htype⟩
  · exact .inl (.inl ⟨b, rest ++ more, rfl, hb⟩)
  · exact .inl (.inr ⟨b, rest ++ more, rfl, hb⟩)
  · exact .inr (.inl ⟨kind, rest ++ more, rfl, hkind⟩)
  · exact .inr (.inr ⟨kind, length, msgType, rest ++ more, rfl, hkind, htype⟩)

theorem Skipped.ne_nil (h : Skipped received) : received ≠ [] := by
  rintro rfl
  rcases h with (⟨b, rest, h, -⟩ | ⟨b, rest, h, -⟩) | ⟨kind, rest, h, -⟩ |
    ⟨kind, length, msgType, rest, h, -⟩ <;> cases h

/-- A header with a kind is dispatched by it. -/
theorem dispatch_header (kind : Byte) (more : Bytes) (reader : Reader) :
    dispatch toInt fuel (0x61 :: 0x72 :: kind :: more) reader =
      handleAdapterFrame toInt fuel (0x61 :: 0x72 :: kind :: more) reader := rfl

theorem dispatch_foreign (h : Foreign received) (reader : Reader) :
    dispatch toInt fuel received reader = .ok (.continue, received, reader) := by
  rcases h with ⟨b, rest, rfl, hb⟩ | ⟨b, rest, rfl, hb⟩
  · exact if_neg hb
  · exact if_neg hb

theorem dispatch_kind {kind : Byte} (more : Bytes) (reader : Reader) :
    dispatch toInt fuel (0x61 :: 0x72 :: kind :: more) reader =
      match frameKind kind with
      | .ack => .ok (.continue, [], { reader.skip 2 with msgAck := true })
      | .error => .ok (.continue, [], reader)
      | .periodic => handlePeriodic fuel reader >>= fun reader' =>
          .ok (.continue, 0x61 :: 0x72 :: kind :: more, reader')
      | .line => readTo 0x0A fuel (0x61 :: 0x72 :: kind :: more) reader >>= fun (line, reader') =>
          copyLine line 0 reader'.msg >>= fun msg =>
          .ok (.return, line, { reader' with msg := { msg with dataSize := UInt64.ofNat line.length } })
      | .fastInit => readFastInitReply toInt fuel reader >>= fun reader' =>
          .ok (.continue, 0x61 :: 0x72 :: kind :: more, reader')
      | .rx => handleRxFrame (0x61 :: 0x72 :: kind :: more) reader
      | .other => .ok (.continue, 0x61 :: 0x72 :: kind :: more, reader) := by
  rw [dispatch_header]
  rfl

theorem dispatch_skipped (h : Skipped received) (reader : Reader) :
    ∃ more reader', dispatch toInt fuel received reader = .ok (.continue, received ++ more, reader') ∧
      reader'.stream.size ≤ reader.stream.size := by
  rcases h with hforeign | ⟨kind, rest, rfl, hkind⟩ | ⟨kind, length, msgType, rest, rfl, hkind, htype⟩
  · refine ⟨[], reader, ?_, le_rfl⟩
    rw [List.append_nil]
    exact dispatch_foreign hforeign reader
  · refine ⟨[], reader, ?_, le_rfl⟩
    rw [dispatch_kind, hkind, List.append_nil]
  · refine ⟨(reader.readSerialData 2).1,
      { (reader.readSerialData 2).2 with msgByteCnt := lengthOf length }, ?_, ?_⟩
    · rw [dispatch_kind, hkind]
      show handleRxMessage _ msgType _ = _
      rw [handleRxMessage, htype]
    · show (reader.readSerialData 2).2.stream.size ≤ _
      rw [Reader.stream_readSerialData]
      exact reader.stream.size_take_le 2

/-- What is skipped is skipped to the next silence. -/
theorem ends_of_skipped (h : Skipped received) (hturns : reader.stream.size + 2 ≤ turns) :
    Ends (readLoop toInt fuel turns received reader) := by
  induction turns generalizing received reader with
  | zero => cases hturns
  | succ turns ih =>
    obtain ⟨more, reader', hdispatch, hsize⟩ := dispatch_skipped h reader
    rw [readLoop_continue h.ne_nil hdispatch]
    have hread := reader'.readSerialData_fst 3
    have hstream := reader'.stream_readSerialData 3
    have htake := reader'.stream.size_take 3
    by_cases hsilence : (reader'.readSerialData 3).1 = []
    · rw [if_pos hsilence]
      obtain ⟨turns, rfl⟩ : ∃ t, turns = t + 1 := ⟨turns - 1, by omega⟩
      exact readLoop_nil _ _
    · rw [if_neg hsilence]
      refine ih ((h.append more).append _) ?_
      have hpos := List.length_pos_iff.2 hsilence
      rw [hread] at hpos
      rw [hstream]
      omega

/-! ### Frames -/

theorem copyLine_of_fits {line : Bytes} {i : ℕ} (h : i + line.length ≤ passthruMsgDataSize)
    (msg : PassThruMsg) : ∃ msg', copyLine line i msg = .ok msg' := by
  induction line generalizing i msg with
  | nil => exact ⟨msg, rfl⟩
  | cons b line ih =>
    rw [List.length_cons] at h
    obtain ⟨msg₁, hstore⟩ := @storeAt_of_lt msg i (by omega) b
    obtain ⟨msg', hrest⟩ := @ih (i + 1) (by omega) msg₁
    exact ⟨msg', bind_eq_ok.2 ⟨msg₁, hstore, hrest⟩⟩

theorem fits_of_copyLine {line : Bytes} {i : ℕ} {msg msg' : PassThruMsg} (hne : line ≠ [])
    (h : copyLine line i msg = .ok msg') : i + line.length ≤ passthruMsgDataSize := by
  induction line generalizing i msg with
  | nil => exact absurd rfl hne
  | cons b line ih =>
    obtain ⟨msg₁, hstore, h⟩ := bind_eq_ok.1 h
    have hlt := lt_of_storeAt hstore
    rw [List.length_cons]
    cases line with
    | nil => exact hlt
    | cons c line =>
      have hrest := ih (List.cons_ne_nil _ _) h
      omega

/-- The reader when the head of a message has been received. -/
def Reader.headed (reader : Reader) (length : Byte) : Reader :=
  { ((reader.readSerialData 3).2.readSerialData 2).2 with msgByteCnt := lengthOf length }

section Rx

variable {kind length msgType : Byte} {payload : Bytes} {rest : Bursts Byte}

theorem stream_headed (reader : Reader) (length : Byte) :
    (reader.headed length).stream = ((reader.stream.take 3).2.take 2).2 := by
  show ((reader.readSerialData 3).2.readSerialData 2).2.stream = _
  rw [Reader.stream_readSerialData, Reader.stream_readSerialData]

theorem received_headed (h : RxHead reader.stream kind length msgType payload rest) :
    (reader.headed length).received payload rest := by
  rw [Reader.received, stream_headed]
  exact h.payload

/-- The head of a message leads to its type. -/
theorem dispatch_rx (h : RxHead reader.stream kind length msgType payload rest) :
    dispatch toInt fuel (reader.readSerialData 3).1 (reader.readSerialData 3).2 =
      handleRxMessage [0x61, 0x72, kind, length, msgType] msgType (reader.headed length) := by
  have htwo := (reader.readSerialData 3).2.readSerialData_fst 2
  rw [Reader.stream_readSerialData, h.head] at htwo
  rw [Reader.readSerialData_fst, h.header, dispatch_kind, h.rx]
  show handleRxFrame [0x61, 0x72, kind] (reader.readSerialData 3).2 = _
  rw [handleRxFrame, htwo]
  rfl

/-- A frame with a message that is handled has its head. -/
theorem rxHead_of_dispatch {r : FrameOutcome × Bytes × Reader}
    (hheader : (reader.stream.take 3).1 = [0x61, 0x72, kind]) (hkind : frameKind kind = .rx)
    (hok : dispatch toInt fuel (reader.readSerialData 3).1 (reader.readSerialData 3).2 = .ok r) :
    ∃ length msgType payload rest, RxHead reader.stream kind length msgType payload rest := by
  rw [Reader.readSerialData_fst, hheader, dispatch_kind, hkind] at hok
  obtain ⟨length, hlength, hok⟩ := bind_eq_ok.1 hok
  obtain ⟨msgType, htype, -⟩ := bind_eq_ok.1 hok
  have htwo := (reader.readSerialData 3).2.readSerialData_fst 2
  rw [Reader.stream_readSerialData] at htwo
  have hle := (reader.stream.take 3).2.length_take 2
  rw [byteAt?_eq_ok, htwo] at hlength htype
  generalize htake : ((reader.stream.take 3).2.take 2).1 = two at hlength htype hle
  match two, hlength, htype, hle with
  | [], hlength, _, _ => cases hlength
  | [_], _, htype, _ => cases htype
  | [a, b], hlength, htype, _ =>
    cases hlength
    cases htype
    exact ⟨length, msgType, _, _, hheader, hkind, htake, rfl⟩
  | _ :: _ :: _ :: _, _, _, hle => simp only [List.length_cons] at hle; omega

/-- A message or its start is handled from its first place on. -/
theorem handleRxMessage_normal (h : Normal msgType) :
    ∃ msgCnt, handleRxMessage [0x61, 0x72, kind, length, msgType] msgType reader =
      handleNormFrame [0x61, 0x72, kind, length, msgType]
        { reader with msgIndex := startIndex reader.rx msgType, msgCnt := msgCnt } := by
  rcases h with h | h
  · refine ⟨reader.msgCnt, ?_⟩
    rw [handleRxMessage, h, startIndex, if_neg (by rw [h]; decide)]
    rfl
  · refine ⟨reader.msgCnt + 1, ?_⟩
    rw [handleRxMessage, h, startIndex, if_pos h]

/-- What a message that is skipped leaves. -/
theorem handleRxMessage_loopback (h : reader.received payload rest)
    (htype : rxMsgType msgType = .txDone ∨ rxMsgType msgType = .loopback) :
    ∃ reader', handleRxMessage [0x61, 0x72, kind, length, msgType] msgType reader =
        .ok (.continue, [], reader') ∧
      reader'.rx = { reader.rx with msgIndex := 0 } ∧ reader'.stream = rest := by
  have hstream : (reader.skip reader.byteCount).stream = rest := by
    rw [Reader.skip, Reader.stream_readSerialData]
    exact congrArg Prod.snd h
  rcases htype with htype | htype
  · rw [handleRxMessage, htype]
    exact ⟨_, rfl, rfl, hstream⟩
  · rw [handleRxMessage, htype]
    exact ⟨_, rfl, rfl, hstream⟩

theorem handleRxMessage_startInd (h : reader.received payload rest) (htype : rxMsgType msgType = .startInd) :
    ∃ reader', handleRxMessage [0x61, 0x72, kind, length, msgType] msgType reader =
        .ok (.continue, [], reader') ∧
      reader'.rx = ⟨0, reader.msgByteCnt, 0⟩ ∧ reader'.stream = rest := by
  have hstream : (reader.skip reader.byteCount).stream = rest := by
    rw [Reader.skip, Reader.stream_readSerialData]
    exact congrArg Prod.snd h
  rw [handleRxMessage, htype]
  exact ⟨_, rfl, rfl, hstream⟩

theorem readable_of_normal {r : FrameOutcome × Bytes × Reader}
    (head : RxHead reader.stream kind length msgType payload rest) (hnormal : Normal msgType)
    (hok : handleRxMessage [0x61, 0x72, kind, length, msgType] msgType (reader.headed length) = .ok r)
    (hnext : ∀ reader', r = (.continue, [], reader') → Readable toInt reader'.rx reader'.stream) :
    Readable toInt reader.rx reader.stream := by
  obtain ⟨msgCnt, hnorm⟩ := @handleRxMessage_normal (reader.headed length) kind length msgType hnormal
  rw [hnorm] at hok
  have hreceived : ({ reader.headed length with
      msgIndex := startIndex (reader.headed length).rx msgType, msgCnt := msgCnt } : Reader).received
      payload rest := received_headed head
  obtain ⟨hcopies, htimestamp⟩ := of_handleNormFrame hreceived hok
  by_cases hkind : kind = 0x35
  · exact .message head hnormal hkind hcopies (htimestamp hkind)
  · obtain ⟨reader', hr, hrx, hstream⟩ :=
      @handleNormFrame_chunk _ kind length msgType _ _ hreceived hkind hcopies
    have hreadable := hnext reader' (Except.ok.inj (hok.symm.trans hr))
    rw [hrx, hstream] at hreadable
    exact .chunk head hnormal hkind hcopies hreadable

/-- A message that is handled is readable, when what follows it is. -/
theorem readable_of_handleRxMessage {r : FrameOutcome × Bytes × Reader}
    (head : RxHead reader.stream kind length msgType payload rest)
    (hok : handleRxMessage [0x61, 0x72, kind, length, msgType] msgType (reader.headed length) = .ok r)
    (hnext : ∀ reader', r = (.continue, [], reader') → Readable toInt reader'.rx reader'.stream) :
    Readable toInt reader.rx reader.stream := by
  have hreceived := received_headed head
  cases htype : rxMsgType msgType with
  | txDone =>
    obtain ⟨reader', hr, hrx, hstream⟩ :=
      @handleRxMessage_loopback _ kind length msgType _ _ hreceived (.inl htype)
    have hreadable := hnext reader' (Except.ok.inj (hok.symm.trans hr))
    rw [hrx, hstream] at hreadable
    exact .loopback head (.inl htype) hreadable
  | loopback =>
    obtain ⟨reader', hr, hrx, hstream⟩ :=
      @handleRxMessage_loopback _ kind length msgType _ _ hreceived (.inr htype)
    have hreadable := hnext reader' (Except.ok.inj (hok.symm.trans hr))
    rw [hrx, hstream] at hreadable
    exact .loopback head (.inr htype) hreadable
  | startInd =>
    obtain ⟨reader', hr, hrx, hstream⟩ := @handleRxMessage_startInd _ kind length msgType _ _ hreceived htype
    have hreadable := hnext reader' (Except.ok.inj (hok.symm.trans hr))
    rw [hrx, hstream] at hreadable
    exact .startInd head htype hreadable
  | startOfMessage => exact readable_of_normal head (.inr htype) hok hnext
  | norm => exact readable_of_normal head (.inl htype) hok hnext
  | endInd =>
    obtain ⟨hcopies, htimestamp⟩ := of_handleRxMessage_end hreceived htype hok
    exact .endInd head htype hcopies htimestamp
  | other => exact .otherType head htype

end Rx

/-! ### Readable streams end -/

theorem dispatch_periodic {kind : Byte} (h : frameKind kind = .periodic) (more : Bytes) (reader : Reader) :
    dispatch toInt fuel (0x61 :: 0x72 :: kind :: more) reader = handlePeriodic fuel reader >>= fun reader' =>
      .ok (.continue, 0x61 :: 0x72 :: kind :: more, reader') := by
  rw [dispatch_kind, h]

theorem dispatch_fastInit {kind : Byte} (h : frameKind kind = .fastInit) (more : Bytes) (reader : Reader) :
    dispatch toInt fuel (0x61 :: 0x72 :: kind :: more) reader =
      readFastInitReply toInt fuel reader >>= fun reader' =>
        .ok (.continue, 0x61 :: 0x72 :: kind :: more, reader') := by
  rw [dispatch_kind, h]

theorem header_last_ne {kind : Byte} (h : frameKind kind = .line) :
    ([0x61, 0x72, kind] : Bytes).getLast? ≠ some 0x0A := by
  intro hlast
  obtain rfl : kind = 0x0A := Option.some.inj hlast
  exact absurd h (by decide)

/-- A frame that is handled is readable, when what follows it is. -/
theorem readable_of_header {kind : Byte} {r : FrameOutcome × Bytes × Reader}
    (hheader : (reader.stream.take 3).1 = [0x61, 0x72, kind])
    (h : Ends (readLoop toInt fuel turns (reader.readSerialData 3).1 (reader.readSerialData 3).2))
    (hr : dispatch toInt fuel (reader.readSerialData 3).1 (reader.readSerialData 3).2 = .ok r)
    (hnext : ∀ reader', r = (.continue, [], reader') → Readable toInt reader'.rx reader'.stream) :
    Readable toInt reader.rx reader.stream := by
  have hread := reader.readSerialData_fst 3
  have hstream := reader.stream_readSerialData 3
  cases hkind : frameKind kind with
  | rx =>
    obtain ⟨length, msgType, payload, rest, head⟩ := rxHead_of_dispatch hheader hkind hr
    rw [dispatch_rx head] at hr
    exact readable_of_handleRxMessage head hr hnext
  | other => exact .otherKind hheader hkind
  | ack =>
    rw [hread, hheader, dispatch_kind, hkind] at hr
    have hreadable := hnext _ (Except.ok.inj hr).symm
    have hskip := (reader.readSerialData 3).2.stream_readSerialData 2
    rw [hstream] at hskip
    exact .ack hheader hkind (hskip ▸ hreadable)
  | error =>
    rw [hread, hheader, dispatch_kind, hkind] at hr
    have hreadable := hnext _ (Except.ok.inj hr).symm
    exact .error hheader hkind (hstream ▸ hreadable)
  | line =>
    rw [hread, hheader, dispatch_kind, hkind] at hr
    obtain ⟨⟨line, reader'⟩, hline, hr⟩ := bind_eq_ok.1 hr
    obtain ⟨msg, hcopied, -⟩ := bind_eq_ok.1 hr
    obtain ⟨rest, hrest, rfl, -⟩ := lineTo_of_readTo (header_last_ne hkind) hline
    rw [hstream] at hrest
    have hfits := fits_of_copyLine (List.cons_ne_nil _ _) hcopied
    have hlength : ([0x61, 0x72, kind] ++ rest).length = 3 + rest.length := List.length_append
    refine .line hheader hkind hrest ?_
    rw [Nat.zero_add] at hfits
    exact hlength ▸ hfits
  | periodic =>
    rw [hread, hheader] at h
    have hrepeated := repeated_of_ends (dispatch_periodic hkind) handlePeriodic_sound h
    rw [hstream] at hrepeated
    exact .periodic hheader hkind hrepeated
  | fastInit =>
    rw [hread, hheader] at h
    have hrepeated := repeated_of_ends (dispatch_fastInit hkind) readFastInitReply_sound h
    rw [hstream] at hrepeated
    exact .fastInit hheader hkind hrepeated

/-- **A stream that is read to an end is readable.** -/
theorem readable_of_ends (h : Ends (readNext toInt fuel turns reader)) :
    Readable toInt reader.rx reader.stream := by
  induction turns generalizing reader with
  | zero => exact absurd h (not_ends_error _)
  | succ turns ih =>
    have hread := reader.readSerialData_fst 3
    have hstream := reader.stream_readSerialData 3
    have hlength := reader.stream.length_take 3
    by_cases hsilence : (reader.stream.take 3).1 = []
    · exact .silence hsilence
    rw [readNext] at h
    have hne : (reader.readSerialData 3).1 ≠ [] := by rwa [hread]
    obtain ⟨-, r, -, hr⟩ := dispatch_of_ends hne h
    -- what a frame that is cleared leaves is readable by the induction hypothesis
    have hnext : ∀ reader', r = (.continue, [], reader') → Readable toInt reader'.rx reader'.stream := by
      rintro reader' rfl
      rw [readLoop_cleared hne hr] at h
      exact ih h
    generalize hheader : (reader.stream.take 3).1 = header at hlength hsilence
    match header with
    | [] => exact absurd rfl hsilence
    | b :: rest =>
      by_cases hb : b = 0x61
      · subst hb
        match rest with
        | [] =>
          rw [hread, hheader] at hr
          cases hr
        | c :: rest =>
          by_cases hc : c = 0x72
          · subst hc
            match rest with
            | [] =>
              rw [hread, hheader] at hr
              cases hr
            | kind :: rest =>
              obtain rfl : rest = [] := List.eq_nil_of_length_eq_zero (by
                simp only [List.length_cons] at hlength
                omega)
              exact readable_of_header hheader h hr hnext
          · exact .foreign (.inr ⟨c, rest, hheader, hc⟩)
      · exact .foreign (.inl ⟨b, rest, hheader, hb⟩)

/-- After a frame that is cleared and stays in the stream, the next one is read. -/
theorem ends_of_cleared {reader' : Reader} (hheader : (reader.stream.take 3).1 ≠ [])
    (hdispatch : dispatch toInt fuel (reader.readSerialData 3).1 (reader.readSerialData 3).2 =
      .ok (.continue, [], reader'))
    (h : Ends (readNext toInt fuel turns reader')) : Ends (readNext toInt fuel (turns + 1) reader) := by
  rw [← reader.readSerialData_fst] at hheader
  rw [readNext, readLoop_cleared hheader hdispatch]
  exact h

theorem ends_of_stop {reader' : Reader} (hheader : (reader.stream.take 3).1 ≠ [])
    (hdispatch : dispatch toInt fuel (reader.readSerialData 3).1 (reader.readSerialData 3).2 =
      .ok (.stop, [], reader')) : Ends (readNext toInt fuel (turns + 1) reader) := by
  rw [← reader.readSerialData_fst] at hheader
  exact readLoop_stop hheader hdispatch

theorem RxHead.header_ne_nil {s rest : Bursts Byte} {kind length msgType : Byte} {payload : Bytes}
    (h : RxHead s kind length msgType payload rest) : (s.take 3).1 ≠ [] := by
  rw [h.header]
  exact List.cons_ne_nil _ _

/-- The head of a message is gone after it. -/
theorem RxHead.size_rest {s rest : Bursts Byte} {kind length msgType : Byte} {payload : Bytes}
    (h : RxHead s kind length msgType payload rest) : rest.size + 5 ≤ s.size := by
  have h₁ := s.size_take 3
  have h₂ := (s.take 3).2.size_take 2
  have h₃ := ((s.take 3).2.take 2).2.size_take_le (lengthOf length).toUInt32.toNat
  rw [h.header] at h₁
  rw [h.head] at h₂
  rw [h.payload] at h₃
  simp only [List.length_cons, List.length_nil] at h₁ h₂ h₃
  omega

/-- What is skipped from the header on is skipped to the next silence. -/
theorem ends_of_skipped_header (h : Skipped (reader.stream.take 3).1)
    (hturns : reader.stream.size + 2 ≤ turns) : Ends (readNext toInt fuel turns reader) := by
  have hsize := reader.stream.size_take_le 3
  rw [← reader.readSerialData_fst] at h
  refine ends_of_skipped h ?_
  rw [Reader.stream_readSerialData]
  omega

/-- **A readable stream is read to an end**, when the loops may turn as often as there are bytes and silences. -/
theorem ends_of_readable {rx : Rx} {s : Bursts Byte} (h : Readable toInt rx s) (hrx : reader.rx = rx)
    (hstream : reader.stream = s) (hfuel : s.size ≤ fuel) (hturns : s.size + 2 ≤ turns) :
    Ends (readNext toInt fuel turns reader) := by
  induction h generalizing reader turns with
  | silence silence =>
    subst hstream
    obtain ⟨turns, rfl⟩ : ∃ t, turns = t + 1 := ⟨turns - 1, by omega⟩
    rw [readNext, Reader.readSerialData_fst, silence]
    exact readLoop_nil _ _
  | foreign header =>
    subst hstream
    exact ends_of_skipped_header (.inl header) hturns
  | otherKind header other =>
    subst hstream
    exact ends_of_skipped_header (.inr (.inl ⟨_, [], header, other⟩)) hturns
  | ack header ack next ih =>
    subst hrx hstream
    have hsize := reader.stream.size_take 3
    have hsize' := (reader.stream.take 3).2.size_take_le 2
    have hskip := (reader.readSerialData 3).2.stream_readSerialData 2
    rw [reader.stream_readSerialData] at hskip
    rw [header] at hsize
    simp only [List.length_cons, List.length_nil] at hsize
    obtain ⟨turns, rfl⟩ : ∃ t, turns = t + 1 := ⟨turns - 1, by omega⟩
    refine ends_of_cleared (by rw [header]; exact List.cons_ne_nil _ _) ?_
      (@ih _ { (reader.readSerialData 3).2.skip 2 with msgAck := true } rfl hskip (by omega) (by omega))
    rw [Reader.readSerialData_fst, header, dispatch_kind, ack]
  | error header error next ih =>
    subst hrx hstream
    have hsize := reader.stream.size_take 3
    rw [header] at hsize
    simp only [List.length_cons, List.length_nil] at hsize
    obtain ⟨turns, rfl⟩ : ∃ t, turns = t + 1 := ⟨turns - 1, by omega⟩
    refine ends_of_cleared (by rw [header]; exact List.cons_ne_nil _ _) ?_
      (@ih _ (reader.readSerialData 3).2 rfl (reader.stream_readSerialData 3) (by omega) (by omega))
    rw [Reader.readSerialData_fst, header, dispatch_kind, error]
  | @line rx s rest kind line header lineKind ends fits =>
    subst hstream
    have hsize := reader.stream.size_take_le 3
    rw [← Reader.stream_readSerialData] at ends
    obtain ⟨serial, hline, -⟩ := readTo_of_lineTo (header_last_ne lineKind)
      (by rw [Reader.stream_readSerialData]; omega : (reader.readSerialData 3).2.stream.size ≤ fuel) ends
    have hlength : ([0x61, 0x72, kind] ++ line).length = 3 + line.length := List.length_append
    obtain ⟨msg, hcopied⟩ := @copyLine_of_fits ([0x61, 0x72, kind] ++ line) 0
      (by rw [hlength, Nat.zero_add]; exact fits) reader.msg
    obtain ⟨turns, rfl⟩ : ∃ t, turns = t + 1 := ⟨turns - 1, by omega⟩
    have hdispatch := @dispatch_kind toInt fuel kind [] (reader.readSerialData 3).2
    rw [lineKind] at hdispatch
    rw [readNext, Reader.readSerialData_fst, header]
    exact readLoop_return (List.cons_ne_nil _ _)
      (hdispatch.trans (bind_eq_ok.2 ⟨_, hline, bind_eq_ok.2 ⟨_, hcopied, rfl⟩⟩))
  | @periodic rx s kind header periodic lines =>
    subst hrx hstream
    have hsize := reader.stream.size_take_le 3
    rw [readNext, Reader.readSerialData_fst, header]
    exact ends_of_repeated (dispatch_periodic periodic) handlePeriodic_complete periodic_size lines rfl
      (reader.stream_readSerialData 3) (by omega) (by omega)
  | @fastInit rx s kind header fastInit lines =>
    subst hrx hstream
    have hsize := reader.stream.size_take_le 3
    rw [readNext, Reader.readSerialData_fst, header]
    exact ends_of_repeated (dispatch_fastInit fastInit) readFastInitReply_complete fastInit_size lines rfl
      (reader.stream_readSerialData 3) (by omega) (by omega)
  | @otherType rx s rest kind length msgType payload head other =>
    subst hrx hstream
    have hskipped : Skipped [0x61, 0x72, kind, length, msgType] :=
      .inr (.inr ⟨kind, length, msgType, [], rfl, head.rx, other⟩)
    have hdispatch := @dispatch_rx toInt fuel _ _ _ _ _ _ head
    rw [handleRxMessage, other] at hdispatch
    have hne := head.header_ne_nil
    rw [← reader.readSerialData_fst] at hne
    have hsize := reader.stream.size_take 3
    rw [head.header] at hsize
    simp only [List.length_cons, List.length_nil] at hsize
    have hsize₂ := (reader.stream.take 3).2.size_take_le 2
    have hsize₃ := (reader.headed length).stream.size_take_le 3
    rw [stream_headed] at hsize₃
    obtain ⟨turns, rfl⟩ : ∃ t, turns = t + 2 := ⟨turns - 2, by omega⟩
    rw [readNext, readLoop_continue hne hdispatch]
    -- the length and the type stay received too, so that what follows is skipped
    by_cases hsilence : ((reader.headed length).readSerialData 3).1 = []
    · rw [if_pos hsilence]
      exact readLoop_nil _ _
    · rw [if_neg hsilence]
      refine ends_of_skipped (hskipped.append _) ?_
      rw [Reader.stream_readSerialData, stream_headed]
      omega
  | loopback head loopback next ih =>
    subst hrx hstream
    have hsize := head.size_rest
    obtain ⟨reader', hr, hrx, hstream⟩ := handleRxMessage_loopback (received_headed head) loopback
    obtain ⟨turns, rfl⟩ : ∃ t, turns = t + 1 := ⟨turns - 1, by omega⟩
    exact ends_of_cleared head.header_ne_nil ((dispatch_rx head).trans hr)
      (ih hrx hstream (by omega) (by omega))
  | startInd head start next ih =>
    subst hrx hstream
    have hsize := head.size_rest
    obtain ⟨reader', hr, hrx, hstream⟩ := handleRxMessage_startInd (received_headed head) start
    obtain ⟨turns, rfl⟩ : ∃ t, turns = t + 1 := ⟨turns - 1, by omega⟩
    exact ends_of_cleared head.header_ne_nil ((dispatch_rx head).trans hr)
      (ih hrx hstream (by omega) (by omega))
  | @chunk rx s rest kind length msgType payload head normal chunk copies next ih =>
    subst hrx hstream
    have hsize := head.size_rest
    obtain ⟨msgCnt, hnorm⟩ := @handleRxMessage_normal (reader.headed length) kind length msgType normal
    obtain ⟨reader', hr, hrx, hstream⟩ := @handleNormFrame_chunk { reader.headed length with
      msgIndex := startIndex (reader.headed length).rx msgType, msgCnt := msgCnt } kind length msgType
      payload rest (received_headed head) chunk copies
    obtain ⟨turns, rfl⟩ : ∃ t, turns = t + 1 := ⟨turns - 1, by omega⟩
    exact ends_of_cleared head.header_ne_nil ((dispatch_rx head).trans (hnorm.trans hr))
      (ih hrx hstream (by omega) (by omega))
  | @message rx s rest kind length msgType payload head normal message copies timestamp =>
    subst hrx hstream
    obtain ⟨msgCnt, hnorm⟩ := @handleRxMessage_normal (reader.headed length) kind length msgType normal
    obtain ⟨reader', hr⟩ := @handleNormFrame_message { reader.headed length with
      msgIndex := startIndex (reader.headed length).rx msgType, msgCnt := msgCnt } kind length msgType
      payload rest (received_headed head) message copies timestamp
    obtain ⟨turns, rfl⟩ : ∃ t, turns = t + 1 := ⟨turns - 1, by omega⟩
    exact ends_of_stop head.header_ne_nil ((dispatch_rx head).trans (hnorm.trans hr))
  | @endInd rx s rest kind length msgType payload head endInd copies timestamp =>
    subst hrx hstream
    obtain ⟨reader', hr⟩ := @handleRxMessage_end_ok (reader.headed length) kind length msgType payload rest
      (received_headed head) endInd copies timestamp
    obtain ⟨turns, rfl⟩ : ∃ t, turns = t + 1 := ⟨turns - 1, by omega⟩
    exact ends_of_stop head.header_ne_nil ((dispatch_rx head).trans hr)

end Loop

/-! ### The call -/

section Call

variable (serial : SerialByteBuffer) (msgAck isTxDone : Bool) (msg : PassThruMsg) (timeout : UInt64)

/-- The reader at the start of a call. -/
def Reader.start : Reader := { serial, msgAck, isTxDone, msg, timeout }

/-- A readable stream needs as many turns as it has bytes and silences, and two more. -/
theorem passThruReadMsgs_ends {fuel : ℕ}
    (hfuel : (serial.bursts timeout.toUInt16.toNat).size + 2 ≤ fuel)
    (h : Readable toInt {} (serial.bursts timeout.toUInt16.toNat)) :
    Ends (passThruReadMsgs toInt fuel (.start serial msgAck isTxDone msg timeout)) :=
  @ends_of_readable toInt fuel fuel (.start serial msgAck isTxDone msg timeout) _ _ h rfl rfl (by omega) hfuel

/-- **A call ends without a fault exactly when its stream is readable.** -/
theorem passThruReadMsgs_ends_iff :
    (∃ fuel, Ends (passThruReadMsgs toInt fuel (.start serial msgAck isTxDone msg timeout))) ↔
      Readable toInt {} (serial.bursts timeout.toUInt16.toNat) := by
  constructor
  · rintro ⟨fuel, h⟩
    exact readable_of_ends h
  · intro h
    exact ⟨_, passThruReadMsgs_ends toInt serial msgAck isTxDone msg timeout le_rfl h⟩

end Call

/-- The reader of a call that gets some bytes and then silence, with the message of `ReadVbatt`. -/
def Reader.ofBytes (bytes : Bytes) : Reader :=
  .start ⟨[], [⟨bytes, 0⟩]⟩ false true ⟨0, 0, 0, Vector.replicate passthruMsgDataSize 0⟩ 2000

/-- A header that is cut after `ar`, and the line of a battery voltage of which nothing arrives but the
header: the first is indexed outside, the second is waited for without end. -/
theorem passThruReadMsgs_cut :
    (∀ fuel, passThruReadMsgs (fun _ => 0) (fuel + 1) (.ofBytes [0x61, 0x72]) = .error .outOfRange) ∧
      ∀ fuel, ¬ Ends (passThruReadMsgs (fun _ => 0) fuel (.ofBytes [0x61, 0x72, 0x72])) := by
  refine ⟨fun fuel => rfl, fun fuel h => ?_⟩
  have hkind : frameKind 0x72 = .line := rfl
  obtain ⟨turns, r, rfl, hr⟩ := dispatch_of_ends (List.cons_ne_nil _ _) h
  have hheader := @dispatch_kind (fun _ => 0) (turns + 1) 0x72 []
    ((Reader.ofBytes [0x61, 0x72, 0x72]).readSerialData 3).2
  rw [hkind] at hheader
  obtain ⟨⟨line, reader⟩, hline, -⟩ := bind_eq_ok.1 (hheader.symm.trans hr)
  obtain ⟨rest, hrest, -⟩ := lineTo_of_readTo (header_last_ne hkind) hline
  cases hrest

example : Readable (fun _ => 0) {} ⟨[0x61, 0x72, 0x6F, 0x0D, 0x0A], []⟩ := .ack rfl rfl (.silence rfl)

end FastEcu.Serial.J2534
