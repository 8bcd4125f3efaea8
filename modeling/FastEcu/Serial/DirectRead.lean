import FastEcu.Bytes.Words

/-!
# Reading from a serial port

The reads of a plain serial adapter
(`src/platform/desktop/common/serial/direct/common/serial_port_actions_direct.cpp`): a read waits for bytes,
takes a header of four bytes, and then as many bytes as the header says, until its deadline.

* `Port` : what is available, and what each wait brings before the deadline.
* `readUntilLength`, `readSerialData` : the reads.
* `readUntilLength_complete`, `readUntilLength_late` : when a read has all of its bytes, and when it has no
  time left.
* `appendIso14230Header` : the frames of ISO 14230.
* `readSerialData_iso14230_iff` : the frames that a read returns as they are.
-/

namespace FastEcu.Serial

/-! ### The port -/

/-- A port during a read: the bytes that are available, and what each wait brings until the clock has
passed the deadline, which is when no wait is left. -/
structure Port where
  available : Bytes
  waits : List Bytes
deriving DecidableEq

namespace Port

/-- All the bytes that arrive. -/
def stream (p : Port) : Bytes := p.available ++ p.waits.flatten

/-- The bytes that have arrived after a number of waits. -/
def seen (p : Port) (n : ℕ) : Bytes := p.available ++ (p.waits.take n).flatten

variable {available b : Bytes} {waits : List Bytes}

theorem length_seen_zero : (seen ⟨available, waits⟩ 0).length = available.length := by
  simp [seen]

theorem length_seen_succ (k : ℕ) : (seen ⟨available, b :: waits⟩ (k + 1)).length =
    (seen ⟨available ++ b, waits⟩ k).length := by
  simp [seen]

theorem length_seen_append (l : Bytes) (k : ℕ) : (seen ⟨l ++ available, waits⟩ k).length =
    l.length + (seen ⟨available, waits⟩ k).length := by
  simp [seen]

theorem seen_add (p : Port) (n k : ℕ) :
    p.seen (n + k) = p.seen n ++ ((p.waits.drop n).take k).flatten := by
  rw [seen, seen, List.take_add, List.flatten_append, List.append_assoc]

theorem length_seen_mono (p : Port) {n k : ℕ} (h : n ≤ k) : (p.seen n).length ≤ (p.seen k).length := by
  obtain ⟨i, rfl⟩ := Nat.exists_eq_add_of_le h
  rw [seen_add, List.length_append]
  exact Nat.le_add_right _ _

theorem stream_eq_seen (p : Port) (n : ℕ) : p.stream = p.seen n ++ (p.waits.drop n).flatten := by
  rw [stream, seen, List.append_assoc, ← List.flatten_append, List.take_append_drop]

end Port

/-! ### Reads -/

/-- `WaitForBytesAvailable`. -/
def waitForBytesAvailable : Bytes → List Bytes → Port
  | available, [] => ⟨available, []⟩
  | available, b :: waits =>
    if available = [] then waitForBytesAvailable (available ++ b) waits else ⟨available, b :: waits⟩

/-- The headers that `DropToKnownHeader` looks for: BEEF, and two of SSM. -/
def startsWithKnownHeader (received : Bytes) : Bool :=
  [0xBE, 0xEF].isPrefixOf received || [0x80, 0xF0, 0x10].isPrefixOf received ||
    [0x80, 0xF0, 0x01].isPrefixOf received

/-- `DropToKnownHeader`. -/
def dropToKnownHeader : Bytes → Bytes
  | [] => []
  | b :: received =>
    if 2 < (b :: received).length ∧ ¬ startsWithKnownHeader (b :: received) then
      dropToKnownHeader received
    else b :: received

/-- `ReadUntilLength`: the buffer and the port at the end. -/
def readUntilLength (length : ℕ) (resyncHeader : Bool) : Bytes → Bytes → List Bytes → Bytes × Port
  | buffer, available, [] => (buffer, ⟨available, []⟩)
  | buffer, available, b :: waits =>
    if buffer.length < length then
      let taken := buffer ++ available.take (length - buffer.length)
      readUntilLength length resyncHeader (if resyncHeader then dropToKnownHeader taken else taken)
        (available.drop (length - buffer.length) ++ b) waits
    else (buffer, ⟨available, b :: waits⟩)

/-- `kSerialHeaderLength`. -/
def serialHeaderLength : ℕ := 4

/-- The value of a byte as a `char`, which is signed on the desktop platforms. -/
def charValue (b : Byte) : ℤ := if b.toNat < 128 then b.toNat else b.toNat - 256

/-- `PayloadLength`. -/
def payloadLength (header : Bytes) (isIso14230 : Bool) : ℕ :=
  if header.length < serialHeaderLength then 0
  else if isIso14230 then
    if byteAt header 0 &&& 0x3F ≠ 0 then (byteAt header 0 &&& 0x3F).toNat
    else ((charValue (byteAt header 3) + 1) % 4294967296).toNat
  else if [0xBE, 0xEF].isPrefixOf header then (byteAt header 2).toNat * 256 + (byteAt header 3).toNat + 1
  else if [0x80, 0xF0].isPrefixOf header then (byteAt header 3).toNat + 1
  else 0

/-- `SetError`. -/
def setError : Bytes := [0x80, 0xF0, 0x10, 0x03, 0x7F, 0x00, 0x13]

/-- `ReadSerialData` on a port that is open, without the Openport adapter. -/
def readSerialData (isIso14230 : Bool) (p : Port) : Bytes × Port :=
  let p := waitForBytesAvailable p.available p.waits
  if p.available = [] then ([], p)
  else
    let header := readUntilLength serialHeaderLength (!isIso14230) [] p.available p.waits
    let msglen := payloadLength header.1 isIso14230
    let payload := readUntilLength msglen false [] header.2.available header.2.waits
    let received :=
      if header.1 ≠ [] ∧ (header.1.length < serialHeaderLength ∨ payload.1.length < msglen) then
        setError ++ header.1
      else header.1
    (received ++ payload.1, payload.2)

/-! ### A read in time -/

section ReadUntilLength

variable {length : ℕ} {resyncHeader : Bool} {buffer available : Bytes} {waits : List Bytes}

theorem readUntilLength_of_le (h : length ≤ buffer.length) :
    readUntilLength length resyncHeader buffer available waits = (buffer, ⟨available, waits⟩) := by
  cases waits with
  | nil => rfl
  | cons b waits => rw [readUntilLength, if_neg (Nat.not_lt.2 h)]

/-- Nothing is lost by a read that does not look for a header. -/
theorem readUntilLength_stream :
    (readUntilLength length false buffer available waits).1 ++
      (readUntilLength length false buffer available waits).2.stream =
        buffer ++ (available ++ waits.flatten) := by
  induction waits generalizing buffer available with
  | nil => simp [readUntilLength, Port.stream]
  | cons b waits ih =>
    rw [readUntilLength]
    split
    · simp only [Bool.false_eq_true, if_false]
      rw [ih]
      simp only [List.append_assoc, List.flatten_cons]
      rw [← List.append_assoc (List.take _ _), List.take_append_drop]
    · rfl

theorem length_readUntilLength_le (h : buffer.length ≤ length) :
    (readUntilLength length false buffer available waits).1.length ≤ length := by
  induction waits generalizing buffer available with
  | nil => exact h
  | cons b waits ih =>
    rw [readUntilLength]
    split
    · simp only [Bool.false_eq_true, if_false]
      refine ih ?_
      rw [List.length_append, List.length_take]
      omega
    · exact h

/-- One turn of a read moves what is available into the buffer. -/
theorem length_turn (h : buffer.length < length) (b : Bytes) (waits : List Bytes) (k : ℕ) :
    (buffer ++ available.take (length - buffer.length)).length +
        (Port.seen ⟨available.drop (length - buffer.length) ++ b, waits⟩ k).length =
      buffer.length + (Port.seen ⟨available, b :: waits⟩ (k + 1)).length := by
  rw [Port.length_seen_succ, Port.length_seen_append, Port.length_seen_append, List.length_append,
    List.length_take, List.length_drop]
  omega

/-- A read whose bytes are seen while there is time has them, and has used no more waits. -/
theorem readUntilLength_complete {k : ℕ} (hlt : buffer.length < length) (hk : k < waits.length)
    (hseen : length ≤ buffer.length + (Port.seen ⟨available, waits⟩ k).length) :
    ∃ n ≤ k + 1, (readUntilLength length false buffer available waits).1.length = length ∧
      (readUntilLength length false buffer available waits).2.waits = waits.drop n := by
  induction waits generalizing buffer available k with
  | nil => exact absurd hk (Nat.not_lt_zero k)
  | cons b waits ih =>
    rw [readUntilLength, if_pos hlt]
    simp only [Bool.false_eq_true, if_false]
    have htaken : (buffer ++ available.take (length - buffer.length)).length ≤ length := by
      rw [List.length_append, List.length_take]
      omega
    rcases Nat.lt_or_eq_of_le htaken with hshort | hall
    · cases k with
      | zero =>
        -- there is nothing else that could be seen already
        rw [Port.length_seen_zero] at hseen
        rw [List.length_append, List.length_take] at hshort
        omega
      | succ k =>
        obtain ⟨n, hn, hlength, hwaits⟩ := ih hshort (Nat.lt_of_succ_lt_succ hk)
          (by rw [length_turn hlt]; exact hseen)
        exact ⟨n + 1, Nat.succ_le_succ hn, hlength, hwaits⟩
    · rw [readUntilLength_of_le (le_of_eq hall.symm)]
      exact ⟨1, Nat.le_add_left 1 k, hall, rfl⟩

/-- A read whose bytes are seen at the last moment or not at all has no wait left. -/
theorem readUntilLength_late (hlt : buffer.length < length)
    (hlate : ∀ k, k + 1 < waits.length →
      buffer.length + (Port.seen ⟨available, waits⟩ k).length < length) :
    (readUntilLength length false buffer available waits).2.waits = [] := by
  induction waits generalizing buffer available with
  | nil => rfl
  | cons b waits ih =>
    rw [readUntilLength, if_pos hlt]
    simp only [Bool.false_eq_true, if_false]
    cases waits with
    | nil => rfl
    | cons b' waits =>
      have hfirst := hlate 0 (by simp)
      rw [Port.length_seen_zero] at hfirst
      refine ih ?_ ?_
      · rw [List.length_append, List.length_take]
        omega
      · intro k hk
        rw [length_turn hlt]
        exact hlate (k + 1) (by simpa using hk)

/-- A read that has all of its bytes has seen them in time. -/
theorem seen_of_readUntilLength (hlt : buffer.length < length)
    (h : (readUntilLength length false buffer available waits).1.length = length) :
    ∃ k < waits.length, length ≤ buffer.length + (Port.seen ⟨available, waits⟩ k).length ∧
      (readUntilLength length false buffer available waits).2.waits = waits.drop (k + 1) := by
  induction waits generalizing buffer available with
  | nil => exact absurd h (Nat.ne_of_lt hlt)
  | cons b waits ih =>
    rw [readUntilLength, if_pos hlt] at h ⊢
    simp only [Bool.false_eq_true, if_false] at h ⊢
    by_cases hall : length ≤ (buffer ++ available.take (length - buffer.length)).length
    · rw [readUntilLength_of_le hall] at h ⊢
      refine ⟨0, Nat.zero_lt_succ _, ?_, rfl⟩
      rw [List.length_append, List.length_take] at hall
      rw [Port.length_seen_zero]
      omega
    · obtain ⟨k, hk, hseen, hwaits⟩ := ih (Nat.lt_of_not_le hall) h
      refine ⟨k + 1, Nat.succ_lt_succ hk, ?_, hwaits⟩
      rwa [length_turn hlt] at hseen

theorem prefix_readUntilLength :
    buffer <+: (readUntilLength length false buffer available waits).1 := by
  induction waits generalizing buffer available with
  | nil => exact List.prefix_rfl
  | cons b waits ih =>
    rw [readUntilLength]
    split
    · exact (List.prefix_append _ _).trans ih
    · exact List.prefix_rfl

/-- A read that has none of its bytes has seen nothing in time. -/
theorem silent_of_readUntilLength (hlength : 0 < length)
    (h : (readUntilLength length false [] available waits).1 = []) (k : ℕ) (hk : k < waits.length) :
    Port.seen ⟨available, waits⟩ k = [] := by
  induction waits generalizing available k with
  | nil => exact absurd hk (Nat.not_lt_zero k)
  | cons b waits ih =>
    rw [readUntilLength, List.length_nil, if_pos hlength] at h
    simp only [Bool.false_eq_true, if_false, List.nil_append, Nat.sub_zero] at h
    have htaken : available.take length = [] := by
      have hpre := @prefix_readUntilLength length (available.take length)
        (available.drop length ++ b) waits
      rw [h] at hpre
      exact List.prefix_nil.1 hpre
    have hnil : available = [] := (List.take_eq_nil_iff.1 htaken).resolve_left (Nat.ne_of_gt hlength)
    subst hnil
    cases k with
    | zero => rfl
    | succ k =>
      rw [List.take_nil, List.drop_nil, List.nil_append] at h
      exact ih h k (Nat.lt_of_succ_lt_succ hk)

/-- A read that has seen nothing in time takes nothing. -/
theorem readUntilLength_of_silent (resyncHeader : Bool)
    (h : ∀ k < waits.length, Port.seen ⟨available, waits⟩ k = []) :
    (readUntilLength length resyncHeader [] available waits).1 = [] ∧
      (readUntilLength length resyncHeader [] available waits).2.stream =
        Port.stream ⟨available, waits⟩ := by
  induction waits generalizing available with
  | nil => exact ⟨rfl, rfl⟩
  | cons b waits ih =>
    have hnil : available = [] := by simpa [Port.seen] using h 0 (Nat.zero_lt_succ _)
    subst hnil
    rw [readUntilLength]
    split
    · simp only [List.take_nil, List.drop_nil, List.nil_append, dropToKnownHeader, ite_self]
      exact ih fun k hk => h (k + 1) (Nat.succ_lt_succ hk)
    · exact ⟨rfl, rfl⟩

end ReadUntilLength

/-- Waiting for the first byte is what the read of the header does too. -/
theorem readUntilLength_waitForBytesAvailable {length : ℕ} (hlength : 0 < length) (resyncHeader : Bool)
    (available : Bytes) (waits : List Bytes) :
    readUntilLength length resyncHeader [] (waitForBytesAvailable available waits).available
        (waitForBytesAvailable available waits).waits =
      readUntilLength length resyncHeader [] available waits := by
  induction waits generalizing available with
  | nil => rfl
  | cons b waits ih =>
    by_cases havailable : available = []
    · subst havailable
      rw [waitForBytesAvailable, if_pos rfl, ih, readUntilLength.eq_2, List.length_nil, if_pos hlength]
      cases resyncHeader <;> simp [dropToKnownHeader]
    · rw [waitForBytesAvailable, if_neg havailable]

theorem waits_of_waitForBytesAvailable {available : Bytes} {waits : List Bytes}
    (h : (waitForBytesAvailable available waits).available = []) :
    waitForBytesAvailable available waits = ⟨[], []⟩ := by
  induction waits generalizing available with
  | nil =>
    have hnil : available = [] := h
    rw [hnil, waitForBytesAvailable]
  | cons b waits ih =>
    rw [waitForBytesAvailable] at h ⊢
    split at h
    · rename_i hnil
      rw [if_pos hnil]
      exact ih h
    · rename_i hne
      exact absurd h hne

/-- `ReadSerialData` without the wait. -/
theorem readSerialData_eq (isIso14230 : Bool) (p : Port) :
    readSerialData isIso14230 p =
      let header := readUntilLength serialHeaderLength (!isIso14230) [] p.available p.waits
      let msglen := payloadLength header.1 isIso14230
      let payload := readUntilLength msglen false [] header.2.available header.2.waits
      ((if header.1 ≠ [] ∧ (header.1.length < serialHeaderLength ∨ payload.1.length < msglen) then
        setError ++ header.1 else header.1) ++ payload.1, payload.2) := by
  unfold readSerialData
  by_cases havailable : (waitForBytesAvailable p.available p.waits).available = []
  · have hnil := waits_of_waitForBytesAvailable havailable
    have hread := @readUntilLength_waitForBytesAvailable serialHeaderLength (by decide) (!isIso14230)
      p.available p.waits
    rw [hnil] at hread
    simp only [hnil, if_true, ← hread]
    rfl
  · rw [if_neg havailable, readUntilLength_waitForBytesAvailable (by decide)]

/-! ### Reads of a frame -/

section Whole

variable {isIso14230 : Bool} {frame following : Bytes} {p : Port}

/-- A read whose bytes are seen in time takes them, and leaves the others. -/
theorem readUntilLength_of_seen {length k : ℕ} {available : Bytes} {waits : List Bytes}
    (hlength : 0 < length) (hk : k < waits.length)
    (hseen : length ≤ (Port.seen ⟨available, waits⟩ k).length) :
    ∃ n rest, n ≤ k + 1 ∧ readUntilLength length false [] available waits =
        ((Port.stream ⟨available, waits⟩).take length, rest) ∧
      rest.waits = waits.drop n ∧ rest.stream = (Port.stream ⟨available, waits⟩).drop length ∧
      ∀ j, length + (rest.seen j).length = (Port.seen ⟨available, waits⟩ (n + j)).length := by
  obtain ⟨n, hn, htaken, hwaits⟩ := @readUntilLength_complete length [] available waits k hlength hk
    (by simpa using hseen)
  have hstream := @readUntilLength_stream length [] available waits
  rcases hread : readUntilLength length false [] available waits with ⟨taken, rest⟩
  rw [hread] at htaken hwaits hstream
  have hparts : taken ++ rest.stream = Port.stream ⟨available, waits⟩ := hstream
  refine ⟨n, rest, hn, ?_, hwaits, ?_, ?_⟩
  · rw [← hparts, List.take_left' htaken]
  · rw [← hparts, List.drop_left' htaken]
  · intro j
    have hseen' : taken ++ rest.available = Port.seen ⟨available, waits⟩ n := by
      have h := hparts.trans (Port.stream_eq_seen ⟨available, waits⟩ n)
      rw [Port.stream, hwaits, ← List.append_assoc] at h
      exact List.append_cancel_right h
    rw [Port.seen_add, ← hseen', Port.seen, hwaits]
    simp only [List.length_append, ← htaken]
    omega

/-- A frame that is seen in time is returned as it is, if its header says its length and is not
dropped. -/
theorem readSerialData_whole (hfive : 5 ≤ frame.length)
    (hmsglen : payloadLength (frame.take 4) isIso14230 + 4 = frame.length)
    (hstream : p.stream = frame ++ following)
    (hkept : readUntilLength serialHeaderLength (!isIso14230) [] p.available p.waits =
      readUntilLength serialHeaderLength false [] p.available p.waits)
    (hheader : ∃ k, k + 1 < p.waits.length ∧ 4 ≤ (p.seen k).length)
    (hwhole : ∃ k < p.waits.length, frame.length ≤ (p.seen k).length) :
    (readSerialData isIso14230 p).1 = frame ∧ (readSerialData isIso14230 p).2.stream = following := by
  obtain ⟨k, hk, hseen⟩ := hheader
  obtain ⟨m, hm, hall⟩ := hwhole
  -- the header
  obtain ⟨n, rest, hn, hheader, hwaits, hrest, hleft⟩ :=
    @readUntilLength_of_seen serialHeaderLength k p.available p.waits (by decide)
      (Nat.lt_of_succ_lt hk) hseen
  have hfour : p.stream.take serialHeaderLength = frame.take 4 := by
    rw [hstream]
    exact List.take_append_of_le_length (by rw [serialHeaderLength]; omega)
  have hdrop : p.stream.drop serialHeaderLength = frame.drop 4 ++ following := by
    rw [hstream]
    exact List.drop_append_of_le_length (by rw [serialHeaderLength]; omega)
  have hfour' : Port.stream ⟨p.available, p.waits⟩ = p.stream := rfl
  rw [hfour', hfour] at hheader
  rw [hfour', hdrop] at hrest
  -- the rest of the frame, which is seen no earlier than the header
  have hmono := p.length_seen_mono (show m ≤ n + (m - n) by omega)
  have hleft' := hleft (m - n)
  obtain ⟨n', rest', -, hpayload, -, hend, -⟩ :=
    @readUntilLength_of_seen (payloadLength (frame.take 4) isIso14230) (m - n) rest.available rest.waits
      (by omega) (by rw [hwaits, List.length_drop]; omega) (by
        change serialHeaderLength + (rest.seen (m - n)).length = (p.seen (n + (m - n))).length at hleft'
        change _ ≤ (rest.seen (m - n)).length
        rw [serialHeaderLength] at hleft'
        omega)
  have hrest' : Port.stream ⟨rest.available, rest.waits⟩ = rest.stream := rfl
  rw [hrest', hrest] at hpayload hend
  have hlength : (frame.drop 4).length = payloadLength (frame.take 4) isIso14230 := by
    rw [List.length_drop]
    omega
  rw [List.take_left' hlength] at hpayload
  rw [List.drop_left' hlength] at hend
  rw [readSerialData_eq]
  simp only
  rw [hkept, hheader]
  simp only
  rw [hpayload, if_neg]
  · exact ⟨List.take_append_drop 4 frame, hend⟩
  · rintro ⟨-, h | h⟩
    · rw [List.length_take, serialHeaderLength] at h
      omega
    · exact absurd hlength (Nat.ne_of_lt h)

/-- What a read without an error prefix is made of. -/
theorem readSerialData_eq_frame (hne : frame ≠ []) (herror : ∀ rest, setError ++ rest ≠ frame)
    (hresult : (readSerialData isIso14230 p).1 = frame) :
    ∃ header rest, readUntilLength serialHeaderLength (!isIso14230) [] p.available p.waits =
        (header, rest) ∧ 4 ≤ header.length ∧
      frame = header ++ (readUntilLength (payloadLength header isIso14230) false [] rest.available
        rest.waits).1 ∧
      frame.length = header.length + payloadLength header isIso14230 := by
  rw [readSerialData_eq] at hresult
  rcases hheader : readUntilLength serialHeaderLength (!isIso14230) [] p.available p.waits with
    ⟨header, rest⟩
  rw [hheader] at hresult
  simp only at hresult
  have hle : (readUntilLength (payloadLength header isIso14230) false [] rest.available
      rest.waits).1.length ≤ payloadLength header isIso14230 := length_readUntilLength_le (Nat.zero_le _)
  by_cases hbad : header ≠ [] ∧ (header.length < serialHeaderLength ∨
      (readUntilLength (payloadLength header isIso14230) false [] rest.available rest.waits).1.length <
        payloadLength header isIso14230)
  · rw [if_pos hbad, List.append_assoc] at hresult
    exact absurd hresult (herror _)
  · rw [if_neg hbad] at hresult
    refine ⟨header, rest, rfl, ?_, hresult.symm, ?_⟩
    · by_contra hshort
      -- a header that is short is empty, and so is what follows it
      have hnil : header = [] := by
        by_contra hne'
        exact hbad ⟨hne', .inl (Nat.lt_of_not_le hshort)⟩
      rw [hnil] at hresult
      have hzero : payloadLength [] isIso14230 = 0 := rfl
      rw [hzero, readUntilLength_of_le (Nat.zero_le _)] at hresult
      exact hne hresult.symm
    · rw [← hresult, List.length_append]
      by_cases hnil : header = []
      · subst hnil
        have hzero : payloadLength [] isIso14230 = 0 := rfl
        rw [hzero] at hle ⊢
        omega
      · have hfull := Nat.le_of_not_lt fun h => hbad ⟨hnil, .inr h⟩
        omega

end Whole

/-! ### Frames of ISO 14230 -/

/-- `AppendIso14230Header`. -/
def appendIso14230Header (startByte targetId testerId : Byte) (output : Bytes) : Bytes :=
  let msglength := UInt8.ofNat output.length
  let framed :=
    if msglength < 0x40 then [startByte ||| msglength, targetId, testerId] ++ output
    else [startByte, targetId, testerId, msglength] ++ output
  framed ++ [framed.foldl (· + ·) 0]

section Iso14230

variable {startByte targetId testerId : Byte} {payload : Bytes}

theorem toNat_ofNat_length (h : payload.length ≤ 255) :
    (UInt8.ofNat payload.length).toNat = payload.length := by
  rw [UInt8.toNat_ofNat']
  omega

/-- The format byte of a short frame has its length. -/
theorem format_and {length : Byte} (hstart : startByte &&& 0x3F = 0) (hlength : length.toNat < 64) :
    (startByte ||| length) &&& 0x3F = length := by
  have hmod (b : Byte) : (b &&& 0x3F).toNat = b.toNat % 2 ^ 6 := by
    rw [UInt8.toNat_and]
    exact Nat.and_two_pow_sub_one_eq_mod b.toNat 6
  have hzero : startByte.toNat % 2 ^ 6 = 0 := by
    rw [← hmod, hstart]
    rfl
  apply UInt8.toNat.inj
  rw [hmod, UInt8.toNat_or, Nat.or_mod_two_pow, hzero, Nat.zero_or, Nat.mod_eq_of_lt hlength]

/-- The two forms of a frame: the length is in the format byte, or in a byte of its own. -/
theorem frame_cases (hstart : startByte &&& 0x3F = 0)
    (hpayload : 1 ≤ payload.length ∧ payload.length ≤ 255) :
    let frame := appendIso14230Header startByte targetId testerId payload
    payload.length < 64 ∧ frame.length = payload.length + 4 ∧
        (byteAt frame 0 &&& 0x3F).toNat = payload.length ∨
      64 ≤ payload.length ∧ frame.length = payload.length + 5 ∧ byteAt frame 0 = startByte ∧
        (byteAt frame 3).toNat = payload.length := by
  intro frame
  have hlength := toNat_ofNat_length hpayload.2
  by_cases hshort : payload.length < 64
  · have hlt : UInt8.ofNat payload.length < 0x40 := by
      rw [UInt8.lt_iff_toNat_lt, hlength]
      exact hshort
    have hframe : frame = [startByte ||| UInt8.ofNat payload.length, targetId, testerId] ++ payload ++
        [([startByte ||| UInt8.ofNat payload.length, targetId, testerId] ++ payload).foldl (· + ·) 0] := by
      simp only [frame, appendIso14230Header, if_pos hlt]
    refine .inl ⟨hshort, ?_, ?_⟩
    · rw [hframe]
      simp
    · have hfirst : byteAt frame 0 = startByte ||| UInt8.ofNat payload.length := by
        rw [hframe]
        rfl
      rw [hfirst, format_and hstart (by rw [hlength]; exact hshort), hlength]
  · have hlt : ¬ UInt8.ofNat payload.length < 0x40 := by
      rw [UInt8.lt_iff_toNat_lt, hlength]
      exact hshort
    have hframe : frame = [startByte, targetId, testerId, UInt8.ofNat payload.length] ++ payload ++
        [([startByte, targetId, testerId, UInt8.ofNat payload.length] ++ payload).foldl (· + ·) 0] := by
      simp only [frame, appendIso14230Header, if_neg hlt]
    refine .inr ⟨Nat.le_of_not_lt hshort, ?_, ?_, ?_⟩
    · rw [hframe]
      simp
    · rw [hframe]
      rfl
    · have hthird : byteAt frame 3 = UInt8.ofNat payload.length := by
        rw [hframe]
        rfl
      rw [hthird, hlength]

theorem byteAt_take {l : Bytes} {i n : ℕ} (h : i < n) : byteAt (l.take n) i = byteAt l i := by
  rw [byteAt, byteAt, List.getD_eq_getElem?_getD, List.getD_eq_getElem?_getD,
    List.getElem?_take_of_lt h]

/-- The length that the header of a frame gives is that of its rest, unless the length byte is
negative as a `char`. -/
theorem payloadLength_frame (hstart : startByte &&& 0x3F = 0)
    (hpayload : 1 ≤ payload.length ∧ payload.length ≤ 255) :
    let frame := appendIso14230Header startByte targetId testerId payload
    payloadLength (frame.take 4) true + 4 = frame.length ↔ payload.length ≤ 127 := by
  intro frame
  have hcases := @frame_cases startByte targetId testerId payload hstart hpayload
  change payload.length < 64 ∧ frame.length = payload.length + 4 ∧
      (byteAt frame 0 &&& 0x3F).toNat = payload.length ∨
    64 ≤ payload.length ∧ frame.length = payload.length + 5 ∧ byteAt frame 0 = startByte ∧
      (byteAt frame 3).toNat = payload.length at hcases
  have hfour : ¬ (frame.take 4).length < serialHeaderLength := by
    rw [List.length_take, serialHeaderLength]
    omega
  simp only [payloadLength, if_neg hfour, if_true]
  rw [byteAt_take (by decide), byteAt_take (by decide)]
  rcases hcases with ⟨hshort, hlength, hformat⟩ | ⟨hlong, hlength, hfirst, hthird⟩
  · have hne : byteAt frame 0 &&& 0x3F ≠ 0 := by
      intro h
      rw [h] at hformat
      have : (0 : Byte).toNat = payload.length := hformat
      simp at this
      omega
    rw [if_pos hne, hformat, hlength]
    exact iff_of_true rfl (by omega)
  · have hzero : ¬ byteAt frame 0 &&& 0x3F ≠ 0 := by
      rw [hfirst]
      exact not_not.2 hstart
    rw [if_neg hzero, hlength, charValue, hthird]
    by_cases hle : payload.length ≤ 127
    · rw [if_pos (by omega)]
      omega
    · rw [if_neg (by omega)]
      omega

/-- No frame begins as the error does. -/
theorem setError_append_ne (hstart : startByte &&& 0x3F = 0)
    (hpayload : 1 ≤ payload.length ∧ payload.length ≤ 255) (rest : Bytes) :
    setError ++ rest ≠ appendIso14230Header startByte targetId testerId payload := by
  intro h
  have hfirst : byteAt (setError ++ rest) 0 = 0x80 := rfl
  have hfourth : byteAt (setError ++ rest) 3 = 0x03 := rfl
  rw [h] at hfirst hfourth
  rcases @frame_cases startByte targetId testerId payload hstart hpayload with
    ⟨hshort, -, hformat⟩ | ⟨hlong, -, -, hthird⟩
  · rw [hfirst] at hformat
    have hzero : ((0x80 : Byte) &&& 0x3F).toNat = 0 := by decide
    omega
  · rw [hfourth] at hthird
    have hthree : (0x03 : Byte).toNat = 3 := by decide
    omega

theorem length_frame (hstart : startByte &&& 0x3F = 0)
    (hpayload : 1 ≤ payload.length ∧ payload.length ≤ 255) :
    5 ≤ (appendIso14230Header startByte targetId testerId payload).length := by
  have hcases := @frame_cases startByte targetId testerId payload hstart hpayload
  simp only at hcases
  omega

/-- **The frames that a read returns as they are**: those whose payload has at most 127 bytes, if the
header has arrived when the clock is looked at for the last time but one.  A longer payload has a length
byte that is negative as a `char`. -/
theorem readSerialData_iso14230_iff (startByte targetId testerId : Byte) (payload following : Bytes)
    (p : Port) (hstart : startByte &&& 0x3F = 0)
    (hpayload : 1 ≤ payload.length ∧ payload.length ≤ 255)
    (hstream : p.stream = appendIso14230Header startByte targetId testerId payload ++ following)
    (harrives : ∃ k < p.waits.length,
      (appendIso14230Header startByte targetId testerId payload).length ≤ (p.seen k).length) :
    ((readSerialData true p).1 = appendIso14230Header startByte targetId testerId payload ∧
      (readSerialData true p).2.stream = following) ↔
    payload.length ≤ 127 ∧ ∃ k, k + 1 < p.waits.length ∧ 4 ≤ (p.seen k).length := by
  have hfive := @length_frame startByte targetId testerId payload hstart hpayload
  have hmsglen := @payloadLength_frame startByte targetId testerId payload hstart hpayload
  have herror := @setError_append_ne startByte targetId testerId payload hstart hpayload
  simp only at hmsglen
  generalize appendIso14230Header startByte targetId testerId payload = frame at *
  constructor
  · rintro ⟨hresult, -⟩
    obtain ⟨header, rest, hheader, hfour, hframe, hlength⟩ :=
      readSerialData_eq_frame (List.ne_nil_of_length_pos (by omega)) herror hresult
    have hle : header.length ≤ 4 := by
      have h := @length_readUntilLength_le serialHeaderLength [] p.available p.waits (Nat.zero_le _)
      rw [Bool.not_true] at hheader
      rwa [hheader] at h
    have htake : header = frame.take 4 := by
      rw [hframe]
      exact (List.take_left' (Nat.le_antisymm hle hfour)).symm
    rw [htake] at hlength
    refine ⟨hmsglen.1 ?_, ?_⟩
    · rw [hlength, List.length_take]
      omega
    · by_contra hlate
      -- no time is left for the rest of the frame
      have hwaits := @readUntilLength_late serialHeaderLength [] p.available p.waits (by decide) (by
        intro k hk
        rw [List.length_nil, Nat.zero_add]
        by_contra hseen
        exact hlate ⟨k, hk, Nat.le_of_not_lt hseen⟩)
      rw [Bool.not_true] at hheader
      rw [hheader] at hwaits
      have hnil : rest.waits = [] := hwaits
      rw [hnil, readUntilLength, List.append_nil] at hframe
      rw [hframe] at hfive
      omega
  · rintro ⟨hle, hheader⟩
    exact readSerialData_whole hfive (hmsglen.2 hle) hstream rfl hheader harrives

/-- The answer to a read of two bytes, which arrives in two parts, with one more byte behind it. -/
theorem readSerialData_iso14230_short :
    (readSerialData true ⟨[0x82, 0xF1], [[0x10, 0x01, 0x02, 0x86, 0x55], [], [], []]⟩).1 =
        appendIso14230Header 0x80 0xF1 0x10 [0x01, 0x02] ∧
      (readSerialData true ⟨[0x82, 0xF1], [[0x10, 0x01, 0x02, 0x86, 0x55], [], [], []]⟩).2.stream =
        [0x55] :=
  (readSerialData_iso14230_iff 0x80 0xF1 0x10 [0x01, 0x02] [0x55]
    ⟨[0x82, 0xF1], [[0x10, 0x01, 0x02, 0x86, 0x55], [], [], []]⟩ (by decide) (by decide) (by decide)
    ⟨1, by decide, by decide⟩).2 ⟨by decide, 1, by decide, by decide⟩

/-- A frame with a payload of 128 bytes that is there at once is not returned as it is. -/
theorem readSerialData_iso14230_long :
    (readSerialData true
      ⟨appendIso14230Header 0x80 0xF1 0x10 (List.replicate 128 0), [[], [], [], []]⟩).1 ≠
        appendIso14230Header 0x80 0xF1 0x10 (List.replicate 128 0) := by
  decide +kernel

end Iso14230

end FastEcu.Serial
