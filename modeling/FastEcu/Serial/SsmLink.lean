import FastEcu.Data.Occurrences
import FastEcu.Logging.SsmPoll
import FastEcu.Serial.DirectRead

/-!
# SSM logging over a plain serial adapter

The reader of `SsmLoggingProtocol` (`src/backend/logging/protocols/portable_ssm_logging_protocol.cpp`) over
`FastEcuSsmTransport::Read` (`src/platform/desktop/common/transport/fastecu_ssm_transport.cpp`), which reads
from a plain serial adapter in windows of at most ten milliseconds.  Both look for headers and lengths on
their own.

* `Window`, `chunksOf` : the windows, and what each read brings.
* `SeenWhole` : the first window that sees anything sees the whole reply in time.
* `replyIn` : what the reader makes of the chunks.
* `readFramedResponse_serial_iff` : the replies that the reader returns.
-/

namespace FastEcu.Serial

open Data Logging

/-! ### Windows -/

/-- A read: what has become available since the last one, and what each wait brings. -/
structure Window where
  before : Bytes
  waits : List Bytes

/-- The port at the start of a window, with what the reads before have left. -/
def Window.port (left : Bytes) (w : Window) : Port := ⟨left ++ w.before, w.waits⟩

/-- All the bytes that arrive. -/
def arrivals (windows : List Window) : Bytes := windows.flatMap fun w => w.before ++ w.waits.flatten

/-- `FastEcuSsmTransport::Read`: an empty read is none. -/
def chunkOf (bytes : Bytes) : Option Bytes := if bytes = [] then none else some bytes

/-- What the reads bring. -/
def chunksOf : Bytes → List Window → List (Option Bytes)
  | _, [] => []
  | left, w :: windows =>
    let read := readSerialData false (w.port left)
    chunkOf read.1 :: chunksOf read.2.stream windows

/-- The first window that sees anything sees a reply of the length: all of it in time, and its header
when the clock is looked at for the last time but one. -/
def SeenWhole (length : ℕ) : Bytes → List Window → Prop
  | _, [] => False
  | left, w :: windows =>
    (∀ k < w.waits.length, (w.port left).seen k = []) ∧ SeenWhole length (w.port left).stream windows ∨
    (∃ k, k + 1 < w.waits.length ∧ 4 ≤ ((w.port left).seen k).length) ∧
      ∃ k < w.waits.length, length ≤ ((w.port left).seen k).length

/-! ### What the reader makes of the chunks -/

/-- The reply that the reader finds in what it has received and the chunks, or what is left of them. -/
def replyIn (target : Byte) : Bytes → List (Option Bytes) → Bytes
  | received, [] =>
    match takeReply target received with
    | (some reply, _) => reply
    | (none, received) => received
  | received, chunk :: chunks =>
    match takeReply target received with
    | (some reply, _) => reply
    | (none, received) => replyIn target (received ++ chunk.getD []) chunks

section ReadLoop

variable {σ : Type} {environment : SsmEnvironment σ} {target : Byte} {deadline : ℤ} {s s' : σ}
  {chunks : List (Option Bytes)}

/-- The reader is not cancelled, and the clock has passed the deadline. -/
def Expired (environment : SsmEnvironment σ) (deadline : ℤ) (s : σ) : Prop :=
  ∃ s₁ s₂ now, environment.cancelled s = (false, s₁) ∧ environment.now s₁ = (now, s₂) ∧
    remaining deadline now ≤ 0

/-- The reader returns what is in the chunks of its rounds. -/
theorem readLoop_eq_replyIn (hreads : Delivers environment deadline s chunks s')
    (hexpired : Expired environment deadline s') (received : Bytes) {fuel : ℕ}
    (hfuel : chunks.length < fuel) :
    ∃ pending s₁, readLoop environment target deadline fuel received s =
      some ⟨.ok (replyIn target received chunks), pending, s₁⟩ := by
  induction hreads generalizing received fuel with
  | nil s =>
    obtain ⟨s₁, s₂, now, hcancelled, hnow, hremaining⟩ := hexpired
    obtain ⟨fuel, rfl⟩ := Nat.exists_eq_succ_of_ne_zero (Nat.ne_of_gt hfuel)
    rw [readLoop, hcancelled, replyIn]
    cases htake : takeReply target received with
    | mk reply rest =>
      cases reply with
      | some reply => exact ⟨rest, s₁, rfl⟩
      | none =>
        simp only [hnow, if_pos hremaining]
        exact ⟨[], s₂, rfl⟩
  | @cons s s₁ s₂ s₃ s₄ s' now chunk chunks hcancelled hnow hremaining hcancelled' hread hrest ih =>
    obtain ⟨fuel, rfl⟩ := Nat.exists_eq_succ_of_ne_zero (Nat.ne_of_gt (Nat.zero_lt_of_lt hfuel))
    rw [readLoop, hcancelled, replyIn]
    cases htake : takeReply target received with
    | mk reply rest =>
      cases reply with
      | some reply => exact ⟨rest, s₁, rfl⟩
      | none =>
        simp only [hnow, if_neg (not_le.2 hremaining), readAndAppend, hcancelled', hread]
        exact ih hexpired _ (Nat.lt_of_succ_lt_succ hfuel)

end ReadLoop

/-! ### Replies of the ECU -/

theorem dropToKnownHeader_of_le {l : Bytes} (h : l.length ≤ 2) : dropToKnownHeader l = l := by
  cases l with
  | nil => rfl
  | cons b l =>
    rw [dropToKnownHeader, if_neg]
    intro hlt
    omega

theorem dropToKnownHeader_of_known {l : Bytes} (h : startsWithKnownHeader l) :
    dropToKnownHeader l = l := by
  cases l with
  | nil => rfl
  | cons b l =>
    rw [dropToKnownHeader, if_neg]
    exact fun hnot => hnot.2 h

section Ecu

variable {reply : Bytes} {p : Port}

/-- A first part of a reply of the ECU is kept. -/
theorem dropToKnownHeader_of_isPrefix (hreply : replyHeader 0x10 <+: reply) {l : Bytes} (h : l <+: reply) :
    dropToKnownHeader l = l := by
  by_cases hle : l.length ≤ 2
  · exact dropToKnownHeader_of_le hle
  · have hheader : replyHeader 0x10 <+: l := by
      refine List.prefix_of_prefix_length_le hreply h ?_
      rw [replyHeader]
      simp only [List.length_cons, List.length_nil]
      omega
    refine dropToKnownHeader_of_known ?_
    obtain ⟨rest, rfl⟩ := hheader
    simp [startsWithKnownHeader, replyHeader]

/-- While a reply of the ECU arrives, looking for a header drops nothing. -/
theorem readUntilLength_of_isPrefix (hreply : replyHeader 0x10 <+: reply) (length : ℕ)
    {buffer available : Bytes} {waits : List Bytes}
    (h : buffer ++ (available ++ waits.flatten) <+: reply) :
    readUntilLength length true buffer available waits =
      readUntilLength length false buffer available waits := by
  induction waits generalizing buffer available with
  | nil => rfl
  | cons b waits ih =>
    have htaken : buffer ++ available.take (length - buffer.length) <+: reply := by
      refine List.IsPrefix.trans ?_ h
      refine ⟨available.drop (length - buffer.length) ++ (b :: waits).flatten, ?_⟩
      rw [List.append_assoc, ← List.append_assoc (List.take _ _), List.take_append_drop]
    rw [readUntilLength, readUntilLength]
    split
    · simp only [if_true, Bool.false_eq_true, if_false]
      rw [dropToKnownHeader_of_isPrefix hreply htaken]
      refine ih ?_
      convert h using 1
      simp only [List.append_assoc, List.flatten_cons]
      rw [← List.append_assoc (List.take _ _), List.take_append_drop]
    · rfl

/-- The length that the header of a reply gives is that of its rest. -/
theorem payloadLength_reply (hreply : Framed 0x10 reply) :
    payloadLength (reply.take 4) false + 4 = reply.length := by
  obtain ⟨length, hget, hlength⟩ := hreply.length
  obtain ⟨rest, rfl⟩ := hreply.header
  have hfour : ¬ ((replyHeader 0x10 ++ rest).take 4).length < serialHeaderLength := by
    rw [List.length_take, serialHeaderLength]
    omega
  have hthird : byteAt ((replyHeader 0x10 ++ rest).take 4) 3 = length := by
    rw [byteAt_take (by decide), byteAt, List.getD_eq_getElem?_getD, hget]
    rfl
  have hbeef : ¬ [0xBE, 0xEF].isPrefixOf ((replyHeader 0x10 ++ rest).take 4) := by
    simp [replyHeader]
  have hssm : [0x80, 0xF0].isPrefixOf ((replyHeader 0x10 ++ rest).take 4) := by
    simp [replyHeader]
  simp only [payloadLength, if_neg hfour, Bool.false_eq_true, if_false, if_neg hbeef, if_pos hssm,
    hthird]
  omega

/-- A window that sees the whole reply in time returns it. -/
theorem readSerialData_of_whole (hreply : Framed 0x10 reply) (hstream : p.stream <+: reply)
    (hheader : ∃ k, k + 1 < p.waits.length ∧ 4 ≤ (p.seen k).length)
    (hwhole : ∃ k < p.waits.length, reply.length ≤ (p.seen k).length) :
    (readSerialData false p).1 = reply := by
  obtain ⟨length, -, hlength⟩ := hreply.length
  have hall : p.stream = reply ++ [] := by
    obtain ⟨k, -, hseen⟩ := hwhole
    rw [List.append_nil]
    refine hstream.eq_of_length_le ?_
    rw [p.stream_eq_seen k, List.length_append]
    omega
  refine (readSerialData_whole (by omega) (payloadLength_reply hreply) hall ?_ hheader hwhole).1
  exact readUntilLength_of_isPrefix hreply.header _ (by rw [List.nil_append]; exact hstream)

/-- A window that sees something, but not the whole reply in time, returns the error first. -/
theorem readSerialData_of_part (hreply : Framed 0x10 reply) (hstream : p.stream <+: reply)
    (hsees : ¬ ∀ k < p.waits.length, p.seen k = [])
    (hpart : ¬ ((∃ k, k + 1 < p.waits.length ∧ 4 ≤ (p.seen k).length) ∧
      ∃ k < p.waits.length, reply.length ≤ (p.seen k).length)) :
    ∃ rest, rest ≠ [] ∧ (readSerialData false p).1 = setError ++ rest := by
  have hkept := @readUntilLength_of_isPrefix reply hreply.header serialHeaderLength [] p.available p.waits
    (by rw [List.nil_append]; exact hstream)
  have hmsglen := payloadLength_reply hreply
  have hconsumed := @readUntilLength_stream serialHeaderLength [] p.available p.waits
  have hle : (readUntilLength serialHeaderLength false [] p.available p.waits).1.length ≤ 4 :=
    length_readUntilLength_le (Nat.zero_le _)
  have hsilent := @silent_of_readUntilLength serialHeaderLength p.available p.waits (by decide)
  have hseen := @seen_of_readUntilLength serialHeaderLength [] p.available p.waits (by decide)
  rw [readSerialData_eq]
  simp only [Bool.not_false, hkept]
  rcases hread : readUntilLength serialHeaderLength false [] p.available p.waits with ⟨header, rest⟩
  rw [hread] at hconsumed hle hsilent hseen
  simp only at hconsumed hle hsilent hseen ⊢
  have hne : header ≠ [] := fun hnil => hsees (hsilent hnil)
  rw [if_pos, List.append_assoc]
  · exact ⟨_, fun h => hne (List.append_eq_nil_iff.1 h).1, rfl⟩
  refine ⟨hne, ?_⟩
  by_contra hfull
  rw [not_or] at hfull
  -- both loops have their bytes, so the window has seen the whole reply
  have hfour : header.length = 4 := Nat.le_antisymm hle (Nat.le_of_not_lt hfull.1)
  have htake : header = reply.take 4 := by
    have hpre : header <+: reply := by
      refine List.IsPrefix.trans ⟨rest.stream, ?_⟩ hstream
      exact hconsumed
    rw [← hfour]
    exact List.prefix_iff_eq_take.1 hpre
  rw [htake] at hfull
  obtain ⟨length, -, hlength⟩ := hreply.length
  obtain ⟨k, hk, hheader, hwaits⟩ := hseen hfour
  obtain ⟨m, hm, hpayload, -⟩ := @seen_of_readUntilLength (payloadLength (reply.take 4) false) []
    rest.available rest.waits (by rw [List.length_nil]; omega)
    (Nat.le_antisymm (length_readUntilLength_le (Nat.zero_le _)) (Nat.le_of_not_lt hfull.2))
  have hwaits' : rest.waits = p.waits.drop (k + 1) := hwaits
  rw [hwaits', List.length_drop] at hm
  rw [List.length_nil, Nat.zero_add] at hheader
  refine hpart ⟨⟨k, by omega, hheader⟩, k + 1 + m, by omega, ?_⟩
  have hsplit : header ++ rest.available = p.seen (k + 1) := by
    have h := hconsumed.trans (p.stream_eq_seen (k + 1))
    rw [Port.stream, hwaits', ← List.append_assoc] at h
    exact List.append_cancel_right h
  rw [p.seen_add, ← hsplit, List.length_append, List.length_append, hfour]
  rw [List.length_nil, Nat.zero_add, Port.seen, List.length_append] at hpayload
  rw [← hwaits']
  have hpayload' : payloadLength (reply.take 4) false ≤
    rest.available.length + (rest.waits.take m).flatten.length := hpayload
  omega

/-- What the reader makes of the error and what follows it is not a reply. -/
theorem replyIn_of_error {rest : Bytes} (hrest : rest ≠ []) (chunks : List (Option Bytes)) :
    byteAt (replyIn 0x10 (setError ++ rest) chunks) 4 = 0x7F := by
  obtain ⟨b, rest, rfl⟩ := List.exists_cons_of_ne_nil hrest
  have htake : takeReply 0x10 (setError ++ b :: rest) = (some (setError ++ [b]), rest) := by
    have hsync : resync (replyHeader 0x10) (setError ++ b :: rest) = setError ++ b :: rest :=
      resync_of_isPrefix ⟨[0x03, 0x7F, 0x00, 0x13] ++ b :: rest, rfl⟩
    simp only [takeReply, hsync]
    simp [setError]
  cases chunks with
  | nil =>
    rw [replyIn, htake]
    rfl
  | cons chunk chunks =>
    rw [replyIn, htake]
    rfl

theorem replyIn_of_reply (hreply : Framed 0x10 reply) (chunks : List (Option Bytes)) :
    replyIn 0x10 reply chunks = reply := by
  have hclean : Clean (replyHeader 0x10) [] reply := fun i hi => absurd hi (Nat.not_lt_zero i)
  obtain ⟨rest, htake, -⟩ := @takeReply_complete 0x10 [] reply [] reply [] hclean hreply rfl (by simp)
  cases chunks with
  | nil => rw [replyIn, htake]
  | cons chunk chunks => rw [replyIn, htake]

/-- What the windows see after a window is what it has left and what they bring. -/
theorem append_arrivals_cons (left : Bytes) (w : Window) (windows : List Window) :
    left ++ arrivals (w :: windows) = (w.port left).stream ++ arrivals windows := by
  simp [arrivals, Window.port, Port.stream]

/-- A silent window returns nothing and leaves everything to the next. -/
theorem readSerialData_of_silent {p : Port} (h : ∀ k < p.waits.length, p.seen k = []) :
    (readSerialData false p).1 = [] ∧ (readSerialData false p).2.stream = p.stream := by
  obtain ⟨hnil, hstream⟩ := @readUntilLength_of_silent serialHeaderLength p.available p.waits true h
  rw [readSerialData_eq]
  simp only [Bool.not_false]
  rcases hread : readUntilLength serialHeaderLength true [] p.available p.waits with ⟨header, rest⟩
  rw [hread] at hnil hstream
  have hheader : header = [] := hnil
  subst hheader
  have hzero : payloadLength [] false = 0 := rfl
  simp only [hzero, readUntilLength_of_le (Nat.zero_le _)]
  exact ⟨rfl, hstream⟩

theorem length_chunksOf (left : Bytes) (windows : List Window) :
    (chunksOf left windows).length = windows.length := by
  induction windows generalizing left with
  | nil => rfl
  | cons w windows ih => rw [chunksOf, List.length_cons, List.length_cons, ih]

theorem takeReply_nil (target : Byte) : takeReply target [] = (none, []) := rfl

/-- **The replies of the ECU that the reader finds.** -/
theorem replyIn_ecu_iff (hreply : Framed 0x10 reply) (hservice : byteAt reply 4 = 0xE8)
    (windows : List Window) (left : Bytes) (harrivals : left ++ arrivals windows = reply) :
    replyIn 0x10 [] (chunksOf left windows) = reply ↔ SeenWhole reply.length left windows := by
  have hne : reply ≠ [] := by
    rintro rfl
    cases hservice
  induction windows generalizing left with
  | nil => exact iff_of_false (fun h => hne h.symm) id
  | cons w windows ih =>
    rw [append_arrivals_cons] at harrivals
    have hstream : (w.port left).stream <+: reply := ⟨_, harrivals⟩
    rw [chunksOf, replyIn, takeReply_nil, SeenWhole]
    simp only [List.nil_append]
    by_cases hsilent : ∀ k < w.waits.length, (w.port left).seen k = []
    · -- a silent window leaves everything to the next
      obtain ⟨hnil, hleft⟩ := @readSerialData_of_silent (w.port left) hsilent
      rw [hnil, hleft, chunkOf, if_pos rfl, Option.getD_none]
      refine (ih _ harrivals).trans ⟨?_, ?_⟩
      · exact fun h => .inl ⟨hsilent, h⟩
      · rintro (h | ⟨⟨k, hk, hseen⟩, -⟩)
        · exact h.2
        · rw [hsilent k (Nat.lt_of_succ_lt hk)] at hseen
          cases hseen
    · by_cases hwhole : (∃ k, k + 1 < w.waits.length ∧ 4 ≤ ((w.port left).seen k).length) ∧
          ∃ k < w.waits.length, reply.length ≤ ((w.port left).seen k).length
      · rw [readSerialData_of_whole hreply hstream hwhole.1 hwhole.2, chunkOf, if_neg hne]
        exact iff_of_true (replyIn_of_reply hreply _) (.inr hwhole)
      · obtain ⟨rest, hrest, hread⟩ := readSerialData_of_part hreply hstream hsilent hwhole
        rw [hread, chunkOf, if_neg (by simp [setError])]
        refine iff_of_false ?_ ?_
        · intro h
          have hbyte := replyIn_of_error hrest (chunksOf (readSerialData false (w.port left)).2.stream windows)
          rw [Option.getD_some] at h
          rw [h, hservice] at hbyte
          cases hbyte
        · rintro (h | h)
          · exact hsilent h.1
          · exact hwhole h

end Ecu

/-! ### Replies of the TCU -/

section Tcu

/-- The header of the replies of the TCU. -/
def tcuHeader : Bytes := replyHeader 0x18

/-- The first byte of what a read returns is one that the header of the TCU only begins with. -/
def BeginsAFrame (chunk : Bytes) : Prop := ∀ b ∈ chunk.head?, b ∉ tcuHeader.tail

/-- What is left of looking for a header is short or begins with one. -/
theorem dropToKnownHeader_spec (l : Bytes) :
    (∃ dropped, dropped ++ dropToKnownHeader l = l) ∧
      ((dropToKnownHeader l).length ≤ 2 ∨ startsWithKnownHeader (dropToKnownHeader l)) := by
  induction l with
  | nil => exact ⟨⟨[], rfl⟩, .inl (Nat.zero_le _)⟩
  | cons b l ih =>
    rw [dropToKnownHeader]
    split
    · obtain ⟨⟨dropped, hdropped⟩, hshort⟩ := ih
      exact ⟨⟨b :: dropped, by rw [List.cons_append, hdropped]⟩, hshort⟩
    · rename_i hkept
      refine ⟨⟨[], rfl⟩, ?_⟩
      by_cases hle : (b :: l).length ≤ 2
      · exact .inl hle
      · refine .inr ?_
        by_contra hknown
        exact hkept ⟨Nat.lt_of_not_le hle, hknown⟩

/-- What the read of a header takes is short or begins with one that is known, and what comes before it
is dropped. -/
theorem readUntilLength_true_spec {length : ℕ} {buffer available : Bytes} {waits : List Bytes}
    (h : buffer.length ≤ 2 ∨ startsWithKnownHeader buffer) :
    (∃ dropped, dropped ++ ((readUntilLength length true buffer available waits).1 ++
        (readUntilLength length true buffer available waits).2.stream) =
          buffer ++ (available ++ waits.flatten)) ∧
      ((readUntilLength length true buffer available waits).1.length ≤ 2 ∨
        startsWithKnownHeader (readUntilLength length true buffer available waits).1) := by
  induction waits generalizing buffer available with
  | nil => exact ⟨⟨[], rfl⟩, h⟩
  | cons b waits ih =>
    rw [readUntilLength]
    split
    · simp only [if_true]
      obtain ⟨⟨first, hfirst⟩, hshort⟩ :=
        dropToKnownHeader_spec (buffer ++ available.take (length - buffer.length))
      obtain ⟨⟨dropped, hdropped⟩, hshort'⟩ :=
        @ih (dropToKnownHeader (buffer ++ available.take (length - buffer.length)))
          (available.drop (length - buffer.length) ++ b) hshort
      refine ⟨⟨first ++ dropped, ?_⟩, hshort'⟩
      rw [List.append_assoc, hdropped, ← List.append_assoc, hfirst]
      simp only [List.append_assoc, List.flatten_cons]
      rw [← List.append_assoc (List.take _ _), List.take_append_drop]
    · exact ⟨⟨[], rfl⟩, h⟩

theorem startsWithKnownHeader_append {l : Bytes} (h : startsWithKnownHeader l) (l' : Bytes) :
    startsWithKnownHeader (l ++ l') := by
  simp only [startsWithKnownHeader, Bool.or_eq_true, List.isPrefixOf_iff_prefix] at h ⊢
  rcases h with (h | h) | h
  · exact .inl (.inl (h.trans (List.prefix_append _ _)))
  · exact .inl (.inr (h.trans (List.prefix_append _ _)))
  · exact .inr (h.trans (List.prefix_append _ _))

theorem beginsAFrame_of_known {l : Bytes} (h : startsWithKnownHeader l) : BeginsAFrame l := by
  simp only [startsWithKnownHeader, Bool.or_eq_true, List.isPrefixOf_iff_prefix] at h
  rcases h with (⟨rest, rfl⟩ | ⟨rest, rfl⟩) | ⟨rest, rfl⟩
  · rintro b ⟨⟩
    decide
  · rintro b ⟨⟩
    decide
  · rintro b ⟨⟩
    decide

/-- What a window returns: a part of what arrives, which is short or begins with a known header, behind the
error or not. -/
theorem readSerialData_parts (p : Port) : ∃ dropped delivered,
    dropped ++ (delivered ++ (readSerialData false p).2.stream) = p.stream ∧
    ((readSerialData false p).1 = delivered ∨
      delivered ≠ [] ∧ (readSerialData false p).1 = setError ++ delivered) ∧
    (delivered.length ≤ 2 ∨ startsWithKnownHeader delivered) ∧
    BeginsAFrame (readSerialData false p).1 := by
  obtain ⟨⟨dropped, hdropped⟩, hshort⟩ := @readUntilLength_true_spec serialHeaderLength [] p.available
    p.waits (.inl (Nat.zero_le _))
  rw [readSerialData_eq]
  simp only [Bool.not_false]
  rcases hread : readUntilLength serialHeaderLength true [] p.available p.waits with ⟨header, rest⟩
  rw [hread] at hdropped hshort
  simp only at hdropped hshort ⊢
  have hrest := @readUntilLength_stream (payloadLength header false) [] rest.available rest.waits
  rcases hpayload : readUntilLength (payloadLength header false) false [] rest.available rest.waits with
    ⟨payload, rest'⟩
  rw [hpayload] at hrest
  simp only [List.nil_append] at hrest ⊢
  refine ⟨dropped, header ++ payload, ?_, ?_, ?_, ?_⟩
  · rw [List.append_assoc, hrest]
    exact hdropped
  · split
    · rename_i hbad
      exact .inr ⟨fun h => hbad.1 (List.append_eq_nil_iff.1 h).1, List.append_assoc _ _ _⟩
    · exact .inl rfl
  · rcases hshort with hle | hknown
    · -- a short header is followed by nothing
      have hzero : payloadLength header false = 0 := if_pos (by rw [serialHeaderLength]; omega)
      rw [hzero, readUntilLength_of_le (Nat.zero_le _)] at hpayload
      cases hpayload
      rw [List.append_nil]
      exact .inl hle
    · exact .inr (startsWithKnownHeader_append hknown _)
  · split
    · rintro b ⟨⟩
      decide
    · rename_i hgood
      rcases hshort with hle | hknown
      · have hnil : header = [] := by
          by_contra hne
          exact hgood ⟨hne, .inl (by rw [serialHeaderLength]; omega)⟩
        subst hnil
        have hzero : payloadLength [] false = 0 := rfl
        rw [hzero, readUntilLength_of_le (Nat.zero_le _)] at hpayload
        cases hpayload
        exact fun b hb => (by cases hb)
      · exact beginsAFrame_of_known (startsWithKnownHeader_append hknown _)

theorem occurrences_setError (l : Bytes) :
    occurrences tcuHeader (setError ++ l) = occurrences tcuHeader l := by
  simp [setError, occurrences, tcuHeader, replyHeader]

/-- The headers of the TCU in what a window returns are those of the part that it takes. -/
theorem occurrences_chunk {chunk delivered : Bytes}
    (h : chunk = delivered ∨ delivered ≠ [] ∧ chunk = setError ++ delivered) :
    occurrences tcuHeader chunk = occurrences tcuHeader delivered := by
  rcases h with rfl | ⟨-, rfl⟩
  · rfl
  · exact occurrences_setError delivered

/-- A window returns no more headers of the TCU than it takes from what arrives. -/
theorem occurrences_window (p : Port) (later : Bytes) :
    occurrences tcuHeader (readSerialData false p).1 +
        occurrences tcuHeader ((readSerialData false p).2.stream ++ later) ≤
      occurrences tcuHeader (p.stream ++ later) := by
  obtain ⟨dropped, delivered, hstream, hchunk, -, -⟩ := readSerialData_parts p
  rw [occurrences_chunk hchunk, ← hstream, List.append_assoc, List.append_assoc]
  calc occurrences tcuHeader delivered +
        occurrences tcuHeader ((readSerialData false p).2.stream ++ later)
      ≤ occurrences tcuHeader (delivered ++ ((readSerialData false p).2.stream ++ later)) :=
        occurrences_append_le _ _
    _ ≤ occurrences tcuHeader (dropped ++ (delivered ++ ((readSerialData false p).2.stream ++ later))) :=
        occurrences_le_of_isInfix (List.suffix_append _ _).isInfix

theorem not_known_of_tcuHeader {l l' : Bytes} (h : tcuHeader <+: l ++ l') :
    ¬ startsWithKnownHeader l := by
  intro hknown
  have hknown' := startsWithKnownHeader_append hknown l'
  obtain ⟨rest, hrest⟩ := h
  rw [← hrest] at hknown'
  simp [startsWithKnownHeader, tcuHeader, replyHeader] at hknown'

/-- A window that takes anything of what begins with a header of the TCU loses the header. -/
theorem occurrences_window_lt {p : Port} {later : Bytes} (h : tcuHeader <+: p.stream ++ later) :
    (readSerialData false p).1 = [] ∧ (readSerialData false p).2.stream = p.stream ∨
    occurrences tcuHeader (readSerialData false p).1 +
        occurrences tcuHeader ((readSerialData false p).2.stream ++ later) <
      occurrences tcuHeader (p.stream ++ later) := by
  obtain ⟨dropped, delivered, hstream, hchunk, hshort, -⟩ := readSerialData_parts p
  rw [occurrences_chunk hchunk]
  cases dropped with
  | cons a dropped =>
    -- the header begins before the part that is taken
    refine .inr ?_
    have hwhole : p.stream ++ later =
        a :: (dropped ++ (delivered ++ ((readSerialData false p).2.stream ++ later))) := by
      rw [← hstream]
      simp
    rw [hwhole] at h ⊢
    rw [occurrences_cons_of_isPrefix h]
    refine Nat.lt_succ_of_le ?_
    calc occurrences tcuHeader delivered +
          occurrences tcuHeader ((readSerialData false p).2.stream ++ later)
        ≤ occurrences tcuHeader (delivered ++ ((readSerialData false p).2.stream ++ later)) :=
          occurrences_append_le _ _
      _ ≤ occurrences tcuHeader (dropped ++ (delivered ++ ((readSerialData false p).2.stream ++ later))) :=
          occurrences_le_of_isInfix (List.suffix_append _ _).isInfix
  | nil =>
    cases delivered with
    | nil =>
      refine .inl ⟨?_, hstream⟩
      rcases hchunk with hchunk | ⟨hne, -⟩
      · exact hchunk
      · exact absurd rfl hne
    | cons a delivered =>
      refine .inr ?_
      have hwhole : p.stream ++ later =
          (a :: delivered) ++ ((readSerialData false p).2.stream ++ later) := by
        rw [← hstream]
        simp
      rw [hwhole] at h ⊢
      -- the part that is taken is too short for the header, which is lost
      have hle : (a :: delivered).length ≤ 2 := hshort.resolve_right (not_known_of_tcuHeader h)
      rw [List.cons_append] at h ⊢
      rw [occurrences_of_lt (Nat.lt_succ_of_le hle), Nat.zero_add, occurrences_cons_of_isPrefix h]
      exact Nat.lt_succ_of_le (occurrences_le_of_isInfix (List.suffix_append _ _).isInfix)

theorem getD_chunkOf (bytes : Bytes) : (chunkOf bytes).getD [] = bytes := by
  unfold chunkOf
  split
  · rename_i h
    exact h.symm
  · rfl

theorem streamOf_chunksOf_cons (left : Bytes) (w : Window) (windows : List Window) :
    streamOf (chunksOf left (w :: windows)) = (readSerialData false (w.port left)).1 ++
      streamOf (chunksOf (readSerialData false (w.port left)).2.stream windows) := by
  rw [chunksOf, streamOf, List.flatMap_cons, getD_chunkOf]
  rfl

/-- What the windows return begins a frame and has no more headers of the TCU than what arrives. -/
theorem occurrences_chunks (windows : List Window) (left : Bytes) :
    BeginsAFrame (streamOf (chunksOf left windows)) ∧
      occurrences tcuHeader (streamOf (chunksOf left windows)) ≤
        occurrences tcuHeader (left ++ arrivals windows) := by
  induction windows generalizing left with
  | nil => exact ⟨fun b hb => (nomatch hb), Nat.zero_le _⟩
  | cons w windows ih =>
    obtain ⟨hbegins, hcount⟩ := ih (readSerialData false (w.port left)).2.stream
    obtain ⟨-, -, -, -, -, hbegins'⟩ := readSerialData_parts (w.port left)
    rw [streamOf_chunksOf_cons, append_arrivals_cons]
    refine ⟨?_, ?_⟩
    · cases hchunk : (readSerialData false (w.port left)).1 with
      | nil => exact hbegins
      | cons b chunk =>
        rw [hchunk] at hbegins'
        exact hbegins'
    · rw [occurrences_append hbegins]
      have hwindow := occurrences_window (w.port left) (arrivals windows)
      omega

/-- The windows lose a header of the TCU that what arrives begins with. -/
theorem occurrences_chunks_lt (windows : List Window) (left : Bytes)
    (h : tcuHeader <+: left ++ arrivals windows) :
    occurrences tcuHeader (streamOf (chunksOf left windows)) <
      occurrences tcuHeader (left ++ arrivals windows) := by
  induction windows generalizing left with
  | nil =>
    obtain ⟨rest, hrest⟩ := h
    rw [← hrest]
    exact Nat.lt_of_lt_of_le (Nat.zero_lt_one) (occurrences_append_le tcuHeader rest |>.trans' (by
      simp [tcuHeader, replyHeader, occurrences]))
  | cons w windows ih =>
    rw [append_arrivals_cons] at h ⊢
    rw [streamOf_chunksOf_cons]
    rcases occurrences_window_lt h with ⟨hnil, hleft⟩ | hlost
    · rw [hnil, hleft, List.nil_append]
      exact ih _ h
    · obtain ⟨hbegins, hcount⟩ := occurrences_chunks windows (readSerialData false (w.port left)).2.stream
      rw [occurrences_append hbegins]
      omega

theorem resync_suffix {header received : Bytes} : resync header received <:+ received := by
  induction received with
  | nil => exact List.suffix_rfl
  | cons b received ih =>
    rw [resync]
    split
    · exact ih.trans (List.suffix_cons b received)
    · exact List.suffix_rfl

/-- A reply that is taken is a part of what was received, and so is what is left. -/
theorem takeReply_isInfix (target : Byte) (received : Bytes) :
    (∀ reply ∈ (takeReply target received).1, reply <:+: received) ∧
      (takeReply target received).2 <:+ received := by
  have hsuffix := @resync_suffix (replyHeader target) received
  simp only [takeReply]
  generalize resync (replyHeader target) received = received' at *
  split
  · exact ⟨fun reply h => (by cases h), hsuffix⟩
  · split
    · exact ⟨fun reply h => (by cases h), hsuffix⟩
    · refine ⟨?_, (List.drop_suffix _ _).trans hsuffix⟩
      rintro reply ⟨⟩
      exact (List.take_prefix _ _).isInfix.trans hsuffix.isInfix

/-- What the reader returns is a part of what it has received. -/
theorem replyIn_isInfix (target : Byte) (received : Bytes) (chunks : List (Option Bytes)) :
    replyIn target received chunks <:+: received ++ streamOf chunks := by
  induction chunks generalizing received with
  | nil =>
    obtain ⟨hreply, hrest⟩ := takeReply_isInfix target received
    rw [replyIn]
    cases htake : takeReply target received with
    | mk reply rest =>
      rw [htake] at hreply hrest
      cases reply with
      | some reply => exact (hreply reply rfl).trans (List.prefix_append _ _).isInfix
      | none => exact hrest.isInfix.trans (List.prefix_append _ _).isInfix
  | cons chunk chunks ih =>
    obtain ⟨hreply, hrest⟩ := takeReply_isInfix target received
    rw [replyIn]
    cases htake : takeReply target received with
    | mk reply rest =>
      rw [htake] at hreply hrest
      cases reply with
      | some reply => exact (hreply reply rfl).trans (List.prefix_append _ _).isInfix
      | none =>
        refine (ih (rest ++ chunk.getD [])).trans ?_
        obtain ⟨dropped, hdropped⟩ := hrest
        refine ⟨dropped, [], ?_⟩
        rw [streamOf, streamOf, List.flatMap_cons, ← hdropped]
        simp

/-- **No reply of the TCU is found.** -/
theorem replyIn_tcu_ne {reply : Bytes} (hreply : tcuHeader <+: reply) (windows : List Window)
    (harrivals : arrivals windows = reply) : replyIn 0x18 [] (chunksOf [] windows) ≠ reply := by
  intro h
  have hinfix := replyIn_isInfix 0x18 [] (chunksOf [] windows)
  rw [h, List.nil_append] at hinfix
  have hlt := occurrences_chunks_lt windows [] (by rw [List.nil_append, harrivals]; exact hreply)
  rw [List.nil_append, harrivals] at hlt
  exact absurd (occurrences_le_of_isInfix hinfix) (Nat.not_le.2 hlt)

end Tcu

/-! ### Every reply -/

/-- A valid reply is a frame of the target with the service of a read. -/
theorem framed_of_isReadReply {reply : Bytes} {target : Byte} {dataSize : ℕ}
    (h : isReadReply reply target dataSize) : Framed target reply ∧ byteAt reply 4 = 0xE8 := by
  simp only [isReadReply, decide_eq_true_eq] at h
  obtain ⟨hlength, h0, h1, h2, h3, h4, -⟩ := h
  -- the byte at 4 is not zero, so there are five
  obtain _ | ⟨a, _ | ⟨b, _ | ⟨c, _ | ⟨d, _ | ⟨e, rest⟩⟩⟩⟩⟩ := reply
  · cases h4
  · cases h4
  · cases h4
  · cases h4
  · cases h4
  · cases h0
    cases h1
    cases h2
    cases h4
    refine ⟨⟨⟨d :: 0xE8 :: rest, rfl⟩, d, rfl, ?_⟩, rfl⟩
    have hd : d.toNat = dataSize + 1 := by simpa using h3
    omega

/-- **The replies that the reader returns over a plain serial adapter**: those of the ECU that the first
window which sees anything sees whole.  A reply of the TCU is never returned, as the driver does not know
its header; one that is cut by a window is not either, as the driver puts an error before its first
part. -/
theorem readFramedResponse_serial_iff {σ : Type} (environment : SsmEnvironment σ)
    (protocol : SsmLoggingProtocol) (timeout now : ℤ) (fuel dataSize : ℕ) (s s₀ s₁ : σ)
    (windows : List Window) (reply : Bytes) (hadapter : protocol.useOpenport2Adapter = false)
    (hnow : environment.now s = (now, s₀))
    (hreads : Delivers environment (now + timeout * 1000000) s₀ (chunksOf [] windows) s₁)
    (hexpired : Expired environment (now + timeout * 1000000) s₁) (hfuel : windows.length < fuel)
    (hreply : isReadReply reply (targetId protocol.targetIsEcu) dataSize)
    (harrivals : arrivals windows = reply) :
    (∃ pending s', protocol.readFramedResponse environment timeout fuel [] s =
      some ⟨.ok reply, pending, s'⟩) ↔
    protocol.targetIsEcu = true ∧ SeenWhole reply.length [] windows := by
  obtain ⟨pending, s', hloop⟩ := @readLoop_eq_replyIn σ environment (targetId protocol.targetIsEcu) _ _ _ _
    hreads hexpired [] fuel (by rw [length_chunksOf]; exact hfuel)
  have hresponse : protocol.readFramedResponse environment timeout fuel [] s =
      some ⟨.ok (replyIn (targetId protocol.targetIsEcu) [] (chunksOf [] windows)), pending, s'⟩ := by
    rw [← hloop, SsmLoggingProtocol.readFramedResponse, hnow]
    simp only [hadapter, Bool.false_eq_true, if_false]
  have hfound : (∃ pending s', protocol.readFramedResponse environment timeout fuel [] s =
      some ⟨.ok reply, pending, s'⟩) ↔
      replyIn (targetId protocol.targetIsEcu) [] (chunksOf [] windows) = reply := by
    rw [hresponse]
    constructor
    · rintro ⟨pending', s'', h⟩
      cases h
      rfl
    · intro h
      exact ⟨pending, s', by rw [h]⟩
  rw [hfound]
  obtain ⟨hframed, hservice⟩ := framed_of_isReadReply hreply
  cases htarget : protocol.targetIsEcu with
  | true =>
    rw [htarget] at hframed
    have hiff := replyIn_ecu_iff hframed hservice windows [] harrivals
    exact ⟨fun h => ⟨rfl, hiff.1 h⟩, fun h => hiff.2 h.2⟩
  | false =>
    rw [htarget] at hframed
    exact iff_of_false (replyIn_tcu_ne hframed.header windows harrivals) fun h => (by cases h.1)

/-- A link to the adapter: what the reads have left, and the windows before the deadline. -/
structure Link where
  left : Bytes
  windows : List Window

/-- Reading through the adapter.  The clock passes the deadline with the last window. -/
def linkEnvironment (deadline : ℤ) : SsmEnvironment Link where
  now link := (if link.windows.isEmpty then deadline else 0, link)
  cancelled link := (false, link)
  isOpen link := (true, link)
  write frame link := (.ok frame.length, link)
  read _ link :=
    match link.windows with
    | [] => (.ok none, link)
    | w :: windows =>
      let read := readSerialData false (w.port link.left)
      (.ok (chunkOf read.1), ⟨read.2.stream, windows⟩)

/-- The rounds of the reader over a link are its windows. -/
theorem delivers_link {deadline : ℤ} (h : 0 < remaining deadline 0) (windows : List Window)
    (left : Bytes) : ∃ left', Delivers (linkEnvironment deadline) deadline ⟨left, windows⟩
      (chunksOf left windows) ⟨left', []⟩ := by
  induction windows generalizing left with
  | nil => exact ⟨left, .nil _⟩
  | cons w windows ih =>
    obtain ⟨left', hrest⟩ := ih (readSerialData false (w.port left)).2.stream
    exact ⟨left', .cons rfl rfl h rfl rfl hrest⟩

theorem expired_link (deadline : ℤ) (left : Bytes) :
    Expired (linkEnvironment deadline) deadline ⟨left, []⟩ := by
  refine ⟨_, _, _, rfl, rfl, ?_⟩
  simp [remaining]

/-- A reply of the ECU that comes in two parts in the second window. -/
def ecuWindows : List Window :=
  [⟨[], [[], []]⟩, ⟨[], [[0x80, 0xF0, 0x10], [0x02, 0xE8, 0x05, 0x6F], [], [], []]⟩]

/-- The reply is returned. -/
theorem readFramedResponse_serial_ecu :
    ∃ pending s', (⟨[], {}, true, false⟩ : SsmLoggingProtocol).readFramedResponse
      (linkEnvironment 100000000) 100 3 [] ⟨[], ecuWindows⟩ =
        some ⟨.ok [0x80, 0xF0, 0x10, 0x02, 0xE8, 0x05, 0x6F], pending, s'⟩ := by
  obtain ⟨left, hreads⟩ := @delivers_link 100000000 (by decide) ecuWindows []
  refine (readFramedResponse_serial_iff (linkEnvironment 100000000) ⟨[], {}, true, false⟩ 100 0 3 1
    ⟨[], ecuWindows⟩ ⟨[], ecuWindows⟩ ⟨left, []⟩ ecuWindows _ rfl rfl hreads (expired_link _ _)
    (by decide) (by decide) rfl).2 ⟨rfl, ?_⟩
  exact .inl ⟨by decide, .inr ⟨⟨2, by decide, by decide⟩, 2, by decide, by decide⟩⟩

/-- A reply of the TCU that is there at once is not returned. -/
theorem readFramedResponse_serial_tcu : ¬ ∃ pending s',
    (⟨[], {}, false, false⟩ : SsmLoggingProtocol).readFramedResponse (linkEnvironment 100000000) 100 3 []
      ⟨[], [⟨[0x80, 0xF0, 0x18, 0x02, 0xE8, 0x05, 0x77], [[], [], [], []]⟩]⟩ =
        some ⟨.ok [0x80, 0xF0, 0x18, 0x02, 0xE8, 0x05, 0x77], pending, s'⟩ := by
  rintro ⟨pending, s', h⟩
  have hreceived : _ = some (some ([0x80, 0xF0, 0x18, 0x02, 0xE8, 0x05, 0x77] : Bytes)) :=
    congrArg (Option.map fun response => response.received.toOption) h
  revert hreceived
  clear h
  decide +kernel

end FastEcu.Serial
