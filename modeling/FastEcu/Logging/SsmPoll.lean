import FastEcu.Logging.SessionSpec
import FastEcu.Logging.SsmProtocol
import Mathlib.Data.Nat.Bitwise

/-!
# A poll reads the channels

What a poll of SSM gives when the ECU answers: the samples of the channels, each with the number that the
channel's own bytes denote, however the reply is cut into reads, and the bytes after the reply are kept.

* `Delivers` : reads before the deadline, and what they bring.
* `readLoop_of_delivers` : the reader finds the reply and keeps what follows it.
* `denotedValue` : the number that the bytes of a channel denote.
* `ecuReply` : the reply of an ECU with a memory.
* `poll_of_session` : the poll.
-/

namespace FastEcu.Logging

open Calibration (Error ErrorKind invalidConfig)
open Expression (Numbers Instruction)
open Data

/-! ### Finding the reply -/

/-- A frame from the target, with its length. -/
structure Framed (target : Byte) (reply : Bytes) : Prop where
  header : replyHeader target <+: reply
  length : ∃ length, reply[3]? = some length ∧ reply.length = length.toNat + 5

section TakeReply

variable {target : Byte} {junk reply trailing received unread : Bytes}

theorem Framed.getElem_three (h : Framed target reply) {received unread : Bytes}
    (hstream : received ++ unread = reply ++ trailing) (hlt : 3 < received.length) :
    received[3]? = reply[3]? := by
  obtain ⟨length, -, hlength⟩ := h.length
  have hfirst : (received ++ unread)[3]? = (reply ++ trailing)[3]? := by rw [hstream]
  rwa [List.getElem?_append_left hlt, List.getElem?_append_left (by omega)] at hfirst

/-- A part of the stream that does not have the whole reply: there is none yet, and only junk is
dropped. -/
theorem takeReply_partial (hclean : Clean (replyHeader target) junk reply)
    (hreply : Framed target reply) (hstream : received ++ unread = junk ++ reply ++ trailing)
    (hlt : received.length < junk.length + reply.length) :
    ∃ junk' received', takeReply target received = (none, received') ∧
      Clean (replyHeader target) junk' reply ∧
      received' ++ unread = junk' ++ reply ++ trailing := by
  obtain ⟨junk', hclean', hstream', hshort, hlength⟩ := resync_spec hclean hreply.header hstream
  refine ⟨junk', resync (replyHeader target) received, ?_, hclean', hstream'⟩
  have hlt' : (resync (replyHeader target) received).length < junk'.length + reply.length := by omega
  simp only [takeReply]
  generalize resync (replyHeader target) received = received' at *
  by_cases hfour : 3 < received'.length
  · have hjunk : junk' = [] := by
      refine hshort.resolve_right fun hshort => ?_
      simp only [replyHeader, List.length_cons, List.length_nil] at hshort
      omega
    subst hjunk
    -- the length of the reply is there, and says that more is to come
    obtain ⟨length, hget, hlen⟩ := hreply.length
    rw [hreply.getElem_three hstream' hfour, hget]
    simp only [List.length_nil, Nat.zero_add, hlen] at hlt'
    exact if_pos hlt'
  · rw [List.getElem?_eq_none_iff.2 (Nat.le_of_not_lt hfour)]

/-- A part of the stream that has the whole reply: it is taken, and what follows it is left. -/
theorem takeReply_complete (hclean : Clean (replyHeader target) junk reply)
    (hreply : Framed target reply) (hstream : received ++ unread = junk ++ reply ++ trailing)
    (hle : junk.length + reply.length ≤ received.length) :
    ∃ rest, takeReply target received = (some reply, rest) ∧ rest ++ unread = trailing := by
  obtain ⟨junk', hclean', hstream', hshort, hlength⟩ := resync_spec hclean hreply.header hstream
  have hle' : junk'.length + reply.length ≤ (resync (replyHeader target) received).length := by omega
  obtain ⟨length, hget, hlen⟩ := hreply.length
  simp only [takeReply]
  generalize resync (replyHeader target) received = received' at *
  have hjunk : junk' = [] := by
    refine hshort.resolve_right fun hshort => ?_
    simp only [replyHeader, List.length_cons, List.length_nil] at hshort
    omega
  subst hjunk
  simp only [List.length_nil, Nat.zero_add, List.nil_append] at hle' hstream'
  obtain ⟨rest, rfl⟩ : reply <+: received' :=
    List.prefix_of_prefix_length_le ⟨trailing, rfl⟩ ⟨unread, hstream'⟩ hle'
  refine ⟨rest, ?_, by simpa using hstream'⟩
  rw [hreply.getElem_three hstream' (by omega), hget]
  simp only [← hlen]
  rw [if_neg (by omega), List.take_left, List.drop_left]

end TakeReply

/-! ### Reading the reply -/

section ReadLoop

variable {σ : Type} (environment : SsmEnvironment σ)

/-- Rounds of the reader before the deadline, none of which is cancelled or fails, and what they
bring. -/
inductive Delivers (deadline : ℤ) : σ → List (Option Bytes) → σ → Prop
  | nil (s : σ) : Delivers deadline s [] s
  | cons {s s₁ s₂ s₃ s₄ s' : σ} {now : ℤ} {chunk : Option Bytes} {chunks : List (Option Bytes)}
      (hcancelled : environment.cancelled s = (false, s₁)) (hnow : environment.now s₁ = (now, s₂))
      (hremaining : 0 < remaining deadline now) (hcancelled' : environment.cancelled s₂ = (false, s₃))
      (hread : environment.read (min 10 (remaining deadline now)) s₃ = (.ok chunk, s₄))
      (hrest : Delivers deadline s₄ chunks s') : Delivers deadline s (chunk :: chunks) s'

/-- The bytes that reads bring. -/
def streamOf (chunks : List (Option Bytes)) : Bytes := chunks.flatMap (·.getD [])

variable {environment} {target : Byte} {junk reply trailing received : Bytes} {deadline : ℤ}
  {chunks : List (Option Bytes)} {s s' : σ}

/-- **The reader finds the reply**, however it is cut into reads, and keeps what follows it. -/
theorem readLoop_of_delivers (hdelivers : Delivers environment deadline s chunks s')
    (hend : (environment.cancelled s').1 = false) (hclean : Clean (replyHeader target) junk reply)
    (hreply : Framed target reply)
    (hstream : received ++ streamOf chunks = junk ++ reply ++ trailing) {fuel : ℕ}
    (hfuel : chunks.length < fuel) :
    ∃ used left s₁ pending, chunks = used ++ left ∧ Delivers environment deadline s used s₁ ∧
      readLoop environment target deadline fuel received s =
        some ⟨.ok reply, pending, (environment.cancelled s₁).2⟩ ∧
      pending ++ streamOf left = trailing := by
  induction hdelivers generalizing junk received fuel with
  | nil s =>
    obtain ⟨fuel, rfl⟩ := Nat.exists_eq_succ_of_ne_zero (Nat.ne_of_gt hfuel)
    have hle : junk.length + reply.length ≤ received.length := by
      have := congrArg List.length hstream
      simp only [streamOf, List.flatMap_nil, List.append_nil, List.length_append] at this
      omega
    obtain ⟨rest, htake, hrest⟩ := takeReply_complete hclean hreply hstream hle
    refine ⟨[], [], s, rest, rfl, .nil s, ?_, hrest⟩
    have hcancelled : environment.cancelled s = (false, (environment.cancelled s).2) := by rw [← hend]
    rw [readLoop, hcancelled]
    simp only [htake]
  | @cons s s₁ s₂ s₃ s₄ s' now chunk chunks hcancelled hnow hremaining hcancelled' hread hrest ih =>
    obtain ⟨fuel, rfl⟩ := Nat.exists_eq_succ_of_ne_zero (Nat.ne_of_gt (Nat.zero_lt_of_lt hfuel))
    by_cases hle : junk.length + reply.length ≤ received.length
    · -- the reply is there before the read
      obtain ⟨rest, htake, htrailing⟩ := takeReply_complete hclean hreply hstream hle
      refine ⟨[], chunk :: chunks, s, rest, rfl, .nil s, ?_, htrailing⟩
      rw [readLoop, hcancelled]
      simp only [htake]
    · obtain ⟨junk', received', htake, hclean', hstream'⟩ :=
        takeReply_partial hclean hreply hstream (Nat.lt_of_not_le hle)
      have hstream'' : (received' ++ chunk.getD []) ++ streamOf chunks = junk' ++ reply ++ trailing := by
        rw [← hstream', streamOf, streamOf, List.flatMap_cons, List.append_assoc]
      obtain ⟨used, left, s₅, pending, rfl, hused, hloop, htrailing⟩ :=
        ih hend hclean' hstream'' (Nat.lt_of_succ_lt_succ hfuel)
      refine ⟨chunk :: used, left, s₅, pending, rfl,
        .cons hcancelled hnow hremaining hcancelled' hread hused, ?_, htrailing⟩
      rw [readLoop, hcancelled]
      simp only [htake, hnow, if_neg (Int.not_le.2 hremaining), readAndAppend, hcancelled', hread]
      exact hloop

end ReadLoop

/-! ### The request and the reply -/

/-- The addresses in groups of three bytes. -/
def addressTriples : Bytes → List UInt32
  | b₀ :: b₁ :: b₂ :: rest => wordBe24 b₀ b₁ b₂ :: addressTriples rest
  | _ => []

/-- The addresses of a read request: what stands between its header and command and its checksum. -/
def requestAddresses (frame : Bytes) : List UInt32 := addressTriples (frame.drop 6).dropLast

/-- The frame with which an ECU answers a read request. -/
def ecuReply (memory : UInt32 → Byte) (target : Byte) (frame : Bytes) : Bytes :=
  addHeader (0xE8 :: (requestAddresses frame).map memory) target 0xF0

theorem wordBe24_u24Be {address : UInt32} (h : address.toNat < 0x1000000) :
    wordBe24 (byteOf address 16) (byteOf address 8) (byteOf address 0) = address := by
  have hword : wordBe24 (byteOf address 16) (byteOf address 8) (byteOf address 0) =
      wordBe 0 (byteOf address 16) (byteOf address 8) (byteOf address 0) := by
    simp [wordBe24, wordBe]
  rw [hword]
  apply UInt32.toNat_inj.1
  rw [toNat_wordBe, toNat_byteOf _ _ (by decide), toNat_byteOf _ _ (by decide),
    toNat_byteOf _ _ (by decide)]
  simp only [UInt32.reduceToNat, UInt8.toNat_zero]
  omega

theorem addressTriples_flatMap {addresses : List UInt32}
    (h : ∀ address ∈ addresses, address.toNat < 0x1000000) :
    addressTriples (addresses.flatMap u24Be) = addresses := by
  induction addresses with
  | nil => rfl
  | cons address rest ih =>
    rw [List.flatMap_cons, u24Be]
    simp only [List.cons_append, List.nil_append, addressTriples]
    rw [wordBe24_u24Be (h address (List.mem_cons_self ..)),
      ih fun a ha => h a (List.mem_cons_of_mem _ ha)]

theorem length_flatMap_u24Be (addresses : List UInt32) :
    (addresses.flatMap u24Be).length = 3 * addresses.length := by
  induction addresses with
  | nil => rfl
  | cons address rest ih =>
    rw [List.flatMap_cons, List.length_append, ih]
    simp only [u24Be, List.length_cons, List.length_nil]
    omega

theorem length_buildPollRequest (plan : SsmReadPlan) :
    (buildPollRequest plan).length = 2 + 3 * plan.addresses.length := by
  rw [buildPollRequest, List.length_append, length_flatMap_u24Be]
  rfl

theorem length_addHeader (output : Bytes) (testerId targetId : Byte) :
    (addHeader output testerId targetId).length = output.length + 5 := by
  simp [addHeader]

/-- The length byte of a frame is the length of what it carries. -/
theorem addHeader_length {output : Bytes} (testerId targetId : Byte) (h : output.length < 256) :
    ∃ length, (addHeader output testerId targetId)[3]? = some length ∧
      length.toNat = output.length := by
  refine ⟨UInt8.ofNat output.length, rfl, ?_⟩
  rw [UInt8.toNat_ofNat', Nat.mod_eq_of_lt h]

/-- The addresses of the poll request are those of the plan. -/
theorem requestAddresses_buildPollRequest {plan : SsmReadPlan} (testerId targetId : Byte)
    (h : ∀ address ∈ plan.addresses, address.toNat < 0x1000000) :
    requestAddresses (addHeader (buildPollRequest plan) testerId targetId) = plan.addresses := by
  have hdrop : (addHeader (buildPollRequest plan) testerId targetId).drop 6 =
      plan.addresses.flatMap u24Be ++ [sum8 ([0x80, targetId, testerId,
        UInt8.ofNat (buildPollRequest plan).length] ++ buildPollRequest plan)] := rfl
  rw [requestAddresses, hdrop, List.dropLast_concat, addressTriples_flatMap h]

/-- The reply of an ECU is a frame from it. -/
theorem framed_addHeader {output : Bytes} (target : Byte) (h : output.length < 256) :
    Framed target (addHeader output target 0xF0) := by
  obtain ⟨length, hget, hlength⟩ := addHeader_length target 0xF0 h
  refine ⟨⟨_, rfl⟩, length, hget, ?_⟩
  rw [hlength, length_addHeader]

/-- The reply of an ECU is a read reply. -/
theorem isReadReply_addHeader (data : Bytes) (target : Byte) (h : data.length < 255) :
    isReadReply (addHeader (0xE8 :: data) target 0xF0) target data.length := by
  have hlt : ((0xE8 : Byte) :: data).length < 256 := Nat.succ_lt_succ h
  obtain ⟨length, hget, hlength⟩ := addHeader_length target 0xF0 hlt
  simp only [isReadReply, decide_eq_true_eq]
  refine ⟨by simp [length_addHeader], rfl, rfl, rfl, ?_, rfl, ?_⟩
  · rw [hget, Option.map_some, hlength, List.length_cons]
  · simp only [addHeader, List.dropLast_concat, List.getLast?_concat]

/-! ### The numbers of the channels -/

/-- The bytes as digits, the least significant first. -/
def digits (byteOrder : NumericByteOrder) (bytes : Bytes) : List ℕ :=
  (match byteOrder with
    | .littleEndian => bytes
    | .bigEndian => bytes.reverse).map fun b : Byte => b.toNat

/-- The number that the bytes of a channel denote, in its byte order and signedness. -/
def denotedValue (channel : LoggingChannel) (bytes : Bytes) : ℤ :=
  let value : ℕ := Nat.ofDigits 256 (digits channel.byteOrder bytes)
  if channel.storage = .signedInteger ∧ 256 ^ bytes.length ≤ 2 * value then
    value - 256 ^ bytes.length
  else value

/-- One byte more. -/
theorem toNat_shift_or {value : UInt32} (h : value.toNat < 0x1000000) (b : Byte) :
    ((value <<< 8) ||| b.toUInt32).toNat = value.toNat * 256 + b.toNat := by
  have hb := b.toNat_lt
  rw [UInt32.toNat_or, UInt32.toNat_shiftLeft, UInt8.toNat_toUInt32, Nat.shiftLeft_eq]
  have hpow : 2 ^ ((8 : UInt32).toNat % 32) = 256 := by decide
  rw [hpow, Nat.mod_eq_of_lt (by omega), show value.toNat * 256 = value.toNat <<< 8 by rw [Nat.shiftLeft_eq],
    ← Nat.shiftLeft_add_eq_or_of_lt (by omega)]

/-- The loop over the bytes, the most significant first. -/
theorem toNat_foldl_shift {bytes : Bytes} {value : UInt32}
    (h : (value.toNat + 1) * 256 ^ bytes.length ≤ 256 ^ 4) :
    (bytes.foldl (fun (value : UInt32) (b : Byte) => (value <<< 8) ||| b.toUInt32) value).toNat =
      value.toNat * 256 ^ bytes.length + Nat.ofDigits 256 (bytes.reverse.map fun b : Byte => b.toNat) := by
  induction bytes generalizing value with
  | nil => simp
  | cons b rest ih =>
    have hb := b.toNat_lt
    have hpos : 0 < 256 ^ rest.length := Nat.pow_pos (by omega)
    rw [List.length_cons, Nat.pow_succ] at h
    have hvalue : value.toNat < 0x1000000 := by
      have h1 : (value.toNat + 1) * 256 ≤ (value.toNat + 1) * (256 ^ rest.length * 256) :=
        Nat.mul_le_mul_left _ (Nat.le_mul_of_pos_left _ hpos)
      omega
    have hstep := toNat_shift_or hvalue b
    rw [List.foldl_cons, ih, hstep, List.reverse_cons, List.map_append, Nat.ofDigits_append]
    · simp only [List.map_cons, List.map_nil, Nat.ofDigits_singleton, List.length_map,
        List.length_reverse, List.length_cons, Nat.pow_succ]
      ring
    · rw [hstep]
      calc (value.toNat * 256 + b.toNat + 1) * 256 ^ rest.length
          ≤ ((value.toNat + 1) * 256) * 256 ^ rest.length := Nat.mul_le_mul_right _ (by omega)
        _ = (value.toNat + 1) * (256 ^ rest.length * 256) := by ring
        _ ≤ 256 ^ 4 := h

theorem toNat_numericValue (byteOrder : NumericByteOrder) {bytes : Bytes} (h : bytes.length ≤ 4) :
    (numericValue byteOrder bytes).toNat = Nat.ofDigits 256 (digits byteOrder bytes) := by
  have hpow : 256 ^ bytes.length ≤ 256 ^ 4 := Nat.pow_le_pow_right (by omega) h
  cases byteOrder with
  | bigEndian =>
    rw [numericValue, toNat_foldl_shift (by simpa using hpow), digits]
    simp
  | littleEndian =>
    rw [numericValue, toNat_foldl_shift (by simpa using hpow), digits]
    simp

theorem ofDigits_digits_lt (byteOrder : NumericByteOrder) (bytes : Bytes) :
    Nat.ofDigits 256 (digits byteOrder bytes) < 256 ^ bytes.length := by
  have hlength : (digits byteOrder bytes).length = bytes.length := by
    cases byteOrder <;> simp [digits]
  rw [← hlength]
  refine Nat.ofDigits_lt_base_pow_length (by omega) ?_
  intro d hd
  obtain ⟨b, -, rfl⟩ := List.mem_map.1 hd
  exact b.toNat_lt

/-- The test of the highest bit. -/
theorem and_ne_zero_iff {value mask : UInt32} {k : ℕ} (hmask : mask.toNat = 2 ^ k)
    (hlt : value.toNat < 2 ^ (k + 1)) : value &&& mask ≠ 0 ↔ 2 ^ k ≤ value.toNat := by
  have hpos : 0 < 2 ^ k := Nat.pow_pos (by omega)
  have hbit : value.toNat.testBit k = decide (2 ^ k ≤ value.toNat) := by
    rw [Nat.testBit_eq_decide_div_mod_eq]
    have hdiv : value.toNat / 2 ^ k < 2 := by
      rw [Nat.div_lt_iff_lt_mul hpos]
      rw [Nat.pow_succ] at hlt
      omega
    rw [decide_eq_decide, Nat.mod_eq_of_lt hdiv]
    have hle : 1 ≤ value.toNat / 2 ^ k ↔ 2 ^ k ≤ value.toNat := by
      rw [Nat.le_div_iff_mul_le hpos, Nat.one_mul]
    omega
  rw [ne_eq, ← UInt32.toNat_inj, UInt32.toNat_and, hmask, Nat.and_two_pow, hbit]
  by_cases h : 2 ^ k ≤ value.toNat
  · simp only [h, decide_true, Bool.toNat_true, Nat.one_mul, iff_true]
    exact Nat.ne_of_gt hpos
  · simp [h]

/-- The sign of a value of one, two or four bytes. -/
theorem sign_iff {value : UInt32} {length : ℕ} (hlength : length = 1 ∨ length = 2 ∨ length = 4)
    (hlt : value.toNat < 256 ^ length) :
    value &&& ((1 : UInt32) <<< UInt32.ofNat (length * 8 - 1)) ≠ 0 ↔
      256 ^ length ≤ 2 * value.toNat := by
  rcases hlength with rfl | rfl | rfl
  · rw [and_ne_zero_iff (k := 7) (by decide) (by omega)]
    omega
  · rw [and_ne_zero_iff (k := 15) (by decide) (by omega)]
    omega
  · rw [and_ne_zero_iff (k := 31) (by decide) (by omega)]
    omega

section Samples

variable {α : Type} (N : Numbers α)

/-- The text of the sample of a channel: the number that its bytes denote, or that of a `float`. -/
def sampleText (channel : LoggingChannel) (bytes : Bytes) : String :=
  match channel.storage with
  | .float => N.format (N.ofFloat (numericValue channel.byteOrder bytes))
  | _ => toString (denotedValue channel bytes)

/-- The bytes of a channel are no `float` that is not finite. -/
def FiniteSample (channel : LoggingChannel) (bytes : Bytes) : Prop :=
  channel.storage = .float → N.isFinite (N.ofFloat (numericValue channel.byteOrder bytes))

variable {N}

/-- The decoder gives the number that the bytes denote. -/
theorem decodeNumeric_eq {channel : LoggingChannel} {bytes : Bytes}
    (hlength : bytes.length = channel.length)
    (hwidth : (channel.length = 1 ∨ channel.length = 2 ∨ channel.length = 4) ∧
      (channel.storage = .float → channel.length = 4)) (hfinite : FiniteSample N channel bytes) :
    decodeNumeric N bytes channel = .ok (sampleText N channel bytes) := by
  obtain ⟨hwidth, hfloat⟩ := hwidth
  rw [← hlength] at hwidth hfloat
  have hvalue : (numericValue channel.byteOrder bytes).toNat =
      Nat.ofDigits 256 (digits channel.byteOrder bytes) :=
    toNat_numericValue channel.byteOrder (by omega)
  have hlt := ofDigits_digits_lt channel.byteOrder bytes
  rw [← hvalue] at hlt
  rw [decodeNumeric, if_neg (by omega)]
  simp only
  cases hstorage : channel.storage with
  | unsignedInteger =>
    simp only [sampleText, hstorage, denotedValue, reduceCtorEq, false_and, if_false, ← hvalue]
    rfl
  | signedInteger =>
    simp only [sampleText, hstorage, denotedValue, true_and, ← hvalue]
    by_cases hsign : 256 ^ bytes.length ≤ 2 * (numericValue channel.byteOrder bytes).toNat
    · rw [if_pos ((sign_iff hwidth hlt).2 hsign), if_pos hsign]
      rw [show bytes.length * 8 = 8 * bytes.length by omega, pow_mul]
      norm_num
    · rw [if_neg (mt (sign_iff hwidth hlt).1 hsign), if_neg hsign]
  | float =>
    have hfour := hfloat hstorage
    simp only [sampleText, hstorage, hfour, ne_eq, not_true_eq_false, if_false,
      hfinite hstorage]

/-- The bytes at consecutive positions. -/
theorem rawBytes_range' {data raw : Bytes} {offset count : ℕ} (h : offset + count ≤ data.length) :
    rawBytes data raw (List.range' offset count) = .ok (raw ++ (data.drop offset).take count) := by
  induction count generalizing raw offset with
  | zero => simp [rawBytes]
  | succ count ih =>
    have hlt : offset < data.length := by omega
    rw [List.range'_succ, rawBytes, List.getElem?_eq_getElem hlt]
    simp only
    rw [ih (by omega), List.append_assoc, List.drop_eq_getElem_cons hlt, List.take_succ_cons]
    rfl

/-- The bytes of a channel in a memory. -/
def channelBytes (memory : UInt32 → Byte) (channel : LoggingChannel) : Bytes :=
  (channelAddresses channel).map memory

/-- The samples of channels in a memory. -/
def samplesOf (N : Numbers α) (memory : UInt32 → Byte) (channels : List LoggingChannel) :
    List ProtocolSample :=
  channels.map fun channel => ⟨channel.id, sampleText N channel (channelBytes memory channel)⟩

/-- Each channel is decoded from its own bytes. -/
theorem decodeChannels_eq {memory : UInt32 → Byte} {channels : List LoggingChannel} (before : Bytes)
    (samples : List ProtocolSample)
    (hlengths : ∀ channel ∈ channels, (channelAddresses channel).length = channel.length)
    (hwidths : ∀ channel ∈ channels,
      (channel.length = 1 ∨ channel.length = 2 ∨ channel.length = 4) ∧
        (channel.storage = .float → channel.length = 4))
    (hfinite : ∀ channel ∈ channels, FiniteSample N channel (channelBytes memory channel)) :
    decodeChannels N (before ++ (channels.flatMap channelAddresses).map memory) samples channels
        (positionsFrom before.length channels) = .ok (samples ++ samplesOf N memory channels) := by
  induction channels generalizing before samples with
  | nil => simp [decodeChannels, samplesOf]
  | cons channel rest ih =>
    have hlength := hlengths channel (List.mem_cons_self ..)
    have hbytes : (channelBytes memory channel).length = channel.length := by
      rw [channelBytes, List.length_map, hlength]
    have hdata : before ++ ((channel :: rest).flatMap channelAddresses).map memory =
        before ++ channelBytes memory channel ++ (rest.flatMap channelAddresses).map memory := by
      rw [List.flatMap_cons, List.map_append, channelBytes, List.append_assoc]
    have hraw : rawBytes (before ++ channelBytes memory channel ++
        (rest.flatMap channelAddresses).map memory) [] (List.range' before.length channel.length) =
        .ok (channelBytes memory channel) := by
      rw [rawBytes_range' (by simp only [List.length_append, hbytes]; omega), List.append_assoc,
        List.drop_left, ← hbytes, List.take_left]
      rfl
    rw [hdata, positionsFrom, decodeChannels, if_neg (by simp), hraw]
    simp only
    rw [decodeNumeric_eq hbytes (hwidths channel (List.mem_cons_self ..))
      (hfinite channel (List.mem_cons_self ..))]
    simp only
    have hoffset : before.length + channel.length =
        (before ++ channelBytes memory channel).length := by rw [List.length_append, hbytes]
    rw [hoffset, ih _ _ (fun c hc => hlengths c (List.mem_cons_of_mem _ hc))
      (fun c hc => hwidths c (List.mem_cons_of_mem _ hc))
      (fun c hc => hfinite c (List.mem_cons_of_mem _ hc))]
    simp [samplesOf]

theorem length_positionsFrom (offset : ℕ) (channels : List LoggingChannel) :
    (positionsFrom offset channels).length = channels.length := by
  induction channels generalizing offset with
  | nil => rfl
  | cons channel rest ih => rw [positionsFrom, List.length_cons, ih, List.length_cons]

/-- The data of a reply. -/
theorem data_addHeader (data : Bytes) (target : Byte) :
    ((addHeader (0xE8 :: data) target 0xF0).drop 5).take data.length = data := by
  have hdrop : (addHeader (0xE8 :: data) target 0xF0).drop 5 =
      data ++ [sum8 ([0x80, 0xF0, target, UInt8.ofNat ((0xE8 : Byte) :: data).length] ++
        (0xE8 :: data))] := rfl
  rw [hdrop, List.take_left]

/-- The decoder on the reply of an ECU. -/
theorem decodePoll_addHeader {protocol : SsmLoggingProtocol} {memory : UInt32 → Byte}
    (hplan : ReadPlanSpec protocol.channels protocol.plan)
    (hwidths : ∀ channel ∈ protocol.channels,
      (channel.length = 1 ∨ channel.length = 2 ∨ channel.length = 4) ∧
        (channel.storage = .float → channel.length = 4))
    (hfinite : ∀ channel ∈ protocol.channels, FiniteSample N channel (channelBytes memory channel)) :
    protocol.decodePoll N (addHeader (0xE8 :: protocol.plan.addresses.map memory)
        (targetId protocol.targetIsEcu) 0xF0) =
      .ok { responded := true, samples := samplesOf N memory protocol.channels } := by
  have hlength : (protocol.plan.addresses.map memory).length = protocol.plan.addresses.length :=
    List.length_map _
  have hle := hplan.length_le
  have hreply := isReadReply_addHeader (protocol.plan.addresses.map memory)
    (targetId protocol.targetIsEcu) (by omega)
  have hdata := data_addHeader (protocol.plan.addresses.map memory) (targetId protocol.targetIsEcu)
  rw [hlength] at hreply hdata
  rw [SsmLoggingProtocol.decodePoll, if_neg (by simp [addHeader]), if_neg (not_not_intro hreply), hdata,
    decodeSamples, hplan.positions, if_neg (by simp [length_positionsFrom]), hplan.addresses]
  have hdecode := decodeChannels_eq [] [] hplan.channelLength hwidths hfinite
  simp only [List.nil_append, List.length_nil] at hdecode
  rw [hdecode]

end Samples

/-! ### The poll -/

/-- The run can continue and the frame is written, and then the reads bring their bytes before the
deadline. -/
structure Answers {σ : Type} (environment : SsmEnvironment σ) (frame : Bytes) (timeout : ℤ) (s : σ)
    (chunks : List (Option Bytes)) (deadline : ℤ) (s₃ : σ) : Prop where
  rounds : ∃ s₁ s₂ s₄ n now,
    SsmLoggingProtocol.checkLoggingRunCanContinue environment s = (.ok (), s₁) ∧
    environment.write frame s₁ = (.ok n, s₂) ∧ environment.now s₂ = (now, s₃) ∧
    deadline = now + timeout * 1000000 ∧ Delivers environment deadline s₃ chunks s₄ ∧
    (environment.cancelled s₄).1 = false

/-- A poll on the direct path is the decoder on what the reader finds. -/
theorem poll_of_readLoop {α σ : Type} {N : Numbers α} {environment : SsmEnvironment σ}
    {protocol : SsmLoggingProtocol} {timeout now : ℤ} {fuel n : ℕ} {pending reply kept : Bytes}
    {s s₁ s₂ s₃ s' : σ} (hdirect : protocol.useOpenport2Adapter = false)
    (hcontinue : SsmLoggingProtocol.checkLoggingRunCanContinue environment s = (.ok (), s₁))
    (hwrite : environment.write
      (addHeader (buildPollRequest protocol.plan) 0xF0 (targetId protocol.targetIsEcu)) s₁ =
        (.ok n, s₂))
    (hnow : environment.now s₂ = (now, s₃))
    (hloop : readLoop environment (targetId protocol.targetIsEcu) (now + timeout * 1000000) fuel
      pending s₃ = some ⟨.ok reply, kept, s'⟩) :
    protocol.poll N environment timeout fuel pending s = some {
      result := protocol.decodePoll N reply
      sent := [addHeader (buildPollRequest protocol.plan) 0xF0 (targetId protocol.targetIsEcu)]
      pending := kept
      state := s' } := by
  simp only [SsmLoggingProtocol.poll, hcontinue, SsmLoggingProtocol.buildSsmHeader, hwrite,
    SsmLoggingProtocol.readFramedResponse, hnow, hdirect, Bool.false_eq_true, if_false, hloop]

/-- **A poll of a session**: one frame with the addresses of the plan, and however the reply of the ECU is
cut into reads, the samples of the channels; the bytes after the reply that have been read are kept, in
front of those that have not been. -/
theorem poll_of_session {α : Type} {N : Numbers α} {channels : List LoggingChannel}
    {policy : LoggingPolicy} {session : LoggingSession α}
    (hsession : makeLoggingSession N .ssm channels policy = .ok session) (targetIsEcu : Bool) :
    ∃ plan, session.readPlan = some plan ∧
      let protocol : SsmLoggingProtocol := ⟨session.channels, plan, targetIsEcu, false⟩
      let target := targetId targetIsEcu
      let frame := addHeader (buildPollRequest plan) 0xF0 target
      (∃ length, frame[3]? = some length ∧ length.toNat = (buildPollRequest plan).length) ∧
      requestAddresses frame = plan.addresses ∧
      plan.addresses = channels.flatMap channelAddresses ∧
      ∀ (σ : Type) (environment : SsmEnvironment σ) (memory : UInt32 → Byte) (timeout deadline : ℤ)
        (pending junk trailing : Bytes) (chunks : List (Option Bytes)) (s s₃ : σ) (fuel : ℕ),
        Answers environment frame timeout s chunks deadline s₃ →
        Clean (replyHeader target) junk (ecuReply memory target frame) →
        pending ++ streamOf chunks = junk ++ ecuReply memory target frame ++ trailing →
        (∀ channel ∈ channels, FiniteSample N channel (channelBytes memory channel)) →
        chunks.length < fuel →
        ∃ used left s₄ kept, chunks = used ++ left ∧ Delivers environment deadline s₃ used s₄ ∧
          protocol.poll N environment timeout fuel pending s = some {
            result := .ok { responded := true, samples := samplesOf N memory channels }
            sent := [frame]
            pending := kept
            state := (environment.cancelled s₄).2 } ∧
          kept ++ streamOf left = trailing := by
  have hspec := makeLoggingSession_spec hsession
  have hwidths := width_of_compiled hspec.conversions
  have hwire := hspec.wire
  rw [FitsWire, hspec.protocol_eq] at hwire
  obtain ⟨plan, hreadPlan, hplan⟩ := hwire
  refine ⟨plan, hreadPlan, ?_⟩
  intro protocol target frame
  have hle := hplan.length_le
  have hrequest : requestAddresses frame = plan.addresses :=
    requestAddresses_buildPollRequest _ _ hplan.inRange
  refine ⟨?_, hrequest, hplan.addresses, ?_⟩
  · refine addHeader_length _ _ ?_
    rw [length_buildPollRequest]
    omega
  · intro σ environment memory timeout deadline pending junk trailing chunks s s₃ fuel hanswers hclean
      hstream hfinite hfuel
    obtain ⟨s₁, s₂, s₅, n, now, hcontinue, hwrite, hnow, rfl, hdelivers, hend⟩ := hanswers.rounds
    have hreply : Framed target (ecuReply memory target frame) := by
      refine framed_addHeader target ?_
      rw [hrequest, List.length_cons, List.length_map]
      omega
    obtain ⟨used, left, s₄, kept, hchunks, hused, hloop, hkept⟩ :=
      readLoop_of_delivers hdelivers hend hclean hreply hstream hfuel
    refine ⟨used, left, s₄, kept, hchunks, hused, ?_, hkept⟩
    have hchannels : protocol.channels = channels := hspec.channels_eq
    rw [← hchannels] at hplan hwidths hfinite ⊢
    rw [poll_of_readLoop rfl hcontinue hwrite hnow hloop, ecuReply, hrequest,
      decodePoll_addHeader hplan hwidths hfinite]

/-- An environment in which each read brings the next part of a script. -/
def scriptEnvironment : SsmEnvironment (List (Option Bytes)) where
  now script := (0, script)
  cancelled script := (false, script)
  isOpen script := (true, script)
  write frame script := (.ok frame.length, script)
  read _ script := (.ok (script.headD none), script.tail)

/-- A channel of two bytes with a sign. -/
def torqueChannel : LoggingChannel :=
  { id := "torque", address := 0x20, length := 2, fromByteExpression := "x", storage := .signedInteger }

theorem delivers_script (deadline : ℤ) (h : 0 < remaining deadline 0) (script : List (Option Bytes)) :
    Delivers scriptEnvironment deadline script script [] := by
  induction script with
  | nil => exact .nil []
  | cons chunk rest ih => exact .cons rfl rfl h rfl rfl ih

theorem poll_of_session_torque :
    ∃ plan, plan.addresses = [0x20, 0x21] ∧
      ((⟨[torqueChannel], plan, true, false⟩ : SsmLoggingProtocol).poll Expression.integers
        scriptEnvironment 100 3 [0x80]
        [some [0xF0, 0x18, 0x80, 0xF0, 0x10, 3], some [0xE8, 0xFF, 0xFE, 0x68, 0x80]]).map
          (·.result) = some (.ok { responded := true, samples := [⟨"torque", "-2"⟩] }) := by
  obtain ⟨session, hsession, hchannels⟩ : ∃ session : LoggingSession ℤ,
      makeLoggingSession Expression.integers .ssm [torqueChannel] ⟨100, 5, 10, 10⟩ = .ok session ∧
        session.channels = [torqueChannel] := ⟨_, rfl, rfl⟩
  obtain ⟨plan, -, -, hrequest, haddresses, hpoll⟩ := poll_of_session hsession true
  have hplan : plan.addresses = [0x20, 0x21] := by
    rw [haddresses]
    decide
  have hreply : ecuReply (fun address => if address = 0x20 then 0xFF else 0xFE) (targetId true)
      (addHeader (buildPollRequest plan) 0xF0 (targetId true)) =
        [0x80, 0xF0, 0x10, 3, 0xE8, 0xFF, 0xFE, 0x68] := by
    rw [ecuReply, hrequest, hplan]
    decide
  have hclean : Clean (replyHeader (targetId true)) [0x80, 0xF0, 0x18]
      [0x80, 0xF0, 0x10, 3, 0xE8, 0xFF, 0xFE, 0x68] := by
    unfold Clean
    decide
  have hfinite : ∀ channel ∈ [torqueChannel], FiniteSample Expression.integers channel
      (channelBytes (fun address => if address = 0x20 then 0xFF else 0xFE) channel) :=
    fun _ _ _ => rfl
  have hanswers : Answers scriptEnvironment
      (addHeader (buildPollRequest plan) 0xF0 (targetId true)) 100
      [some [0xF0, 0x18, 0x80, 0xF0, 0x10, 3], some [0xE8, 0xFF, 0xFE, 0x68, 0x80]]
      [some [0xF0, 0x18, 0x80, 0xF0, 0x10, 3], some [0xE8, 0xFF, 0xFE, 0x68, 0x80]]
      (0 + 100 * 1000000)
      [some [0xF0, 0x18, 0x80, 0xF0, 0x10, 3], some [0xE8, 0xFF, 0xFE, 0x68, 0x80]] :=
    ⟨_, _, [], _, 0, rfl, rfl, rfl, rfl, delivers_script _ (by decide) _, rfl⟩
  rw [hchannels] at hpoll
  rw [← hreply] at hclean
  obtain ⟨used, left, s₄, kept, -, -, hresult, -⟩ := hpoll _ _ _ _ _ [0x80] _ [0x80] _ _ _ 3 hanswers
    hclean (by rw [hreply]; rfl) hfinite (by decide)
  refine ⟨plan, hplan, ?_⟩
  have hsamples : samplesOf Expression.integers
      (fun address => if address = 0x20 then 0xFF else 0xFE) [torqueChannel] =
        [⟨"torque", "-2"⟩] := by decide +kernel
  rw [hresult, hsamples]
  rfl
end FastEcu.Logging
