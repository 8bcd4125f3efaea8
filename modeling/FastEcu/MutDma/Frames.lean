import FastEcu.Logging.SsmProtocol

/-!
# MUT/DMA frames

The frames of `src/algorithms/protocol/mut_dma`: commands of 51 bytes, the list of ids that a stream is
made of, and the frames of the stream.

* `buildCommandFrame`, `verifyFrame` : a command with its checksum and trailer.
* `buildWriteFrames`, `writeOf` : the commands that write memory, and what an ECU reads from one.
* `buildIdListFrame`, `decodeIdList` : the list of ids, and what an ECU reads from it.
* `parseStreamFrame`, `decodeStreamValues`, `reassembleRead` : the bytes of a stream.
-/

namespace FastEcu.MutDma

open Logging (sum8)

/-! ### Commands -/

/-- `kFrameLen`. -/
def frameLen : ℕ := 51

/-- `kTrailerStd`. -/
def trailerStd : Byte := 0x0D

/-- `kTrailerFreeform`. -/
def trailerFreeform : Byte := 0x0A

/-- `kChecksumOffset`. -/
def checksumOffset : ℕ := 49

/-- `kTrailerOffset`. -/
def trailerOffset : ℕ := 50

/-- `Sum8Range`. -/
def sum8Range (bytes : Bytes) (start len : ℕ) : Byte :=
  if start ≥ bytes.length then 0 else sum8 (subspan bytes start (min len (bytes.length - start)))

/-- `BuildCommandFrame`. -/
def buildCommandFrame (cmd : Byte) (payload : Bytes) (trailer : Byte) : Bytes :=
  let f := (List.replicate frameLen 0).set 0 cmd
  let f := overwrite f 1 (payload.take (checksumOffset - 1))
  let f := f.set checksumOffset (sum8 (f.take checksumOffset))
  f.set trailerOffset trailer

/-- `VerifyFrame`. -/
def verifyFrame (frame : Bytes) : Bool :=
  if frame.length ≠ frameLen then false
  else if byteAt frame checksumOffset ≠ sum8Range frame 0 checksumOffset then false
  else byteAt frame trailerOffset == trailerStd || byteAt frame trailerOffset == trailerFreeform

/-- The bytes of a command before its checksum. -/
def commandBody (cmd : Byte) (payload : Bytes) : Bytes :=
  cmd :: (payload ++ List.replicate (48 - payload.length) 0)

theorem sum8Range_append (body tail : Bytes) (h : body ≠ []) :
    sum8Range (body ++ tail) 0 body.length = sum8 body := by
  have hpos := List.length_pos_iff.2 h
  rw [sum8Range, if_neg (by rw [List.length_append]; omega), List.length_append]
  rw [Nat.min_eq_left (by omega)]
  exact congrArg sum8 (List.take_left' rfl)

/-- The bytes after a part. -/
theorem byteAt_append_add (l l' : Bytes) (i : ℕ) : byteAt (l ++ l') (l.length + i) = byteAt l' i := by
  rw [byteAt, List.getD_append_right _ _ _ _ (by omega), Nat.add_sub_cancel_left]
  rfl

section Command

variable {cmd trailer : Byte} {payload : Bytes}

theorem length_commandBody (h : payload.length ≤ 48) : (commandBody cmd payload).length = 49 := by
  rw [commandBody, List.length_cons, List.length_append, List.length_replicate]
  omega

/-- A command whose payload is not cut off. -/
theorem buildCommandFrame_eq (h : payload.length ≤ 48) : buildCommandFrame cmd payload trailer =
    commandBody cmd payload ++ [sum8 (commandBody cmd payload), trailer] := by
  have hpadding : List.replicate (50 - payload.length) (0 : Byte) =
      List.replicate (48 - payload.length) 0 ++ [0, 0] := by
    rw [show 50 - payload.length = (48 - payload.length) + 2 by omega, List.replicate_add]
    rfl
  have hcopied : overwrite ((List.replicate frameLen 0).set 0 cmd) 1
      (payload.take (checksumOffset - 1)) = commandBody cmd payload ++ [0, 0] := by
    have htake : payload.take (checksumOffset - 1) = payload := List.take_of_length_le h
    rw [htake, overwrite, commandBody]
    show [cmd] ++ payload ++ (cmd :: List.replicate 50 0).drop (1 + payload.length) = _
    rw [Nat.add_comm, List.drop_succ_cons, List.drop_replicate, hpadding]
    simp
  have hlength : (commandBody cmd payload).length = checksumOffset := length_commandBody h
  unfold buildCommandFrame
  simp only [hcopied]
  rw [List.take_left' hlength, List.set_append_right _ _ (by rw [hlength]), hlength,
    List.set_append_right _ _ (by rw [hlength]; decide), hlength]
  rfl

theorem verifyFrame_buildCommandFrame (h : payload.length ≤ 48)
    (htrailer : trailer = trailerStd ∨ trailer = trailerFreeform) :
    verifyFrame (buildCommandFrame cmd payload trailer) = true := by
  rw [buildCommandFrame_eq h]
  have hlength : (commandBody cmd payload).length = checksumOffset := length_commandBody h
  have hsum := sum8Range_append (commandBody cmd payload)
    [sum8 (commandBody cmd payload), trailer] (List.cons_ne_nil _ _)
  have hat := byteAt_append_add (commandBody cmd payload) [sum8 (commandBody cmd payload), trailer]
  rw [hlength] at hsum hat
  rw [verifyFrame, if_neg (not_not.2 (by rw [List.length_append, hlength]; rfl))]
  have hcheck : byteAt (commandBody cmd payload ++ [sum8 (commandBody cmd payload), trailer])
      checksumOffset = sum8 (commandBody cmd payload) := hat 0
  rw [if_neg (not_not.2 (hcheck.trans hsum.symm)), show trailerOffset = checksumOffset + 1 from rfl, hat 1]
  rcases htrailer with rfl | rfl <;> rfl

/-- The bytes of a payload that is not cut off. -/
theorem byteAt_buildCommandFrame (h : payload.length ≤ 48) {i : ℕ} (hi : i < payload.length) :
    byteAt (buildCommandFrame cmd payload trailer) (i + 1) = byteAt payload i := by
  rw [buildCommandFrame_eq h, commandBody, List.cons_append, List.append_assoc]
  show ((payload ++ _).getD i 0) = _
  rw [List.getD_append _ _ _ _ hi]
  rfl

end Command

/-! ### Writing memory -/

/-- `kMaxWriteChunk`. -/
def maxWriteChunk : ℕ := 43

/-- The payload of a write of a chunk. -/
def writePayload (address : UInt16) (chunk : Bytes) : Bytes :=
  [0x00, 0x03] ++ (beBytes16 address ++ (UInt8.ofNat chunk.length :: chunk))

/-- The frame of the chunk at an offset. -/
def writeFrame (addr : UInt16) (bytes : Bytes) (off : ℕ) : Bytes :=
  buildCommandFrame 0x87
    (writePayload (addr + UInt16.ofNat off) (subspan bytes off maxWriteChunk)) trailerStd

/-- The offsets of `BuildWriteFrames`. -/
def writeOffsets (size : ℕ) : List ℕ :=
  (List.range ((size + (maxWriteChunk - 1)) / maxWriteChunk)).map (maxWriteChunk * ·)

/-- `BuildWriteFrames`. -/
def buildWriteFrames (addr : UInt16) (bytes : Bytes) : List Bytes :=
  if addr.toUInt32 + UInt32.ofNat bytes.length > 0x10000 then []
  else (writeOffsets bytes.length).map (writeFrame addr bytes)

/-- What an ECU reads from a frame that writes memory: the address and the bytes. -/
def writeOf (frame : Bytes) : Option (UInt16 × Bytes) :=
  if verifyFrame frame = true ∧ byteAt frame 0 = 0x87 ∧ readU16Be frame 1 = 3 ∧
      (byteAt frame 5).toNat ≤ maxWriteChunk then
    some (readU16Be frame 3, subspan frame 6 (byteAt frame 5).toNat)
  else none

section Write

variable {address : UInt16} {chunk : Bytes}

theorem length_writePayload (address : UInt16) (chunk : Bytes) :
    (writePayload address chunk).length = 5 + chunk.length := by
  have haddress : (beBytes16 address).length = 2 := rfl
  rw [writePayload, List.length_append, List.length_append, haddress, List.length_cons]
  simp only [List.length_cons, List.length_nil]
  omega

/-- An ECU reads the address and the chunk of a write. -/
theorem writeOf_buildCommandFrame (h : chunk.length ≤ maxWriteChunk) :
    writeOf (buildCommandFrame 0x87 (writePayload address chunk) trailerStd) = some (address, chunk) := by
  have hchunk : chunk.length ≤ 43 := h
  have hlength := length_writePayload address chunk
  have hfits : (writePayload address chunk).length ≤ 48 := by omega
  have hverify := @verifyFrame_buildCommandFrame 0x87 trailerStd _ hfits (.inl rfl)
  have hat : ∀ i, i < 5 → byteAt (buildCommandFrame 0x87 (writePayload address chunk) trailerStd) (i + 1) =
      byteAt (writePayload address chunk) i := fun i hi => byteAt_buildCommandFrame hfits (by omega)
  have hsize : (byteAt (buildCommandFrame 0x87 (writePayload address chunk) trailerStd) 5).toNat =
      chunk.length := by
    rw [hat 4 (by decide)]
    show (UInt8.ofNat chunk.length).toNat = chunk.length
    rw [UInt8.toNat_ofNat', Nat.mod_eq_of_lt (by omega)]
  have hframe := @buildCommandFrame_eq 0x87 trailerStd _ hfits
  have hbody := @length_commandBody 0x87 _ hfits
  have htwo : ∀ i, i < 4 → fitsAt (buildCommandFrame 0x87 (writePayload address chunk) trailerStd)
      (i + 1) 2 = true := by
    intro i hi
    rw [fitsAt_iff, hframe, List.length_append, hbody]
    simp only [List.length_cons, List.length_nil]
    omega
  have haddress : readU16Be (buildCommandFrame 0x87 (writePayload address chunk) trailerStd) 3 = address := by
    rw [readU16Be, if_pos (htwo 2 (by decide)), hat 2 (by decide), hat 3 (by decide)]
    exact wordBe16_byteOf address
  have hselector : readU16Be (buildCommandFrame 0x87 (writePayload address chunk) trailerStd) 1 = 3 := by
    rw [readU16Be, if_pos (htwo 0 (by decide)), hat 0 (by decide), hat 1 (by decide)]
    show wordBe16 0x00 0x03 = 3
    decide
  have hcmd : byteAt (buildCommandFrame 0x87 (writePayload address chunk) trailerStd) 0 = 0x87 := by
    rw [hframe]
    rfl
  have hdata : subspan (buildCommandFrame 0x87 (writePayload address chunk) trailerStd) 6 chunk.length =
      chunk := by
    rw [hframe, commandBody, subspan]
    show List.take chunk.length ((chunk ++ _) ++ _) = chunk
    rw [List.append_assoc, List.take_left' rfl]
  rw [writeOf, hsize, if_pos ⟨hverify, hcmd, hselector, h⟩, haddress, hdata]

end Write

/-! ### The list of ids -/

/-- `Channel`. -/
structure Channel where
  id : UInt16
  len : Byte
deriving DecidableEq

/-- `BuildSetupFrame`. -/
def buildSetupFrame (setupCmd channelCount : Byte) : Bytes :=
  buildCommandFrame setupCmd [channelCount] trailerFreeform

/-- `SizeToDescriptor`. -/
def sizeToDescriptor (len : Byte) : Byte :=
  if len = 1 then 0 else if len = 2 then 1 else if len = 4 then 2 else 0

/-- `ReqLen`. -/
def reqLen (channelCount : ℕ) : ℕ := (channelCount + 3) / 4 + channelCount * 2 + 0x1c

/-- The bits from which a descriptor starts in its byte. -/
def descriptorShift (i : ℕ) : Byte := UInt8.ofNat ((3 - i % 4) * 2)

/-- The loop of `BuildIdListFrame` over the descriptors, from a channel on. -/
def packDescriptors : List Channel → ℕ → Bytes → Bytes
  | [], _, f => f
  | channel :: channels, i, f =>
    let d := sizeToDescriptor channel.len &&& 0x3
    packDescriptors channels (i + 1)
      (f.set (2 + i / 4) (byteAt f (2 + i / 4) ||| (d <<< descriptorShift i)))

/-- The loop of `BuildIdListFrame` over the ids, from an offset on. -/
def writeIds : List Channel → ℕ → Bytes → Bytes
  | [], _, f => f
  | channel :: channels, off, f => writeIds channels (off + 2) (writeU16Le f off channel.id)

/-- `BuildIdListFrame`. -/
def buildIdListFrame (listCmd : Byte) (channels : List Channel) : Bytes :=
  let n := channels.length
  let total := reqLen n
  let f := ((List.replicate total 0).set 0 listCmd).set 1 (UInt8.ofNat n)
  let f := writeIds channels (2 + (n + 3) / 4) (packDescriptors channels 0 f)
  let f := f.set (total - 2) (sum8Range f 0 (total - 2))
  f.set (total - 1) trailerStd

/-- The size that a descriptor stands for. -/
def descriptorToSize (d : Byte) : Byte := if d = 0 then 1 else if d = 1 then 2 else 4

/-- What an ECU reads from the list of ids. -/
def decodeIdList (frame : Bytes) : Option (List Channel) :=
  let n := (byteAt frame 1).toNat
  if frame.length = reqLen n ∧ 0xA1 ≤ byteAt frame 0 ∧ byteAt frame 0 ≤ 0xA4 ∧
      byteAt frame (reqLen n - 2) = sum8Range frame 0 (reqLen n - 2) ∧
      byteAt frame (reqLen n - 1) = trailerStd then
    some ((List.range n).map fun i =>
      ⟨readU16Le frame (2 + (n + 3) / 4 + 2 * i),
        descriptorToSize ((byteAt frame (2 + i / 4) >>> descriptorShift i) &&& 0x3)⟩)
  else none

section Ids

variable {f : Bytes} {channels : List Channel}

theorem byteAt_set_ne {i j : ℕ} (h : i ≠ j) (f : Bytes) (b : Byte) : byteAt (f.set i b) j = byteAt f j := by
  rw [byteAt, byteAt, List.getD_eq_getElem?_getD, List.getElem?_set_ne h, List.getD_eq_getElem?_getD]

theorem byteAt_set_self {i : ℕ} (h : i < f.length) (b : Byte) : byteAt (f.set i b) i = b := by
  rw [byteAt, List.getD_eq_getElem?_getD, List.getElem?_set_self h]
  rfl

/-- A written halfword is read back. -/
theorem readU16Le_writeU16Le {off : ℕ} (h : off + 2 ≤ f.length) (v : UInt16) :
    byteAt (writeU16Le f off v) off = byteOf v.toUInt32 0 ∧
      byteAt (writeU16Le f off v) (off + 1) = byteOf v.toUInt32 8 := by
  have hbyte : ∀ i, ∀ b, i < 2 → [byteOf v.toUInt32 0, byteOf v.toUInt32 8][i]? = some b →
      byteAt (writeU16Le f off v) (off + i) = b := by
    intro i b hi hb
    rw [byteAt_eq_iff (by rw [length_writeU16Le]; omega), writeU16Le, if_pos (fitsAt_iff.2 h), ← hb]
    exact getElem?_overwrite_add h hi
  exact ⟨hbyte 0 _ (by decide) rfl, hbyte 1 _ (by decide) rfl⟩

theorem byteAt_writeU16Le {off i : ℕ} (hi : i < off ∨ off + 2 ≤ i) (v : UInt16) :
    byteAt (writeU16Le f off v) i = byteAt f i := by
  unfold writeU16Le
  split_ifs with hfits
  · exact byteAt_congr (getElem?_overwrite_of_notMem (fitsAt_iff.1 hfits) hi)
  · rfl

@[simp]
theorem length_writeIds (channels : List Channel) (off : ℕ) (f : Bytes) :
    (writeIds channels off f).length = f.length := by
  induction channels generalizing off f with
  | nil => rfl
  | cons channel channels ih => rw [writeIds, ih, length_writeU16Le]

theorem byteAt_writeIds {off i : ℕ} (hi : i < off ∨ off + 2 * channels.length ≤ i) :
    byteAt (writeIds channels off f) i = byteAt f i := by
  induction channels generalizing off f with
  | nil => rfl
  | cons channel channels ih =>
    rw [List.length_cons] at hi
    rw [writeIds, ih (by omega), byteAt_writeU16Le (by omega)]

/-- The ids are where the ECU reads them. -/
theorem ids_writeIds {off i : ℕ} {channel : Channel} (h : channels[i]? = some channel)
    (hfits : off + 2 * channels.length ≤ f.length) :
    byteAt (writeIds channels off f) (off + 2 * i) = byteOf channel.id.toUInt32 0 ∧
      byteAt (writeIds channels off f) (off + 2 * i + 1) = byteOf channel.id.toUInt32 8 := by
  induction channels generalizing off f i with
  | nil => cases h
  | cons first channels ih =>
    rw [List.length_cons] at hfits
    rw [writeIds]
    cases i with
    | zero =>
      cases h
      rw [byteAt_writeIds (by omega), byteAt_writeIds (by omega)]
      exact readU16Le_writeU16Le (by omega) _
    | succ i =>
      have hrest := @ih (writeU16Le f off first.id) (off + 2) i h (by rw [length_writeU16Le]; omega)
      rwa [show off + 2 * (i + 1) = off + 2 + 2 * i by omega]

/-! ### Descriptors -/

/-- The descriptor that an ECU reads. -/
def descriptorAt (f : Bytes) (i : ℕ) : Byte := (byteAt f (2 + i / 4) >>> descriptorShift i) &&& 0x3

@[simp]
theorem length_packDescriptors (channels : List Channel) (i : ℕ) (f : Bytes) :
    (packDescriptors channels i f).length = f.length := by
  induction channels generalizing i f with
  | nil => rfl
  | cons channel channels ih => rw [packDescriptors, ih, List.length_set]

/-- The descriptors. -/
theorem sizeToDescriptor_mem (len : Byte) : sizeToDescriptor len ∈ [0, 1, 2] := by
  unfold sizeToDescriptor
  split_ifs <;> decide

/-- A descriptor in its own bits, and in those of another. -/
theorem descriptor_shifted {d : Byte} (hd : d ∈ [0, 1, 2]) (i j : ℕ) :
    (((d &&& 0x3) <<< descriptorShift i) >>> descriptorShift j) &&& 0x3 = if i % 4 = j % 4 then d else 0 := by
  have hall : ∀ a < 4, ∀ b < 4, ∀ d ∈ ([0, 1, 2] : List Byte),
      (((d &&& 0x3) <<< UInt8.ofNat ((3 - a) * 2)) >>> UInt8.ofNat ((3 - b) * 2)) &&& 0x3 =
        if a = b then d else 0 := by decide +kernel
  exact hall (i % 4) (Nat.mod_lt i (by decide)) (j % 4) (Nat.mod_lt j (by decide)) d hd

/-- A descriptor only changes its own bits. -/
theorem descriptor_or (b : Byte) {d : Byte} (hd : d ∈ [0, 1, 2]) (i j : ℕ) :
    ((b ||| ((d &&& 0x3) <<< descriptorShift i)) >>> descriptorShift j) &&& 0x3 =
      ((b >>> descriptorShift j) &&& 0x3) ||| if i % 4 = j % 4 then d else 0 := by
  have hdistrib : ∀ x y z : Byte, (x ||| y) &&& z = (x &&& z) ||| (y &&& z) :=
    fun x y z => UInt8.toBitVec_inj.1 BitVec.and_or_distrib_right
  rw [UInt8.shiftRight_or, hdistrib, descriptor_shifted hd]

/-- One turn of the loop over the descriptors. -/
theorem descriptorAt_set {i : ℕ} (hfits : 2 + i / 4 < f.length) (len : Byte) (j : ℕ) :
    descriptorAt (f.set (2 + i / 4)
        (byteAt f (2 + i / 4) ||| ((sizeToDescriptor len &&& 0x3) <<< descriptorShift i))) j =
      descriptorAt f j ||| if j = i then sizeToDescriptor len else 0 := by
  by_cases hbyte : j / 4 = i / 4
  · have hsame : (i % 4 = j % 4) = (j = i) := propext (by omega)
    rw [descriptorAt, hbyte, byteAt_set_self hfits, descriptor_or _ (sizeToDescriptor_mem len)]
    simp only [hsame, descriptorAt, hbyte]
  · rw [descriptorAt, byteAt_set_ne (by omega), if_neg (by omega), UInt8.or_zero, descriptorAt]

/-- The descriptors are where the ECU reads them. -/
theorem descriptorAt_packDescriptors {i : ℕ} (hfits : 2 + (i + channels.length + 3) / 4 ≤ f.length)
    (hzero : ∀ j, i ≤ j → descriptorAt f j = 0) (j : ℕ) :
    descriptorAt (packDescriptors channels i f) j =
      if i ≤ j then ((channels[j - i]?).map fun channel => sizeToDescriptor channel.len).getD 0
      else descriptorAt f j := by
  induction channels generalizing i f with
  | nil =>
    by_cases hij : i ≤ j
    · rw [if_pos hij]
      exact hzero j hij
    · rw [if_neg hij]
      rfl
  | cons channel channels ih =>
    rw [List.length_cons] at hfits
    have hturn := @descriptorAt_set f i (by omega) channel.len
    rw [packDescriptors, ih (by rw [List.length_set]; omega) fun k hk => ?_, hturn]
    · rcases Nat.lt_trichotomy j i with hlt | rfl | hgt
      · rw [if_neg (by omega), if_neg (by omega), if_neg (by omega), UInt8.or_zero]
      · rw [if_neg (by omega), if_pos rfl, if_pos le_rfl, hzero j le_rfl, Nat.sub_self, UInt8.zero_or]
        rfl
      · rw [if_pos (by omega), if_pos (by omega), show j - i = (j - (i + 1)) + 1 by omega]
        rfl
    · rw [hturn, hzero k (by omega), if_neg (by omega), UInt8.zero_or]

theorem byteAt_packDescriptors {i k : ℕ} (hk : k < 2 + i / 4) :
    byteAt (packDescriptors channels i f) k = byteAt f k := by
  induction channels generalizing i f with
  | nil => rfl
  | cons channel channels ih => rw [packDescriptors, ih (by omega), byteAt_set_ne (by omega)]

theorem descriptorToSize_sizeToDescriptor {len : Byte} (h : len ∈ [1, 2, 4]) :
    descriptorToSize (sizeToDescriptor len) = len := by
  have hall : ∀ len ∈ ([1, 2, 4] : List Byte), descriptorToSize (sizeToDescriptor len) = len := by
    decide +kernel
  exact hall len h

/-- The list of ids before its checksum and trailer are set. -/
def idListBody (listCmd : Byte) (channels : List Channel) : Bytes :=
  writeIds channels (2 + (channels.length + 3) / 4) (packDescriptors channels 0
    (((List.replicate (reqLen channels.length) 0).set 0 listCmd).set 1 (UInt8.ofNat channels.length)))

@[simp]
theorem length_idListBody (listCmd : Byte) (channels : List Channel) :
    (idListBody listCmd channels).length = reqLen channels.length := by
  rw [idListBody, length_writeIds, length_packDescriptors, List.length_set, List.length_set,
    List.length_replicate]

theorem byteAt_buildIdListFrame (listCmd : Byte) {k : ℕ} (hk : k < reqLen channels.length - 2) :
    byteAt (buildIdListFrame listCmd channels) k = byteAt (idListBody listCmd channels) k := by
  show byteAt (((idListBody listCmd channels).set _ _).set _ trailerStd) k = _
  rw [byteAt_set_ne (by omega), byteAt_set_ne (by omega)]

/-- The checksum and the trailer of the list. -/
theorem check_buildIdListFrame (listCmd : Byte) (channels : List Channel) :
    (buildIdListFrame listCmd channels).length = reqLen channels.length ∧
      byteAt (buildIdListFrame listCmd channels) (reqLen channels.length - 2) =
        sum8Range (buildIdListFrame listCmd channels) 0 (reqLen channels.length - 2) ∧
      byteAt (buildIdListFrame listCmd channels) (reqLen channels.length - 1) = trailerStd := by
  have hreq : reqLen channels.length = (channels.length + 3) / 4 + channels.length * 2 + 0x1c := rfl
  have hframe : buildIdListFrame listCmd channels = ((idListBody listCmd channels).set
      (reqLen channels.length - 2)
      (sum8Range (idListBody listCmd channels) 0 (reqLen channels.length - 2))).set
      (reqLen channels.length - 1) trailerStd := rfl
  have hlength : (buildIdListFrame listCmd channels).length = reqLen channels.length := by
    rw [hframe, List.length_set, List.length_set, length_idListBody]
  have hrange : ∀ f : Bytes, f.length = reqLen channels.length →
      sum8Range f 0 (reqLen channels.length - 2) = sum8 (f.take (reqLen channels.length - 2)) := by
    intro f hf
    rw [sum8Range, if_neg (by omega), hf, Nat.min_eq_left (by omega), subspan, List.drop_zero]
  refine ⟨hlength, ?_, ?_⟩
  · rw [hrange _ hlength, hframe, byteAt_set_ne (by omega), byteAt_set_self (by rw [length_idListBody]; omega),
      hrange _ (length_idListBody _ _), List.take_set_of_le (by omega), List.take_set_of_le le_rfl]
  · rw [hframe, byteAt_set_self (by rw [List.length_set, length_idListBody]; omega)]

/-- The bytes before the descriptors. -/
theorem head_buildIdListFrame (listCmd : Byte) (channels : List Channel) :
    byteAt (buildIdListFrame listCmd channels) 0 = listCmd ∧
      byteAt (buildIdListFrame listCmd channels) 1 = UInt8.ofNat channels.length := by
  have hreq : reqLen channels.length = (channels.length + 3) / 4 + channels.length * 2 + 0x1c := rfl
  have hstart : ∀ k < 2, byteAt (buildIdListFrame listCmd channels) k =
      byteAt (((List.replicate (reqLen channels.length) 0).set 0 listCmd).set 1
        (UInt8.ofNat channels.length)) k := by
    intro k hk
    rw [byteAt_buildIdListFrame _ (by omega), idListBody, byteAt_writeIds (by omega),
      byteAt_packDescriptors (by omega)]
  constructor
  · rw [hstart 0 (by decide), byteAt_set_ne (by decide),
      byteAt_set_self (by rw [List.length_replicate]; omega)]
  · rw [hstart 1 (by decide), byteAt_set_self (by rw [List.length_set, List.length_replicate]; omega)]

/-- **An ECU reads the channels of the list.** -/
theorem decodeIdList_buildIdListFrame {listCmd : Byte} (hcmd : 0xA1 ≤ listCmd ∧ listCmd ≤ 0xA4)
    (hcount : channels.length < 256) (hlens : ∀ channel ∈ channels, channel.len ∈ [1, 2, 4]) :
    decodeIdList (buildIdListFrame listCmd channels) = some channels := by
  have hreq : reqLen channels.length = (channels.length + 3) / 4 + channels.length * 2 + 0x1c := rfl
  obtain ⟨hlength, hsum, htrailer⟩ := check_buildIdListFrame listCmd channels
  obtain ⟨hzero, hcountByte⟩ := head_buildIdListFrame listCmd channels
  have hone : (byteAt (buildIdListFrame listCmd channels) 1).toNat = channels.length := by
    rw [hcountByte, UInt8.toNat_ofNat', Nat.mod_eq_of_lt hcount]
  unfold decodeIdList
  simp only [hone, hzero]
  rw [if_pos ⟨hlength, hcmd.1, hcmd.2, hsum, htrailer⟩]
  congr 1
  apply List.ext_getElem?
  intro i
  by_cases hi : i < channels.length
  · obtain ⟨channel, hchannel⟩ : ∃ channel, channels[i]? = some channel :=
      ⟨_, List.getElem?_eq_getElem hi⟩
    have hids := @ids_writeIds (packDescriptors channels 0
      (((List.replicate (reqLen channels.length) 0).set 0 listCmd).set 1 (UInt8.ofNat channels.length)))
      channels (2 + (channels.length + 3) / 4) i channel hchannel
      (by rw [length_packDescriptors, List.length_set, List.length_set, List.length_replicate]; omega)
    have hid : readU16Le (buildIdListFrame listCmd channels) (2 + (channels.length + 3) / 4 + 2 * i) =
        channel.id := by
      rw [readU16Le, if_pos (fitsAt_iff.2 (by omega)), byteAt_buildIdListFrame _ (by omega),
        byteAt_buildIdListFrame _ (by omega), idListBody, hids.1, hids.2, wordBe16_byteOf]
    have hdescriptor : descriptorAt (buildIdListFrame listCmd channels) i = sizeToDescriptor channel.len := by
      rw [descriptorAt, byteAt_buildIdListFrame _ (by omega), idListBody, byteAt_writeIds (by omega),
        ← descriptorAt, descriptorAt_packDescriptors ?_ ?_, if_pos (Nat.zero_le i), Nat.sub_zero, hchannel]
      · rfl
      · rw [List.length_set, List.length_set, List.length_replicate]
        omega
      · intro j _
        have hpadding : byteAt (List.replicate (reqLen channels.length) 0) (2 + j / 4) = 0 := by
          rw [byteAt, List.getD_eq_getElem?_getD, List.getElem?_replicate]
          split_ifs <;> rfl
        rw [descriptorAt, byteAt_set_ne (by omega), byteAt_set_ne (by omega), hpadding,
          UInt8.zero_shiftRight, UInt8.zero_and]
    have hlen := descriptorToSize_sizeToDescriptor (hlens channel (List.mem_of_getElem? hchannel))
    rw [List.getElem?_map, List.getElem?_range hi, hchannel]
    show some (Channel.mk _ (descriptorToSize (descriptorAt (buildIdListFrame listCmd channels) i))) = _
    rw [hid, hdescriptor, hlen]
  · rw [List.getElem?_eq_none (by rw [List.length_map, List.length_range]; omega),
      List.getElem?_eq_none (by omega)]

end Ids

/-! ### Streams -/

/-- `StreamFrame`. -/
structure StreamFrame where
  logId : Byte := 0
  data : Bytes := []
  ok : Bool := false

/-- `ParseStreamFrame`. -/
def parseStreamFrame (frame : Bytes) : StreamFrame :=
  if frame.length < 3 then {}
  else if byteAt frame (frame.length - 1) ≠ trailerStd then {}
  else if byteAt frame (frame.length - 2) ≠ sum8Range frame 0 (frame.length - 2) then {}
  else { logId := byteAt frame 0, data := subspan frame 1 (frame.length - 2 - 1), ok := true }

/-- `ResponseDataLength`. -/
def responseDataLength (channels : List Channel) : ℕ :=
  channels.foldl (fun n channel => n + channel.len.toNat) 0

/-- The loop of `DecodeStreamValues`, from an offset on. -/
def decodeValues (data : Bytes) : List Channel → ℕ → List UInt32
  | [], _ => []
  | channel :: channels, off =>
    readULe data off channel.len.toNat :: decodeValues data channels (off + channel.len.toNat)

/-- `DecodeStreamValues`. -/
def decodeStreamValues (channels : List Channel) (data : Bytes) : List UInt32 :=
  if data.length ≠ responseDataLength channels then [] else decodeValues data channels 0

/-- `PlanReadChannels`. -/
def planReadChannels (addr : UInt16) (len : ℕ) : List Channel :=
  (List.range len).map fun i => ⟨addr + UInt16.ofNat i, 1⟩

/-- `ReassembleRead`. -/
def reassembleRead (values : List UInt32) : Bytes := values.map fun v => (v &&& 0xFF).toUInt8

/-- A frame of a stream. -/
def streamFrame (logId : Byte) (data : Bytes) : Bytes :=
  logId :: data ++ [sum8 (logId :: data), trailerStd]

theorem parseStreamFrame_streamFrame (logId : Byte) (data : Bytes) :
    parseStreamFrame (streamFrame logId data) = { logId := logId, data := data, ok := true } := by
  have hlength : (streamFrame logId data).length = (logId :: data).length + 2 := List.length_append
  have hsum := sum8Range_append (logId :: data) [sum8 (logId :: data), trailerStd] (List.cons_ne_nil _ _)
  have hat := byteAt_append_add (logId :: data) [sum8 (logId :: data), trailerStd]
  have hdata : subspan (streamFrame logId data) 1 data.length = data := List.take_left' rfl
  rw [← streamFrame] at hsum
  have hcheck : byteAt (streamFrame logId data) (logId :: data).length = sum8 (logId :: data) := hat 0
  have hlast : byteAt (streamFrame logId data) ((logId :: data).length + 1) = trailerStd := hat 1
  rw [parseStreamFrame, hlength, if_neg (by rw [List.length_cons]; omega), Nat.add_sub_cancel]
  rw [show (logId :: data).length + 2 - 1 = (logId :: data).length + 1 from rfl, hlast,
    if_neg (not_not.2 rfl), hcheck, hsum, if_neg (not_not.2 rfl), List.length_cons, Nat.add_sub_cancel, hdata]
  rfl

section Bytewise

variable {channels : List Channel} {data : Bytes}

/-- The length of a stream of bytes. -/
theorem responseDataLength_bytes (h : ∀ channel ∈ channels, channel.len = 1) :
    responseDataLength channels = channels.length := by
  have hfold : ∀ n, channels.foldl (fun n channel => n + channel.len.toNat) n = n + channels.length := by
    induction channels with
    | nil => exact fun n => rfl
    | cons channel channels ih =>
      intro n
      have hone : channel.len.toNat = 1 := by
        rw [h channel (List.mem_cons_self ..)]
        rfl
      rw [List.foldl_cons, hone, ih (fun c hc => h c (List.mem_cons_of_mem _ hc)), List.length_cons]
      omega
  rw [responseDataLength, hfold, Nat.zero_add]

/-- The values of a stream of bytes. -/
theorem decodeValues_bytes (h : ∀ channel ∈ channels, channel.len = 1) {off : ℕ}
    (hlength : off + channels.length = data.length) :
    decodeValues data channels off = (data.drop off).map UInt8.toUInt32 := by
  induction channels generalizing off with
  | nil =>
    have hend : data.drop off = [] := List.drop_eq_nil_of_le hlength.symm.le
    rw [hend]
    rfl
  | cons channel channels ih =>
    rw [List.length_cons] at hlength
    have hlt : off < data.length := by omega
    have hone : channel.len.toNat = 1 := by
      rw [h channel (List.mem_cons_self ..)]
      rfl
    have hread : readULe data off 1 = data[off].toUInt32 := by
      rw [readULe, if_pos hlt, byteAt, List.getD_eq_getElem _ _ hlt]
    rw [decodeValues, hone, hread, ih (fun c hc => h c (List.mem_cons_of_mem _ hc)) (by omega),
      List.drop_eq_getElem_cons hlt, List.map_cons]

/-- A stream of bytes is put together again. -/
theorem reassembleRead_decodeStreamValues (h : ∀ channel ∈ channels, channel.len = 1)
    (hlength : channels.length = data.length) :
    reassembleRead (decodeStreamValues channels data) = data := by
  have hbyte : ∀ b : Byte, (b.toUInt32 &&& 0xFF).toUInt8 = b := by
    intro b
    apply UInt8.toNat_inj.1
    rw [UInt32.toNat_toUInt8, UInt32.toNat_and, UInt8.toNat_toUInt32,
      show (255 : UInt32).toNat = 2 ^ 8 - 1 from rfl, Nat.and_two_pow_sub_one_eq_mod]
    have hlt := b.toNat_lt
    omega
  rw [decodeStreamValues, responseDataLength_bytes h, if_neg (not_not.2 hlength.symm),
    decodeValues_bytes h (by omega), List.drop_zero, reassembleRead, List.map_map]
  calc data.map ((fun v => (v &&& 0xFF).toUInt8) ∘ UInt8.toUInt32) = data.map id :=
        List.map_congr_left fun b _ => hbyte b
    _ = data := List.map_id data

end Bytewise

end FastEcu.MutDma
