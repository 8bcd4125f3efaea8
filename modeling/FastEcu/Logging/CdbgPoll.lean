import FastEcu.Calibration.RawElement
import FastEcu.Logging.CdbgProtocol
import FastEcu.Logging.SessionSpec

/-!
# A poll of CDBG reads the channels

The channels are cut into as few frames as possible, the ECU is told which item of which frame is which
channel, and a poll assigns the values of a frame to these channels.

* `batchChannelsIntoFrames_iff` : the cut succeeds whenever there is one.
* `Configured` : what every run keeps of the frames and of what the ECU is going to log.
* `poll_of_frame` : the samples of a frame.
* `cdbg_spec` : the cut, and the polls of every run.
-/

namespace FastEcu.Logging.Cdbg

open Calibration (Error ErrorKind invalidConfig toNat_readUBe)
open Data Computation

/-! ### The cut -/

section Cut

variable {channels : List CdbgChannel} {frames : List (List CdbgChannel)}

/-- `CdbgChannel.size` of a channel that the protocol can log. -/
def Sized (channel : CdbgChannel) : Prop := channel.size = 1 ∨ channel.size = 2 ∨ channel.size = 4

theorem Sized.le_four {channel : CdbgChannel} (h : Sized channel) : channel.size.toNat ≤ 4 := by
  rcases h with h | h | h <;> rw [h] <;> decide

theorem Sized.pos {channel : CdbgChannel} (h : Sized channel) : 0 < channel.size.toNat := by
  rcases h with h | h | h <;> rw [h] <;> decide

theorem Sized.le {channel : CdbgChannel} (h : Sized channel) : channel.size.toNat ≤ kMaxFrameBytes :=
  h.le_four.trans (by decide)

/-- An order-preserving partition of the channels into frames of at most seven data bytes. -/
def Partition (channels : List CdbgChannel) (frames : List (List CdbgChannel)) : Prop :=
  frames.flatten = channels ∧ ∀ frame ∈ frames, frameBytes frame ≤ kMaxFrameBytes

/-- The frames of the channels, one after another as they fit. -/
def cut (channels : List CdbgChannel) : List (List CdbgChannel) :=
  nextFit (fun channel => channel.size.toNat) kMaxFrameBytes [] channels

theorem batchLoop_eq_cut (hne : channels ≠ []) : batchLoop [] [] 1 channels = cut channels :=
  @batchLoop_eq [] [] channels 1 rfl (.inr hne)

/-- What the cut gives when it succeeds. -/
theorem eq_cut_of_batch (h : batchChannelsIntoFrames channels = some frames) :
    channels ≠ [] ∧ frames = cut channels ∧ frames.length ≤ kMaxFrames := by
  rw [batchChannelsIntoFrames] at h
  split at h
  · cases h
  · rename_i hne
    rw [batchLoop_eq_cut hne] at h
    simp only at h
    split at h
    · cases h
    · rename_i hfit
      cases h
      exact ⟨hne, rfl, Nat.le_of_not_lt hfit⟩

theorem flatten_batch (h : batchChannelsIntoFrames channels = some frames) : frames.flatten = channels := by
  rw [(eq_cut_of_batch h).2.1, cut, flatten_nextFit, List.nil_append]

/-- No frame of the cut is empty. -/
theorem ne_nil_of_mem_batch (hsizes : ∀ channel ∈ channels, Sized channel)
    (h : batchChannelsIntoFrames channels = some frames) : ∀ frame ∈ frames, frame ≠ [] := by
  obtain ⟨hne, rfl, -⟩ := eq_cut_of_batch h
  cases channels with
  | nil => exact absurd rfl hne
  | cons channel channels =>
    -- the first channel always fits into the first frame
    rw [cut, nextFit_cons_of_le (by simpa using (hsizes channel (List.mem_cons_self ..)).le)]
    exact ne_nil_of_mem_nextFit (by simp)

/-- **The cut succeeds whenever there is one.** -/
theorem batchChannelsIntoFrames_iff (hsizes : ∀ channel ∈ channels, Sized channel) :
    (batchChannelsIntoFrames channels).isSome = true ↔
      channels ≠ [] ∧ ∃ frames, Partition channels frames ∧ frames.length ≤ kMaxFrames := by
  constructor
  · intro h
    obtain ⟨frames, hframes⟩ := Option.isSome_iff_exists.1 h
    obtain ⟨hflatten, hlength, hbytes⟩ :=
      batchChannelsIntoFrames_spec (fun channel hmem => (hsizes channel hmem).le) hframes
    exact ⟨(eq_cut_of_batch hframes).1, frames, ⟨hflatten, hbytes⟩, hlength⟩
  · rintro ⟨hne, frames, ⟨rfl, hbytes⟩, hlength⟩
    have hframes : frames ≠ [] := by
      rintro rfl
      exact hne rfl
    have hfew : (cut frames.flatten).length ≤ kMaxFrames := (length_nextFit_le hframes hbytes).trans hlength
    rw [batchChannelsIntoFrames, if_neg hne, batchLoop_eq_cut hne]
    simp only [if_neg (Nat.not_lt.2 hfew), Option.isSome_some]

end Cut

/-! ### The values of a frame -/

section Values

/-- The big-endian bytes of a value of so many bytes. -/
def bigEndian (size : ℕ) (value : UInt32) : Bytes := (beBytes value).drop (4 - size)

/-- A value has as many bytes as its channel. -/
def Fits (channel : CdbgChannel) (value : UInt32) : Prop := value.toNat < 256 ^ channel.size.toNat

/-- The data bytes of a frame that carries the values. -/
def carried : List CdbgChannel → List UInt32 → Bytes
  | channel :: items, value :: values => bigEndian channel.size.toNat value ++ carried items values
  | _, _ => []

theorem length_bigEndian {size : ℕ} (h : size ≤ 4) (value : UInt32) :
    (bigEndian size value).length = size := by
  rw [bigEndian, List.length_drop, length_beBytes]
  omega

theorem subspan_middle (l m r : Bytes) : subspan (l ++ (m ++ r)) l.length m.length = m := by
  rw [subspan, List.drop_left, List.take_left]

/-- The bytes of a value that fits are its digits to the base 256. -/
theorem ofDigits_bigEndian {channel : CdbgChannel} {value : UInt32} (hsize : Sized channel)
    (hfits : Fits channel value) :
    Nat.ofDigits 256 ((bigEndian channel.size.toNat value).map UInt8.toNat).reverse = value.toNat := by
  have h₀ := toNat_byteOf value 0 (by decide)
  have h₁ := toNat_byteOf value 8 (by decide)
  have h₂ := toNat_byteOf value 16 (by decide)
  have h₃ := toNat_byteOf value 24 (by decide)
  simp only [UInt32.reduceToNat] at h₀ h₁ h₂ h₃
  rw [Fits] at hfits
  rcases hsize with h | h | h
  · simp [h, bigEndian, beBytes, h₀] at hfits ⊢
    omega
  · simp [h, bigEndian, beBytes, h₀, h₁, Nat.ofDigits_cons] at hfits ⊢
    omega
  · simp [h, bigEndian, beBytes, h₀, h₁, h₂, h₃, Nat.ofDigits_cons] at hfits ⊢
    omega

/-- A value is read back from its bytes. -/
theorem readUBe_bigEndian {channel : CdbgChannel} {value : UInt32} (hsize : Sized channel)
    (hfits : Fits channel value) (l r : Bytes) :
    readUBe (l ++ (bigEndian channel.size.toNat value ++ r)) l.length channel.size.toNat = value := by
  have hlength := length_bigEndian hsize.le_four value
  have hwindow : l.length + channel.size.toNat ≤
      (l ++ (bigEndian channel.size.toNat value ++ r)).length := by
    simp only [List.length_append, hlength]
    omega
  have hmiddle := subspan_middle l (bigEndian channel.size.toNat value) r
  rw [hlength] at hmiddle
  refine UInt32.toNat_inj.1 ?_
  rw [toNat_readUBe hsize.pos hsize.le_four hwindow, hmiddle]
  exact ofDigits_bigEndian hsize hfits

variable {items : List CdbgChannel} {values : List UInt32}

/-- The values of the items of a frame. -/
def Carries (items : List CdbgChannel) (values : List UInt32) : Prop := List.Forall₂ Fits items values

theorem length_carried (hsizes : ∀ channel ∈ items, Sized channel) (h : Carries items values) :
    (carried items values).length = frameBytes items := by
  induction h with
  | nil => rfl
  | cons hfits h ih =>
    rename_i channel value items values
    rw [carried, List.length_append, length_bigEndian (hsizes channel (List.mem_cons_self ..)).le_four,
      ih fun c hc => hsizes c (List.mem_cons_of_mem _ hc)]
    simp [frameBytes]

/-- **The values are read back in the order of the items.** -/
theorem valuesFrom_carried (hsizes : ∀ channel ∈ items, Sized channel) (h : Carries items values)
    (l r : Bytes) : valuesFrom (l ++ (carried items values ++ r)) l.length items = values := by
  induction h generalizing l with
  | nil => rfl
  | cons hfits h ih =>
    rename_i channel value items values
    have hsized := hsizes channel (List.mem_cons_self ..)
    have hrest := ih (fun c hc => hsizes c (List.mem_cons_of_mem _ hc))
      (l ++ bigEndian channel.size.toNat value)
    rw [List.length_append, length_bigEndian hsized.le_four, List.append_assoc] at hrest
    rw [valuesFrom, carried, List.append_assoc, readUBe_bigEndian hsized hfits, hrest]

theorem foldl_size (items : List CdbgChannel) (sum : ℕ) :
    items.foldl (fun sum channel => sum + channel.size.toNat) sum = sum + frameBytes items := by
  induction items generalizing sum with
  | nil => rfl
  | cons channel items ih =>
    rw [List.foldl_cons, ih]
    simp [frameBytes, Nat.add_assoc]

theorem decodeFrame_carried (hsizes : ∀ channel ∈ items, Sized channel) (h : Carries items values)
    (k : Byte) (padding : Bytes) :
    decodeFrame k items (k :: (carried items values ++ padding)) = values := by
  have hlength : ¬(k :: (carried items values ++ padding)).length < 1 + frameBytes items := by
    simp only [List.length_cons, List.length_append, length_carried hsizes h]
    omega
  rw [decodeFrame, if_neg (by simp), foldl_size, if_neg hlength]
  exact valuesFrom_carried hsizes h [k] padding

theorem length_valuesFrom (frame : Bytes) (offset : ℕ) (items : List CdbgChannel) :
    (valuesFrom frame offset items).length = items.length := by
  induction items generalizing offset with
  | nil => rfl
  | cons channel items ih => rw [valuesFrom, List.length_cons, List.length_cons, ih]

/-- A frame that is decoded has a value for each item. -/
theorem length_decodeFrame {k : Byte} {frame : Bytes} (h : decodeFrame k items frame ≠ []) :
    (decodeFrame k items frame).length = items.length := by
  rw [decodeFrame] at h ⊢
  split at h
  · exact absurd rfl h
  · split at h
    · exact absurd rfl h
    · rename_i hfirst hlong
      rw [if_neg hfirst, if_neg hlong, length_valuesFrom]

end Values

/-! ### The poll -/

section Poll

variable {protocol : CdbgLoggingProtocol} {frame : List CdbgChannel} {k : ℕ}

/-- The frames of the driver are the channels of the protocol. -/
def Framed (protocol : CdbgLoggingProtocol) : Prop :=
  protocol.driver.frames = [] ∨ protocol.driver.frames.flatten = protocol.wireChannels

/-- The channels that a frame is made of are behind the channels of the frames before it. -/
theorem Framed.channels_eq (h : Framed protocol) (hframe : protocol.driver.frames[k]? = some frame) :
    ∃ before mine after, protocol.channels = before ++ (mine ++ after) ∧
      before.map (·.toCdbg) = (protocol.driver.frames.take k).flatten ∧ mine.map (·.toCdbg) = frame := by
  have hflatten : protocol.driver.frames.flatten = protocol.channels.map (·.toCdbg) := by
    refine h.resolve_left fun hnil => ?_
    rw [hnil] at hframe
    cases hframe
  obtain ⟨hk, hget⟩ := List.getElem?_eq_some_iff.1 hframe
  rw [← List.take_append_drop k protocol.driver.frames, List.drop_eq_getElem_cons hk, hget,
    List.flatten_append, List.flatten_cons] at hflatten
  obtain ⟨before, rest, hchannels, hbefore, hrest⟩ := List.map_eq_append_iff.1 hflatten.symm
  obtain ⟨mine, after, rfl, hmine, -⟩ := List.map_eq_append_iff.1 hrest
  exact ⟨before, mine, after, hchannels, hbefore, hmine⟩

/-- The offset that the driver computes is the number of channels in the frames before. -/
theorem foldl_length (frames : List (List CdbgChannel)) (k : ℕ) :
    (List.range k).foldl (fun total i => total + (frames[i]?.getD []).length) 0 =
      (frames.take k).flatten.length := by
  induction k with
  | zero => rfl
  | succ k ih =>
    rw [List.range_succ, List.foldl_append, ih, List.foldl_cons, List.foldl_nil, List.take_add_one,
      List.flatten_append, List.length_append]
    cases frames[k]? with
    | none => rfl
    | some frame => simp

/-- The samples of channels and their values. -/
def samplesFor (mine : List LoggingChannel) (values : List UInt32) : List ProtocolSample :=
  List.zipWith (fun channel value => ⟨channel.id, toString value.toNat⟩) mine values

/-- Values that have as many channels behind the offset are assigned to these. -/
theorem samplesOf_eq {before mine after : List LoggingChannel} {values : List UInt32}
    (hchannels : protocol.channels = before ++ (mine ++ after)) (hlength : values.length = mine.length) :
    protocol.samplesOf ⟨true, before.length, values⟩ = .ok ⟨true, samplesFor mine values⟩ := by
  have hinside : ¬(before.length > protocol.channels.length ∨
      values.length > protocol.channels.length - before.length) := by
    rw [hchannels]
    simp only [List.length_append]
    omega
  rw [CdbgLoggingProtocol.samplesOf, if_neg (by simp), if_neg hinside]
  refine congrArg (fun samples => Except.ok (PollData.mk true samples)) ?_
  refine List.ext_getElem? fun i => ?_
  simp only [samplesFor, List.getElem?_zipWith, hchannels]
  rcases lt_or_ge i values.length with hlt | hge
  · have hmine : i < mine.length := hlength ▸ hlt
    rw [List.getElem?_map, List.getElem?_range hlt, Option.map_some,
      List.getElem?_append_right (Nat.le_add_right ..), Nat.add_sub_cancel_left,
      List.getElem?_append_left hmine, List.getElem?_eq_getElem hlt,
      List.getElem?_eq_getElem hmine]
    rfl
  · rw [List.getElem?_eq_none (by simpa using hge), List.getElem?_eq_none hge]
    cases mine[i]? <;> rfl

/-- What the driver gives for a read: its error, nothing, or the values of one of its frames. -/
theorem pollOnce_cases (driver : CdbgLogDriver) (read : Except Error (Option CanFrame)) :
    (∃ e, read = .error e ∧ driver.pollOnce read = .error e) ∨ driver.pollOnce read = .ok {} ∨
      ∃ k frame values, driver.frames[k]? = some frame ∧ values.length = frame.length ∧
        driver.pollOnce read = .ok ⟨true, (driver.frames.take k).flatten.length, values⟩ := by
  unfold CdbgLogDriver.pollOnce
  split
  · exact .inr (.inl rfl)
  · split
    · rename_i e
      exact .inl ⟨e, rfl, rfl⟩
    · exact .inr (.inl rfl)
    · rename_i reply
      split
      · exact .inr (.inl rfl)
      · simp only
        split
        · exact .inr (.inl rfl)
        · rename_i frame hframe
          split
          · exact .inr (.inl rfl)
          · rename_i hdecoded
            refine .inr (.inr ⟨_, frame, _, hframe, length_decodeFrame hdecoded, ?_⟩)
            rw [foldl_length]

/-- What the protocol gives for what the driver gives, when it may go on. -/
theorem poll_eq (protocol : CdbgLoggingProtocol) (read : Except Error (Option CanFrame)) :
    protocol.poll false true read =
      if protocol.driver.streaming then protocol.driver.pollOnce read >>= protocol.samplesOf
      else .ok {} := by
  cases hstreaming : protocol.driver.streaming with
  | false => simp [CdbgLoggingProtocol.poll, checkLoggingRunCanContinue, hstreaming]
  | true =>
    simp [CdbgLoggingProtocol.poll, checkLoggingRunCanContinue, hstreaming]
    rfl

/-- **The branch for values outside the channels is never taken**: that error can only be the read's. -/
theorem Framed.outside (h : Framed protocol) {cancelled isOpen : Bool}
    {read : Except Error (Option CanFrame)}
    (hpoll : protocol.poll cancelled isOpen read = .error outsideError) : read = .error outsideError := by
  cases cancelled with
  | true => cases hpoll
  | false =>
    cases isOpen with
    | false => cases hpoll
    | true =>
      rw [poll_eq] at hpoll
      split at hpoll
      · rcases pollOnce_cases protocol.driver read with
          ⟨e, rfl, he⟩ | hnone | ⟨k, frame, values, hframe, hlength, hvalues⟩
        · rw [he] at hpoll
          cases hpoll
          rfl
        · rw [hnone] at hpoll
          cases hpoll
        · obtain ⟨before, mine, after, hchannels, hbefore, hmine⟩ := h.channels_eq hframe
          have hoffset : (protocol.driver.frames.take k).flatten.length = before.length := by
            rw [← hbefore, List.length_map]
          have hcount : values.length = mine.length := by rw [hlength, ← hmine, List.length_map]
          rw [hvalues, hoffset] at hpoll
          change protocol.samplesOf ⟨true, before.length, values⟩ = _ at hpoll
          rw [samplesOf_eq hchannels hcount] at hpoll
          cases hpoll
      · cases hpoll

/-- **A poll assigns the values of a frame to the channels that the frame is made of.** -/
theorem poll_of_frame {before mine after : List LoggingChannel} {values : List UInt32}
    (hstreaming : protocol.driver.streaming = true) (hk : k < 256)
    (hframe : protocol.driver.frames[k]? = some frame) (hne : frame ≠ [])
    (hsizes : ∀ channel ∈ frame, Sized channel)
    (hchannels : protocol.channels = before ++ (mine ++ after))
    (hbefore : before.map (·.toCdbg) = (protocol.driver.frames.take k).flatten)
    (hmine : mine.map (·.toCdbg) = frame) (hvalues : Carries frame values) (padding : Bytes) :
    protocol.poll false true (.ok (some ⟨0x631, UInt8.ofNat k :: (carried frame values ++ padding)⟩)) =
      .ok ⟨true, samplesFor mine values⟩ := by
  have hlength : values.length = frame.length := (List.Forall₂.length_eq hvalues).symm
  have hvalues_ne : values ≠ [] := by
    rintro rfl
    exact hne (List.length_eq_zero_iff.1 hlength.symm)
  have hindex : (UInt8.ofNat k).toNat = k := by
    rw [UInt8.toNat_ofNat']
    omega
  have honce : protocol.driver.pollOnce
      (.ok (some ⟨0x631, UInt8.ofNat k :: (carried frame values ++ padding)⟩)) =
        .ok ⟨true, before.length, values⟩ := by
    have hoffset : before.length = (protocol.driver.frames.take k).flatten.length := by
      rw [← hbefore, List.length_map]
    rw [hoffset, ← foldl_length]
    simp [CdbgLogDriver.pollOnce, hstreaming, byteAt, hindex, hframe, decodeFrame_carried hsizes hvalues,
      hvalues_ne]
  rw [poll_eq, if_pos hstreaming, honce]
  exact samplesOf_eq hchannels (by rw [hlength, ← hmine, List.length_map])

end Poll

/-! ### What the ECU is told -/

section Start

/-- The commands that define the frames, from a frame. -/
def frameCommands (logInstance : Byte) : ℕ → List (List CdbgChannel) → List Bytes
  | _, [] => []
  | f, frame :: frames =>
    buildFrameInitFrames logInstance (UInt8.ofNat f) frame ++ frameCommands logInstance (f + 1) frames

theorem ecuLog_append (log : EcuLog) (commands commands' : List Bytes) :
    ecuLog log (commands ++ commands') = ecuLog (ecuLog log commands) commands' := List.foldl_append

/-- A selection and a pointer define the item. -/
theorem ecuLog_item (log : EcuLog) (logInstance f i : Byte) (channel : CdbgChannel) (rest : List Bytes) :
    ecuLog log (selectItem logInstance f i :: setPointer channel :: rest) =
      ecuLog ⟨(logInstance, f, i), Function.update log.slots (logInstance, f, i) (some channel)⟩ rest := by
  have hpointer : readU32Be (setPointer channel) 4 = channel.pointer :=
    readU32Be_beBytes_append channel.pointer []
  simp only [ecuLog, List.foldl_cons]
  congr 1
  simp [EcuLog.after, selectItem, byteAt, hpointer]
  rfl

/-- The items of a frame, from an item: they are defined and nothing else is changed. -/
theorem slots_initFramesFrom (logInstance f f' i : Byte) {n : ℕ} {items : List CdbgChannel}
    (hfew : n + items.length ≤ 256) (log : EcuLog) :
    (ecuLog log (initFramesFrom logInstance f n items)).slots (logInstance, f', i) =
      (if f' = f ∧ n ≤ i.toNat then items[i.toNat - n]? else none).or (log.slots (logInstance, f', i)) := by
  induction items generalizing n log with
  | nil => simp [initFramesFrom, ecuLog]
  | cons channel items ih =>
    rw [List.length_cons] at hfew
    have hn : (UInt8.ofNat n).toNat = n := by
      rw [UInt8.toNat_ofNat']
      omega
    rw [initFramesFrom, ecuLog_item, ih (by omega)]
    by_cases hslot : f' = f ∧ i = UInt8.ofNat n
    · -- the item itself
      obtain ⟨rfl, rfl⟩ := hslot
      rw [if_neg (by omega), hn, if_pos ⟨rfl, Nat.le_refl n⟩, Nat.sub_self]
      simp
    · have hother : (logInstance, f', i) ≠ (logInstance, f, UInt8.ofNat n) := by
        simpa using hslot
      dsimp only
      rw [Function.update_of_ne hother]
      refine congrArg (Option.or · _) ?_
      by_cases hlater : f' = f ∧ n + 1 ≤ i.toNat
      · rw [if_pos hlater, if_pos ⟨hlater.1, by omega⟩, show i.toNat - n = i.toNat - (n + 1) + 1 by omega,
          List.getElem?_cons_succ]
      · rw [if_neg hlater, if_neg]
        rintro ⟨hf, hle⟩
        have hnot : ¬n + 1 ≤ i.toNat := fun h => hlater ⟨hf, h⟩
        refine hslot ⟨hf, UInt8.toNat_inj.1 ?_⟩
        omega

/-- The frames, from a frame: their items are defined and nothing else is changed. -/
theorem slots_frameCommands (logInstance f' i : Byte) {f : ℕ} {frames : List (List CdbgChannel)}
    (hfew : f + frames.length ≤ 256) (hitems : ∀ frame ∈ frames, frame.length ≤ 256) (log : EcuLog) :
    (ecuLog log (frameCommands logInstance f frames)).slots (logInstance, f', i) =
      (if f ≤ f'.toNat then (frames[f'.toNat - f]?).bind (·[i.toNat]?) else none).or
        (log.slots (logInstance, f', i)) := by
  induction frames generalizing f log with
  | nil => simp [frameCommands, ecuLog]
  | cons frame frames ih =>
    rw [List.length_cons] at hfew
    have hf : (UInt8.ofNat f).toNat = f := by
      rw [UInt8.toNat_ofNat']
      omega
    have hframe : 0 + frame.length ≤ 256 := by
      rw [Nat.zero_add]
      exact hitems frame (List.mem_cons_self ..)
    rw [frameCommands, ecuLog_append, ih (by omega) fun frame h => hitems frame (List.mem_cons_of_mem _ h),
      buildFrameInitFrames, slots_initFramesFrom _ _ _ _ hframe]
    by_cases hsame : f' = UInt8.ofNat f
    · -- the frame itself
      subst hsame
      rw [if_neg (by omega), Option.none_or, if_pos ⟨rfl, Nat.zero_le _⟩, hf, if_pos (Nat.le_refl f),
        Nat.sub_self]
      rfl
    · have hother : ¬(f' = UInt8.ofNat f ∧ 0 ≤ i.toNat) := fun h => hsame h.1
      rw [if_neg hother, Option.none_or]
      refine congrArg (Option.or · _) ?_
      by_cases hlater : f + 1 ≤ f'.toNat
      · rw [if_pos hlater, if_pos (by omega), show f'.toNat - f = f'.toNat - (f + 1) + 1 by omega,
          List.getElem?_cons_succ]
      · rw [if_neg hlater, if_neg]
        intro hle
        refine hsame (UInt8.toNat_inj.1 ?_)
        omega

/-- **What the ECU logs** after a reset and the definition of the frames: the channels of each frame. -/
theorem slots_configured (logInstance f i frameCount : Byte) (intervalMs : UInt32)
    {frames : List (List CdbgChannel)} (hfew : frames.length ≤ 256)
    (hitems : ∀ frame ∈ frames, frame.length ≤ 256) (log : EcuLog) :
    (ecuLog log (buildLogResetFrame logInstance :: frameCommands logInstance 0 frames ++
      [buildLogStartFrame logInstance frameCount intervalMs])).slots (logInstance, f, i) =
        (frames[f.toNat]?).bind (·[i.toNat]?) := by
  have hfew' : 0 + frames.length ≤ 256 := by omega
  have hreset : (log.after (buildLogResetFrame logInstance)).slots (logInstance, f, i) = none := by
    simp [EcuLog.after, buildLogResetFrame, byteAt]
  rw [ecuLog_append]
  change (ecuLog (log.after (buildLogResetFrame logInstance))
    (frameCommands logInstance 0 frames)).slots (logInstance, f, i) = _
  rw [slots_frameCommands _ _ _ hfew' hitems, hreset, Option.or_none, if_pos (Nat.zero_le _), Nat.sub_zero]

theorem sendAndReceive_sends (command : Bytes) (detail : String) :
    Sends some [command] (sendAndReceive command detail) := by
  intro exchanges
  exact ⟨List.prefix_refl _, fun _ _ => rfl⟩

theorem send_sends (command : Bytes) (detail : String) : Sends some [command] (send command detail) :=
  (sendAndReceive_sends command detail).map fun _ => ()

theorem configureFrom_sends (logInstance : Byte) (f : ℕ) (frames : List (List CdbgChannel)) :
    Sends some (frameCommands logInstance f frames) (configureFrom logInstance f frames) := by
  induction frames generalizing f with
  | nil => exact .pure ()
  | cons frame frames ih =>
    refine .bind ?_ fun _ => ih (f + 1)
    have hframe := @Sends.each_map _ _ _ _ _ _ (buildFrameInitFrames logInstance (UInt8.ofNat f) frame) id _
      fun command _ => send_sends command "CDBG log frame setup failed"
    rwa [List.map_id] at hframe

theorem configureAndStart_sends (frames : List (List CdbgChannel)) (logInstance : Byte)
    (intervalMs : UInt32) :
    Sends some (buildLogResetFrame logInstance :: frameCommands logInstance 0 frames ++
      [buildLogStartFrame logInstance (UInt8.ofNat frames.length) intervalMs])
      (configureAndStart frames logInstance intervalMs) :=
  .bind (.bind (send_sends _ _) fun _ => configureFrom_sends logInstance 0 frames) fun _ => send_sends _ _

/-- What `StartFreeFormLog` leaves: the frames are the cut or none, and when it streams the ECU has been
told which channel is which item. -/
structure StartSpec (channels : List CdbgChannel) (logInstance : Byte) (intervalMs : UInt32)
    (started : Started) : Prop where
  frames : started.driver.frames = [] ∨ batchChannelsIntoFrames channels = some started.driver.frames
  sized : started.driver.streaming = true → ∀ channel ∈ channels, Sized channel
  told : started.driver.streaming = true → ∃ unlocked, started.commands = unlocked ++
    (buildLogResetFrame logInstance :: frameCommands logInstance 0 started.driver.frames ++
      [buildLogStartFrame logInstance (UInt8.ofNat started.driver.frames.length) intervalMs])
  cut : started.driver.streaming = true →
    batchChannelsIntoFrames channels = some started.driver.frames

/-- A start that has not come to the frames leaves none, and does not stream. -/
theorem startSpec_of_idle {channels : List CdbgChannel} {logInstance : Byte} {intervalMs : UInt32}
    {started : Started} (h : started.driver = {}) : StartSpec channels logInstance intervalMs started := by
  have hidle : ¬started.driver.streaming = true := by simp [h]
  exact ⟨.inl (by rw [h]), fun hs => absurd hs hidle, fun hs => absurd hs hidle, fun hs => absurd hs hidle⟩

theorem startFreeFormLog_spec (channels : List CdbgChannel) (logInstance : Byte) (intervalMs : UInt32)
    (exchanges : List CanExchange) :
    StartSpec channels logInstance intervalMs
      (startFreeFormLog channels logInstance intervalMs exchanges) := by
  unfold startFreeFormLog
  split
  · exact startSpec_of_idle rfl
  · split
    · exact startSpec_of_idle rfl
    · rename_i hsizes
      simp only
      split
      · exact startSpec_of_idle rfl
      · split
        · exact startSpec_of_idle rfl
        · rename_i frames hframes
          have hprogram := configureAndStart_sends frames logInstance intervalMs (unlock exchanges).state
          generalize configureAndStart frames logInstance intervalMs (unlock exchanges).state = started
            at hprogram
          refine ⟨.inr hframes, fun _ => ?_, fun hstreaming => ⟨(unlock exchanges).events, ?_⟩,
            fun _ => hframes⟩
          · intro channel hmem
            have hsize := fun h => hsizes (List.any_eq_true.2 ⟨channel, hmem, h⟩)
            simp only [Bool.and_eq_true, bne_iff_ne, ne_eq] at hsize
            rw [Sized]
            tauto
          · cases hresult : started.result with
            | ok a =>
              have hsent := hprogram.2 a hresult
              rw [← hsent, sent, List.filterMap_some]
            | error e =>
              rw [hresult] at hstreaming
              cases hstreaming

end Start

/-! ### Every run -/

section Runs

variable {channels : List LoggingChannel} {run : Run}

/-- **What every run keeps**: the channels, that the frames are made of them, and while the frames stream,
that the ECU logs the channels of the frames. -/
structure Configured (channels : List LoggingChannel) (run : Run) : Prop where
  channels_eq : run.protocol.channels = channels
  framed : Framed run.protocol
  sized : run.protocol.driver.streaming = true → ∀ channel ∈ channels, Sized channel.toCdbg
  cut : run.protocol.driver.streaming = true →
    batchChannelsIntoFrames (channels.map (·.toCdbg)) = some run.protocol.driver.frames
  logged : run.protocol.driver.streaming = true → ∀ f i : Byte,
    (ecuLog {} run.commands).slots (0, f, i) = (run.protocol.driver.frames[f.toNat]?).bind (·[i.toNat]?)

/-- A frame has no more items than data bytes. -/
theorem length_frame_le {wire : List CdbgChannel} {frames : List (List CdbgChannel)}
    (hsizes : ∀ channel ∈ wire, Sized channel) (h : batchChannelsIntoFrames wire = some frames) :
    ∀ frame ∈ frames, frame.length ≤ 256 := by
  intro frame hframe
  obtain ⟨hflatten, -, hbytes⟩ := batchChannelsIntoFrames_spec (fun c hc => (hsizes c hc).le) h
  have hpos : ∀ size ∈ frame.map (·.size.toNat), 1 ≤ size := by
    intro size hsize
    obtain ⟨channel, hmem, rfl⟩ := List.mem_map.1 hsize
    exact (hsizes channel (hflatten ▸ List.mem_flatten_of_mem hframe hmem)).pos
  have hsum := List.length_le_sum_of_one_le _ hpos
  rw [List.length_map] at hsum
  exact hsum.trans ((hbytes frame hframe).trans (by decide))

theorem Configured.after (h : Configured channels run) (call : Call) :
    Configured channels (run.after call) := by
  cases call with
  | poll cancelled isOpen read => exact h
  | stop => exact h
  | start cancelled isOpen exchanges =>
    simp only [Run.after, CdbgLoggingProtocol.start]
    split
    · exact ⟨h.channels_eq, h.framed, h.sized, h.cut, by simpa using h.logged⟩
    · have hwire : run.protocol.wireChannels = channels.map (·.toCdbg) := by
        rw [CdbgLoggingProtocol.wireChannels, h.channels_eq]
      have hspec := startFreeFormLog_spec run.protocol.wireChannels 0 10 exchanges
      generalize startFreeFormLog run.protocol.wireChannels 0 10 exchanges = started at hspec
      rw [hwire] at hspec
      have hsizes : started.driver.streaming = true → ∀ channel ∈ channels, Sized channel.toCdbg :=
        fun hs channel hmem => hspec.sized hs _ (List.mem_map_of_mem hmem)
      refine ⟨h.channels_eq, ?_, hsizes, hspec.cut, ?_⟩
      · rcases hspec.frames with hnil | hcut
        · exact .inl hnil
        · refine .inr ((flatten_batch hcut).trans ?_)
          exact hwire.symm
      · intro hstreaming f i
        obtain ⟨unlocked, hcommands⟩ := hspec.told hstreaming
        have hcut := hspec.cut hstreaming
        have hfew : started.driver.frames.length ≤ 256 :=
          (eq_cut_of_batch hcut).2.2.trans (by decide)
        change (ecuLog {} (run.commands ++ started.commands)).slots (0, f, i) = _
        rw [hcommands, ecuLog_append, ecuLog_append]
        exact slots_configured 0 f i _ 10 hfew (length_frame_le (hspec.sized hstreaming) hcut) _

theorem configured_of (channels : List LoggingChannel) (calls : List Call) :
    Configured channels (Run.of channels calls) := by
  induction calls using List.reverseRecOn with
  | nil => exact ⟨rfl, .inl rfl, by simp [Run.of], by simp [Run.of], by simp [Run.of]⟩
  | append_singleton calls call ih =>
    rw [Run.of, List.foldl_append]
    exact ih.after call

end Runs

/-- **The frames of CDBG and their values.** The cut succeeds exactly when there is a partition, and gives
one without empty frames.  In every run, no read takes a poll into the branch for values outside the
channels; and while the frames stream, a frame is made of channels of the protocol, its items are logged by
the ECU for these channels, and a reply with their values gives each value to its channel. -/
theorem cdbg_spec :
    (∀ channels : List CdbgChannel, (∀ channel ∈ channels, Sized channel) →
      ((batchChannelsIntoFrames channels).isSome = true ↔
        channels ≠ [] ∧ ∃ frames, Partition channels frames ∧ frames.length ≤ kMaxFrames) ∧
      ∀ frames, batchChannelsIntoFrames channels = some frames →
        Partition channels frames ∧ ∀ frame ∈ frames, frame ≠ []) ∧
    ∀ (channels : List LoggingChannel) (calls : List Call),
      (∀ cancelled isOpen read,
        (Run.of channels calls).protocol.poll cancelled isOpen read = .error outsideError →
        read = .error outsideError) ∧
      ∀ k frame, (Run.of channels calls).protocol.driver.streaming = true →
        (Run.of channels calls).protocol.driver.frames[k]? = some frame → ∃ before mine after,
          channels = before ++ (mine ++ after) ∧
          before.map (·.toCdbg) = ((Run.of channels calls).protocol.driver.frames.take k).flatten ∧
          mine.map (·.toCdbg) = frame ∧
          (∀ i, ∀ channel ∈ mine[i]?,
            (ecuLog {} (Run.of channels calls).commands).slots (0, UInt8.ofNat k, UInt8.ofNat i) =
              some channel.toCdbg) ∧
          ∀ values padding, Carries frame values →
            (Run.of channels calls).protocol.poll false true
                (.ok (some ⟨0x631, UInt8.ofNat k :: (carried frame values ++ padding)⟩)) =
              .ok ⟨true, samplesFor mine values⟩ := by
  refine ⟨fun channels hsizes => ⟨batchChannelsIntoFrames_iff hsizes, fun frames h => ?_⟩,
    fun channels calls => ⟨?_, ?_⟩⟩
  · refine ⟨⟨flatten_batch h, ?_⟩, ne_nil_of_mem_batch hsizes h⟩
    exact (batchChannelsIntoFrames_spec (fun channel hmem => (hsizes channel hmem).le) h).2.2
  · intro cancelled isOpen read hpoll
    exact (configured_of channels calls).framed.outside hpoll
  · intro k frame hstreaming hframe
    have hconfigured := configured_of channels calls
    have hwire : ∀ channel ∈ channels.map (·.toCdbg), Sized channel := by
      intro channel hmem
      obtain ⟨c, hc, rfl⟩ := List.mem_map.1 hmem
      exact hconfigured.sized hstreaming c hc
    have hcut := hconfigured.cut hstreaming
    have hk : k < 256 := (List.getElem?_eq_some_iff.1 hframe).1.trans_le
      ((eq_cut_of_batch hcut).2.2.trans (by decide))
    have hmem := List.mem_of_getElem? hframe
    have hsizes : ∀ channel ∈ frame, Sized channel := fun channel hc =>
      hwire channel (flatten_batch hcut ▸ List.mem_flatten_of_mem hmem hc)
    obtain ⟨before, mine, after, hchannels, hbefore, hmine⟩ := hconfigured.framed.channels_eq hframe
    refine ⟨before, mine, after, hconfigured.channels_eq ▸ hchannels, hbefore, hmine, ?_, ?_⟩
    · intro i channel hchannel
      have hi : i < 256 := by
        have hlt := (List.getElem?_eq_some_iff.1 hchannel).1
        have hle := length_frame_le hwire hcut frame hmem
        rw [← hmine, List.length_map] at hle
        omega
      have hnat : ∀ n < 256, (UInt8.ofNat n).toNat = n := fun n hn => by
        rw [UInt8.toNat_ofNat']
        omega
      rw [hconfigured.logged hstreaming, hnat k hk, hnat i hi, hframe, Option.bind_some, ← hmine,
        List.getElem?_map, Option.mem_def.1 hchannel, Option.map_some]
    · intro values padding hvalues
      exact poll_of_frame hstreaming hk hframe (ne_nil_of_mem_batch hwire hcut frame hmem) hsizes hchannels
        hbefore hmine hvalues padding

/-- Three channels in two frames. -/
def threeChannels : List LoggingChannel :=
  [{ id := "P1", address := 0x1000, length := 2 }, { id := "P2", address := 0x2000, length := 4 },
    { id := "P3", address := 0x3000, length := 4 }]

/-- A start whose eleven commands are all answered. -/
def answeredStart : Call :=
  .start false true (List.replicate 11 ⟨.ok 8, .ok (some ⟨0x631, [0, 0, 0, 1, 0, 0, 0, 0]⟩)⟩)

/-- The second frame carries the third channel. -/
theorem cdbg_spec_three : ∃ mine : List LoggingChannel, mine.map (·.toCdbg) = [⟨0x3000, 4⟩] ∧
    (Run.of threeChannels [answeredStart]).protocol.poll false true
        (.ok (some ⟨0x631, UInt8.ofNat 1 :: (carried [⟨0x3000, 4⟩] [7] ++ [0, 0, 0])⟩)) =
      .ok ⟨true, samplesFor mine [7]⟩ := by
  have hspec := (cdbg_spec.2 threeChannels [answeredStart]).2 1 [⟨0x3000, 4⟩] (by decide) (by decide)
  obtain ⟨-, mine, -, -, -, hmine, -, hpoll⟩ := hspec
  exact ⟨mine, hmine, hpoll [7] [0, 0, 0] (.cons (by unfold Fits; decide) .nil)⟩

end FastEcu.Logging.Cdbg
