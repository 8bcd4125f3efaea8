import FastEcu.Flash.UnisiaKlineSession

/-!
# The protocol of a Unisia JECS M32R write

The phases of a write: the flash mode is entered, the programming voltage is switched on, the flash is
erased, and the blocks are sent one after another.

* `Phase`, `Step` : the phases, and what leads from one to another.
* `History` : what has happened when a phase is reached.
* `writeRom_follows` : a write keeps to the protocol, whatever the calls answer.
* `unisia_write_gated` : what follows for every session that writes.
-/

namespace FastEcu.Flash.UnisiaKline

open Calibration (ErrorKind)
open Data Computation Ports
open Logging (addHeader sum8)
open Beef (KlineCalls KlineEvent KlineAnswer)

/-! ### Requests -/

/-- The payload of a frame. -/
def payloadOf (frame : Bytes) : Bytes := subspan frame 4 (byteAt frame 3).toNat

/-- A request for the flash mode: the probe, or the request that enters it. -/
def AsksFlashMode (frame : Bytes) : Prop :=
  payloadOf frame = [0xAF] ∨ (payloadOf frame).take 2 = [0xAF, 0x11]

/-- A request that erases the flash. -/
def IsErase (frame : Bytes) : Prop := (payloadOf frame).take 2 = [0xAF, 0x31]

/-- A request with a block. -/
def IsBlock (frame : Bytes) : Prop :=
  (payloadOf frame).take 2 = [0xAF, 0x61] ∨ (payloadOf frame).take 2 = [0xAF, 0x69]

instance (frame : Bytes) : Decidable (AsksFlashMode frame) := inferInstanceAs (Decidable (_ ∨ _))

instance (frame : Bytes) : Decidable (IsErase frame) := inferInstanceAs (Decidable (_ = _))

instance (frame : Bytes) : Decidable (IsBlock frame) := inferInstanceAs (Decidable (_ ∨ _))

/-- The frame that an event writes. -/
def frame? : KlineEvent → Option Bytes
  | .write frame _ => some frame
  | _ => none

/-- The frames with blocks that were written. -/
def blocksIn (events : List KlineEvent) : List Bytes :=
  (events.filterMap frame?).filter fun frame => decide (IsBlock frame)

/-- The frames that erase the flash that were written. -/
def erasesIn (events : List KlineEvent) : List Bytes :=
  (events.filterMap frame?).filter fun frame => decide (IsErase frame)

theorem payloadOf_frameOf (wire : Wire) {payload : Bytes} (h : payload.length < 256) :
    payloadOf (frameOf wire payload) = payload := by
  have hlength : (byteAt (frameOf wire payload) 3).toNat = payload.length := by
    show (UInt8.ofNat payload.length).toNat = payload.length
    rw [UInt8.toNat_ofNat', Nat.mod_eq_of_lt h]
  rw [payloadOf, hlength]
  exact List.take_left' rfl

section Concat

variable {l : List KlineEvent} {event : KlineEvent}

theorem blocksIn_concat (l : List KlineEvent) (event : KlineEvent) : blocksIn (l ++ [event]) =
    blocksIn l ++ ([event].filterMap frame?).filter fun frame => decide (IsBlock frame) := by
  rw [blocksIn, List.filterMap_append, List.filter_append, ← blocksIn]

theorem erasesIn_concat (l : List KlineEvent) (event : KlineEvent) : erasesIn (l ++ [event]) =
    erasesIn l ++ ([event].filterMap frame?).filter fun frame => decide (IsErase frame) := by
  rw [erasesIn, List.filterMap_append, List.filter_append, ← erasesIn]

/-- An event that writes nothing. -/
theorem requestsIn_quiet (h : frame? event = none) :
    erasesIn (l ++ [event]) = erasesIn l ∧ blocksIn (l ++ [event]) = blocksIn l := by
  have hnone : [event].filterMap frame? = [] := by
    rw [List.filterMap_cons, h]
    rfl
  rw [erasesIn_concat, blocksIn_concat, hnone]
  exact ⟨List.append_nil _, List.append_nil _⟩

/-- A frame that neither erases nor carries a block. -/
theorem requestsIn_other {frame : Bytes} {written : Except LinkError ℕ} (herase : ¬ IsErase frame)
    (hblock : ¬ IsBlock frame) : erasesIn (l ++ [.write frame written]) = erasesIn l ∧
      blocksIn (l ++ [.write frame written]) = blocksIn l := by
  rw [erasesIn_concat, blocksIn_concat]
  simp [frame?, herase, hblock]

theorem requestsIn_erase {frame : Bytes} {written : Except LinkError ℕ} (h : IsErase frame) :
    erasesIn (l ++ [.write frame written]) = erasesIn l ++ [frame] ∧
      blocksIn (l ++ [.write frame written]) = blocksIn l := by
  have hblock : ¬ IsBlock frame := by
    rintro (hblock | hblock) <;> exact absurd (h.symm.trans hblock) (by decide)
  rw [erasesIn_concat, blocksIn_concat]
  simp [frame?, h, hblock]

theorem requestsIn_block {frame : Bytes} {written : Except LinkError ℕ} (h : IsBlock frame) :
    erasesIn (l ++ [.write frame written]) = erasesIn l ∧
      blocksIn (l ++ [.write frame written]) = blocksIn l ++ [frame] := by
  have herase : ¬ IsErase frame := by
    intro herase
    rcases h with hblock | hblock <;> exact absurd (herase.symm.trans hblock) (by decide)
  rw [erasesIn_concat, blocksIn_concat]
  simp [frame?, h, herase]

end Concat

/-! ### Phases -/

/-- A phase of a write. -/
inductive Phase
  /-- The flash mode is not entered; whether the last event has asked for it. -/
  | entering (asked : Bool)
  | entered
  | powered
  | erasing
  | started
  | erased
  | sent (k : ℕ)
  | unanswered (k : ℕ)
  | acked (k : ℕ)
deriving DecidableEq

section Protocol

variable (wire : Wire) (image : Bytes) (blocks : ℕ)

/-- The piece of the image that a block carries. -/
def piece (k : ℕ) : Bytes := subspan image (page * k) page

/-- The frame of a block: its offset and its piece of the image, and another command for the last one. -/
def block (k : ℕ) : Bytes :=
  frameOf wire ([0xAF, if k + 1 = blocks then 0x69 else 0x61] ++
    (beBytes24 (UInt32.ofNat (page * k)) ++ (piece image k).map (· ^^^ 0x82)))

/-- A reply that an event brings. -/
def reply? : KlineEvent → Option Bytes
  | .read _ (.ok reply) => reply
  | _ => none

/-- What leads from one phase to another. -/
inductive Step : Phase → KlineEvent → Phase → Prop
  | setBaud (baud : ℤ) (status : Except LinkError Unit) :
      Step (.entering false) (.setBaud baud status) (.entering false)
  | ask (asked : Bool) (frame : Bytes) (written : Except LinkError ℕ) (erase : ¬ IsErase frame)
      (block : ¬ IsBlock frame) : Step (.entering asked) (.write frame written)
      (.entering (decide (AsksFlashMode frame ∧ written = .ok frame.length)))
  | refused (asked : Bool) (timeout : ℤ) (answer : Except LinkError (Option Bytes)) :
      Step (.entering asked) (.read timeout answer) (.entering false)
  | entered (timeout : ℤ) (reply : Bytes) (sid : hasSid wire reply 0xEF = true) :
      Step (.entering true) (.read timeout (.ok (some reply))) .entered
  | writeBaud (baud : ℤ) (status : Except LinkError Unit) :
      Step .entered (.setBaud baud status) .entered
  | powerFailed (e : LinkError) : Step .entered (.enableProgrammingVoltageLine (.error e)) .entered
  | powered : Step .entered (.enableProgrammingVoltageLine (.ok ())) .powered
  | erase (written : Except LinkError ℕ) :
      Step .powered (.write (frameOf wire eraseRequest) written) .erasing
  | waitStart (timeout : ℤ) (answer : Except LinkError (Option Bytes)) :
      Step .erasing (.read timeout answer) .erasing
  | sleepStart (duration : ℤ) (status : Except LinkError Unit) :
      Step .erasing (.sleep duration status) .erasing
  | started (timeout : ℤ) (reply : Bytes) (exact : isExactReply wire reply [0xEF, 0x42] = true) :
      Step .erasing (.read timeout (.ok (some reply))) .started
  | waitDone (timeout : ℤ) (answer : Except LinkError (Option Bytes)) :
      Step .started (.read timeout answer) .started
  | sleepDone (duration : ℤ) (status : Except LinkError Unit) :
      Step .started (.sleep duration status) .started
  | erased (timeout : ℤ) (reply : Bytes) (exact : isExactReply wire reply [0xEF, 0x52] = true) :
      Step .started (.read timeout (.ok (some reply))) .erased
  | trailing (timeout : ℤ) (answer : Except LinkError (Option Bytes)) :
      Step .erased (.read timeout answer) .erased
  | first (written : Except LinkError ℕ) (some : 0 < blocks) :
      Step .erased (.write (block wire image blocks 0) written) (.sent 0)
  | next (k : ℕ) (written : Except LinkError ℕ) (some : k < blocks) :
      Step (.acked k) (.write (block wire image blocks k) written) (.sent k)
  | unanswered (k : ℕ) (timeout : ℤ) (answer : Except LinkError (Option Bytes)) :
      Step (.sent k) (.read timeout answer) (.unanswered k)
  | acked (k : ℕ) (timeout : ℤ) (reply : Bytes) (exact : isExactReply wire reply [0xEF, 0x52] = true) :
      Step (.sent k) (.read timeout (.ok (some reply))) (.acked (k + 1))

/-! ### Histories -/

/-- The ECU answered a request for the flash mode with a valid EF frame. -/
def Answered : List KlineEvent → Prop :=
  Seen fun before event => ∃ frame reply, before.getLast? = some (.write frame (.ok frame.length)) ∧
    AsksFlashMode frame ∧ reply? event = some reply ∧ hasSid wire reply 0xEF = true

/-- After that the programming voltage was switched on. -/
def Powered : List KlineEvent → Prop :=
  Seen fun before event => event = .enableProgrammingVoltageLine (.ok ()) ∧ Answered wire before

/-- After that the erase request was sent. -/
def Erasing : List KlineEvent → Prop :=
  Seen fun before event => (∃ written, event = .write (frameOf wire eraseRequest) written) ∧
    Powered wire before

/-- After that the ECU answered that the erase has started. -/
def Started : List KlineEvent → Prop :=
  Seen fun before event => (∃ reply, reply? event = some reply ∧
    isExactReply wire reply [0xEF, 0x42] = true) ∧ Erasing wire before

/-- After that the ECU answered that the erase is done. -/
def Erased : List KlineEvent → Prop :=
  Seen fun before event => (∃ reply, reply? event = some reply ∧
    isExactReply wire reply [0xEF, 0x52] = true) ∧ Started wire before

/-- The blocks before a number were sent, each once and in order. -/
def SentBlocks (k : ℕ) (events : List KlineEvent) : Prop :=
  blocksIn events = (List.range k).map (block wire image blocks)

/-- A block was answered by exactly EF 52, right after it was sent. -/
def Acknowledged (k : ℕ) : List KlineEvent → Prop :=
  Seen fun before event => (∃ earlier written, before = earlier ++ [.write (block wire image blocks k) written] ∧
    SentBlocks wire image blocks k earlier) ∧ ∃ reply, reply? event = some reply ∧
    isExactReply wire reply [0xEF, 0x52] = true

/-- What has happened when a phase is reached. -/
def History (events : List KlineEvent) : Phase → Prop
  | .entering asked => erasesIn events = [] ∧ blocksIn events = [] ∧ (asked = true →
      ∃ frame, events.getLast? = some (.write frame (.ok frame.length)) ∧ AsksFlashMode frame)
  | .entered => erasesIn events = [] ∧ blocksIn events = [] ∧ Answered wire events
  | .powered => erasesIn events = [] ∧ blocksIn events = [] ∧ Powered wire events
  | .erasing => blocksIn events = [] ∧ Erasing wire events
  | .started => blocksIn events = [] ∧ Started wire events
  | .erased => blocksIn events = [] ∧ Erased wire events
  | .sent k => k < blocks ∧ Erased wire events ∧ (∃ earlier written,
      events = earlier ++ [.write (block wire image blocks k) written] ∧
      SentBlocks wire image blocks k earlier) ∧ ∀ j < k, Acknowledged wire image blocks j events
  | .unanswered k => SentBlocks wire image blocks (k + 1) events ∧ k < blocks ∧
      ∀ j < k, Acknowledged wire image blocks j events
  | .acked k => SentBlocks wire image blocks k events ∧ k ≤ blocks ∧ Erased wire events ∧
      ∀ j < k, Acknowledged wire image blocks j events

/-- What must have happened before a request is written. -/
def Gate (before : List KlineEvent) : KlineEvent → Prop
  | .write frame _ => (IsErase frame → erasesIn before = [] ∧ Powered wire before) ∧
      (IsBlock frame → ∃ k < blocks, frame = block wire image blocks k ∧
        SentBlocks wire image blocks k before ∧ Erased wire before ∧
        ∀ j < k, Acknowledged wire image blocks j before)
  | _ => True

section Step

variable {wire image blocks} {before : List KlineEvent} {event : KlineEvent} {p q : Phase}

theorem isErase_eraseRequest : IsErase (frameOf wire eraseRequest) := by
  rw [IsErase, payloadOf_frameOf wire (by decide)]
  rfl

theorem payloadOf_block (k : ℕ) : payloadOf (block wire image blocks k) =
    [0xAF, if k + 1 = blocks then 0x69 else 0x61] ++
      (beBytes24 (UInt32.ofNat (page * k)) ++ (piece image k).map (· ^^^ 0x82)) := by
  refine payloadOf_frameOf wire ?_
  have hpiece : (piece image k).length ≤ 128 := List.length_take_le _ _
  have haddress : (beBytes24 (UInt32.ofNat (page * k))).length = 3 := rfl
  rw [List.length_append, List.length_append, List.length_map, haddress]
  simp only [List.length_cons, List.length_nil]
  omega

theorem isBlock_block (k : ℕ) : IsBlock (block wire image blocks k) := by
  rw [IsBlock, payloadOf_block]
  by_cases hlast : k + 1 = blocks
  · rw [if_pos hlast]
    exact .inr rfl
  · rw [if_neg hlast]
    exact .inl rfl

/-- One more block. -/
theorem SentBlocks.block {k : ℕ} (h : SentBlocks wire image blocks k before)
    (written : Except LinkError ℕ) :
    SentBlocks wire image blocks (k + 1) (before ++ [.write (block wire image blocks k) written]) := by
  rw [SentBlocks, (requestsIn_block (isBlock_block k)).2, h, List.range_succ, List.map_append]
  rfl

theorem SentBlocks.quiet {k : ℕ} (h : SentBlocks wire image blocks k before) (hevent : frame? event = none) :
    SentBlocks wire image blocks k (before ++ [event]) := (requestsIn_quiet hevent).2.trans h

/-- **What every step keeps.** -/
theorem History.step (h : History wire image blocks before p) (hstep : Step wire image blocks p event q) :
    History wire image blocks (before ++ [event]) q := by
  cases hstep with
  | setBaud baud status =>
    obtain ⟨herases, hblocks⟩ := @requestsIn_quiet before (.setBaud baud status) rfl
    exact ⟨herases.trans h.1, hblocks.trans h.2.1, fun hasked => (nomatch hasked)⟩
  | ask asked frame written herase hblock =>
    obtain ⟨herases, hblocks⟩ := @requestsIn_other before frame written herase hblock
    refine ⟨herases.trans h.1, hblocks.trans h.2.1, fun hasked => ?_⟩
    obtain ⟨hflash, rfl⟩ := of_decide_eq_true hasked
    exact ⟨frame, List.getLast?_concat, hflash⟩
  | refused asked timeout answer =>
    obtain ⟨herases, hblocks⟩ := @requestsIn_quiet before (.read timeout answer) rfl
    exact ⟨herases.trans h.1, hblocks.trans h.2.1, fun hasked => (nomatch hasked)⟩
  | entered timeout reply hsid =>
    obtain ⟨herases, hblocks⟩ := @requestsIn_quiet before (.read timeout (.ok (some reply))) rfl
    obtain ⟨frame, hlast, hflash⟩ := h.2.2 rfl
    exact ⟨herases.trans h.1, hblocks.trans h.2.1, .last ⟨frame, reply, hlast, hflash, rfl, hsid⟩⟩
  | writeBaud baud status =>
    obtain ⟨herases, hblocks⟩ := @requestsIn_quiet before (.setBaud baud status) rfl
    exact ⟨herases.trans h.1, hblocks.trans h.2.1, h.2.2.append _⟩
  | powerFailed e =>
    obtain ⟨herases, hblocks⟩ := @requestsIn_quiet before (.enableProgrammingVoltageLine (.error e)) rfl
    exact ⟨herases.trans h.1, hblocks.trans h.2.1, h.2.2.append _⟩
  | powered =>
    obtain ⟨herases, hblocks⟩ := @requestsIn_quiet before (.enableProgrammingVoltageLine (.ok ())) rfl
    exact ⟨herases.trans h.1, hblocks.trans h.2.1, .last ⟨rfl, h.2.2⟩⟩
  | erase written =>
    have hblocks := (@requestsIn_erase before _ written (@isErase_eraseRequest wire)).2
    exact ⟨hblocks.trans h.2.1, .last ⟨⟨written, rfl⟩, h.2.2⟩⟩
  | waitStart timeout answer =>
    exact ⟨(@requestsIn_quiet before (.read timeout answer) rfl).2.trans h.1, h.2.append _⟩
  | sleepStart duration status =>
    exact ⟨(@requestsIn_quiet before (.sleep duration status) rfl).2.trans h.1, h.2.append _⟩
  | started timeout reply hexact =>
    exact ⟨(@requestsIn_quiet before (.read timeout (.ok (some reply))) rfl).2.trans h.1,
      .last ⟨⟨reply, rfl, hexact⟩, h.2⟩⟩
  | waitDone timeout answer =>
    exact ⟨(@requestsIn_quiet before (.read timeout answer) rfl).2.trans h.1, h.2.append _⟩
  | sleepDone duration status =>
    exact ⟨(@requestsIn_quiet before (.sleep duration status) rfl).2.trans h.1, h.2.append _⟩
  | erased timeout reply hexact =>
    exact ⟨(@requestsIn_quiet before (.read timeout (.ok (some reply))) rfl).2.trans h.1,
      .last ⟨⟨reply, rfl, hexact⟩, h.2⟩⟩
  | trailing timeout answer =>
    exact ⟨(@requestsIn_quiet before (.read timeout answer) rfl).2.trans h.1, h.2.append _⟩
  | first written hsome =>
    exact ⟨hsome, h.2.append _, ⟨before, written, rfl, h.1⟩, fun j hj => absurd hj (Nat.not_lt_zero j)⟩
  | next k written hsome =>
    obtain ⟨hsent, -, herased, hacked⟩ := h
    exact ⟨hsome, herased.append _, ⟨before, written, rfl, hsent⟩, fun j hj => (hacked j hj).append _⟩
  | unanswered k timeout answer =>
    obtain ⟨hlt, -, ⟨earlier, written, rfl, hsent⟩, hacked⟩ := h
    exact ⟨(hsent.block written).quiet rfl, hlt, fun j hj => (hacked j hj).append _⟩
  | acked k timeout reply hexact =>
    obtain ⟨hlt, herased, ⟨earlier, written, rfl, hsent⟩, hacked⟩ := h
    refine ⟨(hsent.block written).quiet rfl, hlt, herased.append _, fun j hj => ?_⟩
    by_cases hjk : j < k
    · exact (hacked j hjk).append _
    · obtain rfl : j = k := by omega
      exact .last ⟨⟨earlier, written, rfl, hsent⟩, reply, rfl, hexact⟩

/-- What a step needs has happened. -/
theorem History.gate (h : History wire image blocks before p) (hstep : Step wire image blocks p event q) :
    Gate wire image blocks before event := by
  have hnotErase : ∀ k, ¬ IsErase (block wire image blocks k) := by
    intro k herase
    rcases @isBlock_block wire image blocks k with hblock | hblock <;>
      exact absurd (herase.symm.trans hblock) (by decide)
  cases hstep with
  | ask asked frame written herase hblock =>
    exact ⟨fun h => absurd h herase, fun h => absurd h hblock⟩
  | erase written =>
    refine ⟨fun _ => ⟨h.1, h.2.2⟩, fun hblock => ?_⟩
    have herase := @isErase_eraseRequest wire
    rcases hblock with hblock | hblock <;> exact absurd (herase.symm.trans hblock) (by decide)
  | first written hsome =>
    refine ⟨fun herase => absurd herase (hnotErase 0), fun _ => ⟨0, hsome, rfl, h.1, h.2, ?_⟩⟩
    exact fun j hj => absurd hj (Nat.not_lt_zero j)
  | next k written hsome =>
    obtain ⟨hsent, -, herased, hacked⟩ := h
    exact ⟨fun herase => absurd herase (hnotErase k), fun _ => ⟨k, hsome, rfl, hsent, herased, hacked⟩⟩
  | _ => trivial

end Step

end Protocol

/-! ### The session keeps to the protocol -/

section Follows

variable {wire : Wire} {image : Bytes} {blocks : ℕ} {P : Phase → Prop}

theorem checkCancelled_follows (detail : String) :
    Follows (Step wire image blocks) P (fun _ => P) (Beef.Kline.checkCancelled detail) :=
  Follows.bind (Q := fun _ => P) (.silent fun _ hp _ => hp) fun _ =>
    .ite (fun _ => .fail _) fun _ => .pure fun _ hp => hp

/-- A frame is written whole, or the write fails. -/
theorem send_follows {Q : Phase → Prop} {payload : Bytes}
    (h : ∀ p, P p → ∀ written, ∃ q, Step wire image blocks p (.write (frameOf wire payload) written) q ∧
      (written = .ok (frameOf wire payload).length → Q q)) :
    Follows (Step wire image blocks) P (fun _ => Q) (send wire payload) := by
  refine Follows.bind (checkCancelled_follows _) fun _ => ?_
  refine Follows.bind (Q := fun written q => written = (frameOf wire payload).length → Q q)
    (.call fun p hp answer => ?_) fun written => ?_
  · obtain ⟨q, hstep, hq⟩ := h p hp answer.written
    refine ⟨q, hstep, fun written hok hwritten => hq ?_⟩
    rw [hok, hwritten]
  · exact .ite (fun _ => .fail _) fun hlength => .pure fun q hq => hq (not_not.1 hlength)

theorem receive_follows {Q : Option Bytes → Phase → Prop} {timeout : ℤ}
    (h : ∀ p, P p → ∀ answer, ∃ q, Step wire image blocks p (.read timeout answer) q ∧
      ∀ response, answer = .ok response → Q response q) :
    Follows (Step wire image blocks) P Q (receive timeout) :=
  Follows.bind (Q := Q) (.call fun p hp answer => h p hp answer.frame) fun _ =>
    Follows.bind (checkCancelled_follows _) fun _ => .pure fun _ hq => hq

/-! ### Entering the flash mode -/

theorem setBaud_follows {p : Phase} (h : ∀ baud status, Step wire image blocks p (.setBaud baud status) p)
    (baud : ℤ) : Follows (Step wire image blocks) (· = p) (fun _ => (· = p)) (Beef.Kline.setBaud baud) :=
  .call fun _ hq answer => ⟨p, hq ▸ h baud answer.status, fun _ _ => rfl⟩

/-- Where a reply leads while the flash mode is entered. -/
def afterReply (wire : Wire) (asked : Bool) (response : Option Bytes) : Phase :=
  if asked = true ∧ obkRunning wire response = true then .entered else .entering false

theorem receive_entering (asked : Bool) (timeout : ℤ) :
    Follows (Step wire image blocks) (· = .entering asked) (fun response => (· = afterReply wire asked response))
      (receive timeout) := by
  refine receive_follows fun p hp answer => ?_
  subst hp
  by_cases hentered : ∃ reply, answer = .ok (some reply) ∧ asked = true ∧ hasSid wire reply 0xEF = true
  · obtain ⟨reply, rfl, rfl, hsid⟩ := hentered
    refine ⟨_, .entered timeout reply hsid, fun response hresponse => ?_⟩
    cases hresponse
    exact (if_pos ⟨rfl, hsid⟩).symm
  · refine ⟨_, .refused asked timeout answer, fun response hresponse => ?_⟩
    refine (if_neg ?_).symm
    rintro ⟨hasked, hrunning⟩
    cases response with
    | none => cases hrunning
    | some reply => exact hentered ⟨reply, hresponse, hasked, hrunning⟩

/-- A request that neither erases nor carries a block. -/
theorem send_entering {asked asks : Bool} {payload : Bytes} (hlength : payload.length < 256)
    (herase : payload.take 2 ≠ [0xAF, 0x31]) (hblock : payload.take 2 ≠ [0xAF, 0x61])
    (hlast : payload.take 2 ≠ [0xAF, 0x69])
    (hasks : asks = decide (payload = [0xAF] ∨ payload.take 2 = [0xAF, 0x11])) :
    Follows (Step wire image blocks) (· = .entering asked) (fun _ => (· = .entering asks))
      (send wire payload) := by
  have hpayload := payloadOf_frameOf wire hlength
  refine send_follows fun p hp written => ?_
  subst hp
  refine ⟨_, .ask asked _ written ?_ ?_, fun hwritten => ?_⟩
  · rw [IsErase, hpayload]
    exact herase
  · rw [IsBlock, hpayload]
    rintro (h | h)
    · exact hblock h
    · exact hlast h
  · have hflash : AsksFlashMode (frameOf wire payload) ↔
        payload = [0xAF] ∨ payload.take 2 = [0xAF, 0x11] := by rw [AsksFlashMode, hpayload]
    rw [hasks]
    exact congrArg Phase.entering (decide_eq_decide.2 ⟨fun h => hflash.1 h.1, fun h => ⟨hflash.2 h, hwritten⟩⟩)

theorem probeObk_follows : Follows (Step wire image blocks) (· = .entering false)
    (fun response => (· = afterReply wire true response)) (probeObk wire) :=
  Follows.bind (setBaud_follows (fun _ _ => .setBaud _ _) _) fun _ =>
    Follows.bind (send_entering (by decide) (by decide) (by decide) (by decide) rfl) fun _ =>
    receive_entering true _

/-- An exchange that does not ask for the flash mode. -/
theorem expectSsmInit_follows : Follows (Step wire image blocks) (· = .entering false)
    (fun init q => q = .entering false ∧ carriesEcuId init = true) (expectSsmInit wire) := by
  have hexchange : Follows (Step wire image blocks) (· = .entering false)
      (fun _ => (· = .entering false)) (exchangeExpect wire [0xBF] 2000 0xFF "SSM init") := by
    refine Follows.bind (send_entering (by decide) (by decide) (by decide) (by decide) rfl) fun _ =>
      Follows.bind (receive_entering false _) fun response => ?_
    cases expectSid wire 0xFF "SSM init" response with
    | error e => exact .fail e
    | ok frame => exact .pure fun q hq => hq
  exact Follows.bind hexchange fun init =>
    .ite (fun hcarries => .pure fun q hq => ⟨hq, hcarries⟩) fun _ => .fail _

/-- The request that enters the flash mode has been answered by a valid EF frame. -/
theorem enterRequest_follows {init : Bytes} (romSize : UInt32) :
    Follows (Step wire image blocks) (· = .entering false) (fun _ => (· = .entered))
      (exchangeExpect wire (enterRequest init romSize) 2000 0xEF "enter flash mode") := by
  have hlength : (enterRequest init romSize).length < 256 := by
    have hid : (ecuId init).length ≤ 5 := List.length_take_le _ _
    have hsize : (beBytes24 romSize).length = 3 := rfl
    rw [enterRequest, List.length_append, List.length_append, hsize]
    simp only [List.length_cons, List.length_nil]
    omega
  have htake : (enterRequest init romSize).take 2 = [0xAF, 0x11] := rfl
  refine Follows.bind (send_entering hlength (by rw [htake]; decide) (by rw [htake]; decide)
    (by rw [htake]; decide) (decide_eq_true (.inr htake)).symm) fun _ =>
    Follows.bind (receive_entering true _) fun response => ?_
  cases response with
  | none => exact .fail _
  | some reply =>
    by_cases hsid : hasSid wire reply 0xEF = true
    · have hok : expectSid wire 0xEF "enter flash mode" (some reply) = .ok reply := if_pos hsid
      rw [hok]
      exact .pure fun q hq => hq.trans (if_pos ⟨rfl, hsid⟩)
    · rw [expectSid, if_neg hsid]
      exact .fail _

theorem enterFlashMode_follows (romSize : UInt32) :
    Follows (Step wire image blocks) (· = .entering false) (fun _ => (· = .entered))
      (enterFlashMode wire romSize) := by
  refine Follows.bind probeObk_follows fun probe => .ite (fun hrunning => ?_) fun hrunning => ?_
  · exact .pure fun q hq => hq.trans (if_pos ⟨rfl, hrunning⟩)
  · have hrefused : afterReply wire true probe = .entering false :=
      if_neg fun h => hrunning h.2
    rw [hrefused]
    refine Follows.bind (setBaud_follows (fun _ _ => .setBaud _ _) _) fun _ =>
      Follows.bind expectSsmInit_follows fun init => ?_
    refine Follows.bind ((enterRequest_follows romSize).mono (fun q hq => hq.1) fun _ _ hq => hq)
      fun _ => ?_
    exact setBaud_follows (fun _ _ => .writeBaud _ _) _

/-! ### Erasing -/

/-- A poll that succeeds has read the reply. -/
theorem pollFor_follows {p q : Phase} {expected : Bytes}
    (hexact : ∀ timeout reply, isExactReply wire reply expected = true →
      Step wire image blocks p (.read timeout (.ok (some reply))) q)
    (hwait : ∀ timeout answer, Step wire image blocks p (.read timeout answer) p)
    (hsleep : ∀ duration status, Step wire image blocks p (.sleep duration status) p)
    (rounds : ℕ) (what : String) (left : ℕ) :
    Follows (Step wire image blocks) (· = p) (fun _ => (· = q)) (pollFor wire expected rounds what left) := by
  have hreceive : Follows (Step wire image blocks) (· = p) (fun response r =>
      r = if (∃ reply, response = some reply ∧ isExactReply wire reply expected = true) then q else p)
      (receive 500) := by
    refine receive_follows fun r hr answer => ?_
    subst hr
    by_cases hfound : ∃ reply, answer = .ok (some reply) ∧ isExactReply wire reply expected = true
    · obtain ⟨reply, rfl, hreply⟩ := hfound
      refine ⟨q, hexact 500 reply hreply, fun response hresponse => ?_⟩
      cases hresponse
      exact (if_pos ⟨reply, rfl, hreply⟩).symm
    · refine ⟨r, hwait 500 answer, fun response hresponse => (if_neg ?_).symm⟩
      rintro ⟨reply, rfl, hreply⟩
      exact hfound ⟨reply, hresponse, hreply⟩
  induction left with
  | zero => exact .fail _
  | succ left ih =>
    refine Follows.bind hreceive fun response => ?_
    cases response with
    | none =>
      refine Follows.bind (Q := fun _ => (· = p)) (.call fun r hr answer => ?_) fun _ => ih
      have hp : r = p := hr.trans (if_neg fun h => by
        obtain ⟨reply, hnone, -⟩ := h
        cases hnone)
      subst hp
      exact ⟨r, hsleep 500 answer.status, fun _ _ => rfl⟩
    | some reply =>
      refine .ite (fun hreply => .pure fun r hr => ?_) fun _ => .fail _
      exact hr.trans (if_pos ⟨reply, rfl, hreply⟩)

theorem eraseFlash_follows :
    Follows (Step wire image blocks) (· = .powered) (fun _ => (· = .erased)) (eraseFlash wire) := by
  refine Follows.bind (Q := fun _ => (· = .erasing)) (send_follows fun p hp written => ?_) fun _ => ?_
  · subst hp
    exact ⟨_, .erase written, fun _ => rfl⟩
  · refine Follows.bind (pollFor_follows .started .waitStart .sleepStart 20 _ 20) fun _ =>
      Follows.bind (pollFor_follows .erased .waitDone .sleepDone 40 _ 40) fun _ => ?_
    refine Follows.bind (Q := fun _ => (· = .erased)) (receive_follows fun p hp answer => ?_) fun _ =>
      .pure fun _ hq => hq
    subst hp
    exact ⟨_, .trailing _ answer, fun _ _ => rfl⟩

/-! ### Blocks -/

/-- The phase before a block: the flash is erased, or the block before is acknowledged; after the last
block it may be unanswered. -/
def BeforeBlock (blocks k : ℕ) (p : Phase) : Prop :=
  (k = 0 ∧ p = .erased) ∨ p = .acked k ∨ (k = blocks ∧ 0 < k ∧ p = .unanswered (k - 1))

/-- The block that is sent. -/
theorem frameOf_blockRequest {k : ℕ} (hk : k < blocks) (hfits : page * blocks < 2 ^ 32) :
    frameOf wire (blockRequest image k blocks) = block wire image blocks k := by
  have hlt : page * k < 2 ^ 32 := (Nat.mul_le_mul_left page hk.le).trans_lt hfits
  have haddress : UInt32.ofNat k * 0x80 = UInt32.ofNat (page * k) := by
    apply UInt32.toNat_inj.1
    rw [UInt32.toNat_mul, UInt32.toNat_ofNat', UInt32.toNat_ofNat', page]
    simp only [UInt32.reduceToNat]
    omega
  have hoffset : (UInt32.ofNat (page * k)).toNat = page * k := by
    rw [UInt32.toNat_ofNat', Nat.mod_eq_of_lt hlt]
  have hlast : (k = blocks - 1) = (k + 1 = blocks) := propext (by omega)
  simp only [blockRequest, haddress, hoffset, hlast, block, piece]

theorem writeBlock_follows {k : ℕ} (hk : k < blocks) (hfits : page * blocks < 2 ^ 32) :
    Follows (Step wire image blocks) (BeforeBlock blocks k) (fun _ => BeforeBlock blocks (k + 1))
      (writeBlock wire image blocks k) := by
  refine Follows.bind (Q := fun _ => (· = .sent k)) (send_follows fun p hp written => ?_) fun _ => ?_
  · rw [frameOf_blockRequest hk hfits]
    rcases hp with ⟨rfl, rfl⟩ | rfl | ⟨rfl, -, -⟩
    · exact ⟨_, .first written hk, fun _ => rfl⟩
    · exact ⟨_, .next k written hk, fun _ => rfl⟩
    · exact absurd hk (lt_irrefl _)
  · refine Follows.bind (Q := fun response q => q = if (∃ reply, response = some reply ∧
        isExactReply wire reply [0xEF, 0x52] = true) then .acked (k + 1) else .unanswered k)
      (receive_follows fun p hp answer => ?_) fun response => ?_
    · subst hp
      by_cases hacked : ∃ reply, answer = .ok (some reply) ∧ isExactReply wire reply [0xEF, 0x52] = true
      · obtain ⟨reply, rfl, hreply⟩ := hacked
        refine ⟨_, .acked k _ reply hreply, fun response hresponse => ?_⟩
        cases hresponse
        exact (if_pos ⟨reply, rfl, hreply⟩).symm
      · refine ⟨_, .unanswered k _ answer, fun response hresponse => (if_neg ?_).symm⟩
        rintro ⟨reply, rfl, hreply⟩
        exact hacked ⟨reply, hresponse, hreply⟩
    · cases response with
      | none =>
        -- only the last block may go unanswered
        by_cases hlast : k = blocks - 1
        · have hok : blockAnswer wire k blocks none = .ok () := if_pos hlast
          rw [hok]
          refine .pure fun q hq => .inr (.inr ⟨by omega, Nat.succ_pos k, ?_⟩)
          exact hq.trans (if_neg fun h => by
            obtain ⟨reply, hnone, -⟩ := h
            cases hnone)
        · rw [blockAnswer, if_neg hlast]
          exact .fail _
      | some reply =>
        by_cases hreply : isExactReply wire reply [0xEF, 0x52] = true
        · have hok : blockAnswer wire k blocks (some reply) = .ok () := if_pos hreply
          rw [hok]
          exact .pure fun q hq => .inr (.inl (hq.trans (if_pos ⟨reply, rfl, hreply⟩)))
        · rw [blockAnswer, if_neg hreply]
          exact .fail _

/-- **A write keeps to the protocol, whatever the calls answer.** -/
theorem writeRom_follows (romSize : UInt32) (hblocks : blocks = romSize.toNat / page) :
    Follows (Step wire image blocks) (· = .entering false) (fun _ => BeforeBlock blocks blocks)
      (writeRom wire image romSize) := by
  have hfits : page * blocks < 2 ^ 32 := by
    have hsize := romSize.toNat_lt
    rw [hblocks]
    exact (Nat.mul_div_le _ _).trans_lt hsize
  refine Follows.bind (enterFlashMode_follows romSize) fun _ =>
    Follows.bind (checkCancelled_follows _) fun _ => ?_
  refine Follows.bind (Q := fun _ => (· = .powered)) (.call fun p hp answer => ?_) fun _ => ?_
  · subst hp
    cases hstatus : answer.status with
    | error e => exact ⟨_, .powerFailed e, fun _ h => (nomatch h)⟩
    | ok _ => exact ⟨_, .powered, fun _ _ => rfl⟩
  · refine Follows.bind eraseFlash_follows fun _ => ?_
    have hloop := Follows.each_range blocks fun k hk =>
      @writeBlock_follows wire image blocks k hk hfits
    rw [← hblocks]
    exact hloop.mono (fun p hp => .inl ⟨rfl, hp⟩) fun _ _ hq => hq

end Follows

/-! ### Every session that writes -/

section Run

variable {wire : Wire} {image : Bytes} {blocks : ℕ} {events : List KlineEvent} {p q : Phase}

theorem History.sentBlocks (h : History wire image blocks events p) :
    ∃ k ≤ blocks, SentBlocks wire image blocks k events := by
  cases p with
  | entering asked => exact ⟨0, Nat.zero_le _, h.2.1⟩
  | entered => exact ⟨0, Nat.zero_le _, h.2.1⟩
  | powered => exact ⟨0, Nat.zero_le _, h.2.1⟩
  | erasing => exact ⟨0, Nat.zero_le _, h.1⟩
  | started => exact ⟨0, Nat.zero_le _, h.1⟩
  | erased => exact ⟨0, Nat.zero_le _, h.1⟩
  | sent k =>
    obtain ⟨hlt, -, ⟨earlier, written, rfl, hsent⟩, -⟩ := h
    exact ⟨k + 1, hlt, hsent.block written⟩
  | unanswered k => exact ⟨k + 1, h.2.1, h.1⟩
  | acked k => exact ⟨k, h.2.1, h.1⟩

/-- After the last block all blocks were sent, and all but the last were acknowledged. -/
theorem History.finished (h : History wire image blocks events p) (hp : BeforeBlock blocks blocks p) :
    SentBlocks wire image blocks blocks events ∧
      ∀ k, k + 1 < blocks → Acknowledged wire image blocks k events := by
  rcases hp with ⟨rfl, rfl⟩ | rfl | ⟨-, hpos, rfl⟩
  · exact ⟨h.1, fun k hk => absurd hk (Nat.not_lt_zero _)⟩
  · obtain ⟨hsent, -, -, hacked⟩ := h
    exact ⟨hsent, fun k hk => hacked k (by omega)⟩
  · obtain ⟨hsent, -, hacked⟩ := h
    rw [Nat.sub_add_cancel hpos] at hsent
    exact ⟨hsent, fun k hk => hacked k (by omega)⟩

/-- An erase has no erase before it. -/
theorem length_erasesIn_le (h : Each (Gate wire image blocks) events) : (erasesIn events).length ≤ 1 := by
  induction events using List.reverseRecOn with
  | nil => exact Nat.zero_le _
  | append_singleton events event ih =>
    obtain ⟨hbefore, hgate⟩ := each_concat.1 h
    cases hframe : frame? event with
    | none =>
      rw [(requestsIn_quiet hframe).1]
      exact ih hbefore
    | some frame =>
      by_cases herase : IsErase frame
      · cases event with
        | write data written =>
          cases hframe
          rw [(requestsIn_erase herase).1, (hgate.1 herase).1]
          exact le_rfl
        | _ => cases hframe
      · have hnone : erasesIn (events ++ [event]) = erasesIn events := by
          rw [erasesIn_concat]
          simp [hframe, herase]
        rw [hnone]
        exact ih hbefore

theorem not_dropped {l : List KlineEvent} (h : Path (Step wire image blocks) p l q)
    (status : Except LinkError Unit) : KlineEvent.disableLecLines status ∉ l := by
  have heach : Each (fun _ event => event ≠ KlineEvent.disableLecLines status) l := by
    refine h.each (I := fun _ _ => True) trivial (fun _ _ _ _ _ _ => trivial) ?_
    intro before event r r' _ hstep
    cases hstep <;> intro hevent <;> cases hevent
  intro hmem
  obtain ⟨before, after, hl⟩ := List.append_of_mem hmem
  exact heach before _ after hl rfl

/-- The events of a write, with the drop of the lines. -/
theorem runWrite_outcome (plan : Plan) (script : List KlineAnswer) :
    ∃ status, (runWrite plan script).events =
        (writeRom plan.wire plan.image plan.transferRegion.length script).events ++
          [.disableLecLines status] ∧
      (runWrite plan script).result =
        match (writeRom plan.wire plan.image plan.transferRegion.length script).result with
        | .error e => .error e
        | .ok _ => status := by
  rw [runWrite, attempt_bind]
  generalize writeRom plan.wire plan.image plan.transferRegion.length script = outcome
  have hdropped : Beef.Kline.disableLecLines outcome.state =
      ⟨(outcome.state.headD default).status,
        [.disableLecLines (outcome.state.headD default).status], outcome.state.tail⟩ := rfl
  rw [attempt_bind, hdropped]
  generalize (outcome.state.headD default).status = status
  refine ⟨status, ?_⟩
  cases outcome.result with
  | error e => exact ⟨rfl, rfl⟩
  | ok _ =>
    rw [ofExcept_ok_bind]
    cases status with
    | error e => exact ⟨rfl, rfl⟩
    | ok _ => exact ⟨rfl, rfl⟩

end Run

/-- The number of blocks of a plan. -/
def Plan.blocks (plan : Plan) : ℕ := plan.transferRegion.length.toNat / page

/-- What holds of a session that writes: its events, the result of the write and the one of the session. -/
structure GatedWrite (plan : Plan) (events : List KlineEvent) (written : Except LinkError Unit)
    (result : Except LinkError (Option (Bytes × String))) : Prop where
  /-- What must have happened before each erase request and each block. -/
  gated : Each (Gate plan.wire plan.image plan.blocks) events
  /-- The erase request is sent at most once. -/
  erase : (erasesIn events).length ≤ 1
  /-- The blocks that are sent are the first ones, each once and in order. -/
  sent : ∃ k ≤ plan.blocks, SentBlocks plan.wire plan.image plan.blocks k events
  /-- The pieces of the blocks are whole, and together they are the image. -/
  pieces : (∀ k < plan.blocks, (piece plan.image k).length = page) ∧
    (List.range plan.blocks).flatMap (piece plan.image) = plan.image
  /-- The lines are dropped once, by the last call. -/
  dropped : ∃ before status, events = before ++ [.disableLecLines status] ∧
    ∀ status', KlineEvent.disableLecLines status' ∉ before
  /-- Success: all blocks were sent, and all but at most the last were acknowledged. -/
  success : ∀ value, result = .ok value → SentBlocks plan.wire plan.image plan.blocks plan.blocks events ∧
    ∀ k, k + 1 < plan.blocks → Acknowledged plan.wire plan.image plan.blocks k events
  /-- An error of the write is the one that is reported. -/
  reported : ∀ e, written = .error e → result = .error e

/-- **A session that writes keeps to the gates, whatever the transport, the clock and the cancellation
token answer.** -/
theorem unisia_write_gated (plan : Plan) (script : List KlineAnswer) (hwrite : plan.operation ≠ .read)
    (hlength : plan.image.length = plan.transferRegion.length.toNat) (hpages : plan.image.length % page = 0) :
    GatedWrite plan (run plan script).events
      (writeRom plan.wire plan.image plan.transferRegion.length script).result (run plan script).result := by
  have hrun : (run plan script).events = (runWrite plan script).events ∧ (run plan script).result =
      (runWrite plan script).result.map fun _ => none := by
    have hwriting : run plan = (runWrite plan >>= fun _ => pure none) := by
      unfold run
      cases hoperation : plan.operation with
      | read => exact absurd hoperation hwrite
      | _ => rfl
    rw [hwriting]
    cases hresult : (runWrite plan script).result with
    | error e =>
      rw [bind_of_error hresult]
      exact ⟨rfl, rfl⟩
    | ok _ =>
      rw [bind_of_ok hresult]
      exact ⟨List.append_nil _, rfl⟩
  obtain ⟨status, hevents, hresult⟩ := runWrite_outcome plan script
  obtain ⟨q, hpath, hq⟩ := (@writeRom_follows plan.wire plan.image plan.blocks
    plan.transferRegion.length rfl).run script
  rw [hrun.1, hrun.2, hevents, hresult]
  generalize writeRom plan.wire plan.image plan.transferRegion.length script = outcome at hpath hq
  have hinit : History plan.wire plan.image plan.blocks [] (.entering false) :=
    ⟨rfl, rfl, fun h => (nomatch h)⟩
  have hhistory : History plan.wire plan.image plan.blocks outcome.events q :=
    hpath.invariant hinit fun _ _ _ _ => History.step
  have hgated : Each (Gate plan.wire plan.image plan.blocks) outcome.events :=
    hpath.each hinit (fun _ _ _ _ => History.step) fun _ _ _ _ => History.gate
  have hquiet := @requestsIn_quiet outcome.events (.disableLecLines status) rfl
  have hblocks : page * plan.blocks = plan.image.length := by
    rw [Plan.blocks, ← hlength]
    exact Nat.mul_div_cancel' (Nat.dvd_of_mod_eq_zero hpages)
  constructor
  case gated => exact hgated.concat trivial
  case erase =>
    rw [hquiet.1]
    exact length_erasesIn_le hgated
  case sent =>
    obtain ⟨k, hk, hsent⟩ := hhistory.sentBlocks
    exact ⟨k, hk, hsent.quiet rfl⟩
  case pieces =>
    refine ⟨fun k hk => length_subspan ?_, ?_⟩
    · rw [← hblocks, ← Nat.mul_succ]
      exact Nat.mul_le_mul_left page hk
    · have hparts := flatMap_subspan plan.image page plan.blocks
      rwa [hblocks, List.take_length] at hparts
  case dropped => exact ⟨outcome.events, status, rfl, not_dropped hpath⟩
  case success =>
    intro value hvalue
    cases hok : outcome.result with
    | error e =>
      rw [hok] at hvalue
      cases hvalue
    | ok value =>
      obtain ⟨hsent, hacked⟩ := hhistory.finished (hq value hok)
      exact ⟨hsent.quiet rfl, fun k hk => (hacked k hk).append _⟩
  case reported =>
    intro e he
    rw [he]
    rfl

/-- A plan of two blocks. -/
def twoBlocks : Plan := ⟨⟨0xF0, 0x10⟩, .write, List.replicate 256 0xFF, ⟨0, 256⟩⟩

/-- The answers to a write whose ECU is in flash mode and leaves the last block unanswered. -/
def twoBlocksScript : List KlineAnswer :=
  let reply (payload : Bytes) : KlineAnswer := { frame := .ok (some (addHeader payload 0x10 0xF0)) }
  let wrote (size : ℕ) : KlineAnswer := { written := .ok size }
  [{}, {}, wrote 6, reply [0xEF], {}, {}, {}] ++
    [{}, wrote 7, reply [0xEF, 0x42], {}, reply [0xEF, 0x52], {}, {}, {}] ++
    [{}, wrote 138, reply [0xEF, 0x52], {}, {}, wrote 138, {}, {}, {}]

/-- The gates hold of such a session, which succeeds. -/
theorem unisia_write_gated_twoBlocks : (run twoBlocks twoBlocksScript).result = .ok none ∧
    GatedWrite twoBlocks (run twoBlocks twoBlocksScript).events
      (writeRom twoBlocks.wire twoBlocks.image twoBlocks.transferRegion.length twoBlocksScript).result
      (run twoBlocks twoBlocksScript).result := by
  have hlength : twoBlocks.image.length = 256 := List.length_replicate
  refine ⟨by decide +kernel, unisia_write_gated twoBlocks twoBlocksScript (by decide) hlength ?_⟩
  rw [hlength]
  rfl

end FastEcu.Flash.UnisiaKline
