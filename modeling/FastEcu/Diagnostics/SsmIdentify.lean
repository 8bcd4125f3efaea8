import FastEcu.Data.Script
import FastEcu.Diagnostics.ObdFrames
import FastEcu.Logging.SsmProtocol
import FastEcu.Ports.LinkError

/-!
# Identifying an ECU over the K line

`IdentifyKlineSsm2` (`src/backend/diagnostics/ssm_identify.cpp`): the init request is sent, and the reply
is put together from reads that may bring any part of it, or nothing.

* `readUpTo`, `readSsm2InitFrame` : the reads.
* `identifyKlineSsm2` : one attempt, against the list of what the link and the clock answer.
* `IsInit` : what the reply of a target is.
* `identifyKlineSsm2_sound` : an identity is that of a reply the link has delivered, after one request.
* `identifyKlineSsm2_delivered` : a reply that arrives within eleven reads gives its identity, however the
  reads cut it and whatever comes behind it.
-/

namespace FastEcu.Diagnostics.Identify

open Calibration (ErrorKind)
open Data Computation Ports
open Logging (sum8)

/-! ### The exchange -/

/-- `SsmTarget`. -/
inductive SsmTarget
  | ecu
  | tcu
deriving DecidableEq, Repr

/-- `TargetId`. -/
def targetId : SsmTarget → Byte
  | .ecu => 0x10
  | .tcu => 0x18

/-- `SsmIdentity`. -/
structure SsmIdentity where
  ecuId : String
  initResponse : Bytes
deriving DecidableEq, Repr

/-- `Parity`. -/
inductive Parity
  | none
  | even
deriving DecidableEq, Repr

/-- `KlineLinkConfig`. -/
structure KlineLinkConfig where
  header : KlineHeader := .none
  iso14230Connection : Bool := false
  baud : ℕ := 10400
  startByte : Byte := 0
  testerId : Byte := 0
  targetId : Byte := 0
  parity : Parity := .none
deriving DecidableEq, Repr

/-- The link of `IdentifyKlineSsm2`. -/
def ssm2Link : KlineLinkConfig := { header := .none, baud := 4800, parity := .none }

/-- The calls of `IDiagnosticLink` and `IClock::Sleep`; times are in milliseconds. -/
inductive Call
  | openKline (config : KlineLinkConfig)
  | write (data : Bytes)
  | read (timeout : ℕ)
  | sleep (duration : ℕ)
deriving DecidableEq, Repr

/-- The answer to a call: an error, or the bytes where a read has brought some. -/
abbrev Answer := Except LinkError (Option Bytes)

/-- A call that was made, and its answer. -/
structure Event where
  call : Call
  result : Answer

/-- A part of an attempt; the state is the list of the answers to come. -/
abbrev Run (α : Type) := Computation LinkError Event (List Answer) α

/-- One call. -/
def made (call : Call) : Run (Option Bytes) := fun answers =>
  ⟨answers.headD (.ok none), [⟨call, answers.headD (.ok none)⟩], answers.tail⟩

/-- Two digits of a byte, as `std::format` writes them for `02X`. -/
def upperByte (b : Byte) : String := (hexDigits 2 b.toNat).toUpper

/-- `UpperHex`. -/
def upperHex (data : Bytes) : String := data.foldl (fun (out : String) (b : Byte) => out ++ upperByte b) ""

/-- `SpacedHex`. -/
def spacedHex (data : Bytes) : String :=
  data.foldl (fun (out : String) (b : Byte) => out ++ (if out = "" then "" else " ") ++ upperByte b) ""

/-- `BadFrame`. -/
def badFrame {α : Type} (what : String) (frame : Bytes) : Except LinkError α :=
  .error (.of .badResponse ("SSM init response " ++ what ++ ": " ++ spacedHex frame))

/-- `SsmFrame`. -/
def ssmFrame (payload : Bytes) (target : SsmTarget) : Bytes :=
  let frame := [0x80, targetId target, 0xF0, UInt8.ofNat payload.length] ++ payload
  frame ++ [sum8 frame]

/-- `ReadInto`: what a read brings is put behind the frame. -/
def readInto (frame : Bytes) (timeout : ℕ) : Run Bytes := do
  let data ← made (.read timeout)
  pure (frame ++ data.getD [])

/-- `ReadUpTo`, with the attempts that are left. -/
def readUpTo (size : ℕ) : ℕ → Bytes → Run Bytes
  | 0, frame => pure frame
  | attempts + 1, frame =>
    if frame.length < size then do
      let frame ← readInto frame 50
      readUpTo size attempts frame
    else pure frame

/-- The length of a frame with this header. -/
def declared (frame : Bytes) : ℕ := (byteAt frame 3).toNat + 5

/-- `ReadSsm2InitFrame`, once the header is there. -/
def readDeclared (frame : Bytes) : Run Bytes := do
  let read ← readUpTo (declared frame) 10 frame
  if read.length < declared frame then ofExcept (badFrame "truncated" read)
  else pure (read.take (declared frame))

/-- `ReadSsm2InitFrame`. -/
def readSsm2InitFrame : Run Bytes := do
  let frame ← readInto [] 200
  let frame ← readUpTo 4 10 frame
  if frame = [] then ofExcept (.error (.of .timeout "no SSM init response"))
  else if frame.length < 4 then ofExcept (badFrame "header incomplete" frame)
  else readDeclared frame

/-- `ValidateSsm2Init`. -/
def validateSsm2Init (frame : Bytes) (target : SsmTarget) : Except LinkError Unit :=
  if byteAt frame 3 = 0 then badFrame "has no response code" frame
  else if byteAt frame 0 ≠ 0x80 then
    badFrame ("header byte is " ++ upperByte (byteAt frame 0) ++ ", expected 80") frame
  else if byteAt frame 1 ≠ 0xF0 then
    badFrame ("tester id is " ++ upperByte (byteAt frame 1) ++ ", expected F0") frame
  else if byteAt frame 2 ≠ targetId target then
    badFrame ("target id is " ++ upperByte (byteAt frame 2) ++ ", expected " ++
      upperByte (targetId target)) frame
  else if byteAt frame 4 ≠ 0xFF then
    badFrame ("response code is " ++ upperByte (byteAt frame 4) ++ ", expected FF") frame
  else if byteAt frame (frame.length - 1) ≠ sum8 (frame.take (frame.length - 1)) then
    badFrame ("checksum is " ++ upperByte (byteAt frame (frame.length - 1)) ++ ", expected " ++
      upperByte (sum8 (frame.take (frame.length - 1)))) frame
  else .ok ()

/-- `ParseSsmEcuId`. -/
def parseSsmEcuId (initResponse : Bytes) : Option String :=
  if initResponse.length < 8 + 5 then none else some (upperHex (subspan initResponse 8 5))

/-- The identity in a frame that was read. -/
def identityOf (frame : Bytes) (target : SsmTarget) : Except LinkError SsmIdentity :=
  match validateSsm2Init frame target with
  | .error e => .error e
  | .ok () =>
    match parseSsmEcuId frame with
    | none => badFrame "is too short for an ECU ID" frame
    | some ecuId => .ok ⟨ecuId, frame⟩

/-- `IdentifyKlineSsm2`. -/
def identifyKlineSsm2 (target : SsmTarget) : Run SsmIdentity := do
  let _ ← made (.openKline ssm2Link)
  let _ ← made (.write (ssmFrame [0xBF] target))
  let _ ← made (.sleep 200)
  let frame ← readSsm2InitFrame
  ofExcept (identityOf frame target)

/-! ### The reply -/

/-- The reply of a target to the init request, with room for an ECU id. -/
structure IsInit (target : SsmTarget) (frame : Bytes) : Prop where
  length_eq : frame.length = declared frame
  long : 8 + 5 ≤ frame.length
  header : byteAt frame 0 = 0x80
  tester : byteAt frame 1 = 0xF0
  targetId_eq : byteAt frame 2 = targetId target
  response : byteAt frame 4 = 0xFF
  checksum : byteAt frame (frame.length - 1) = sum8 (frame.take (frame.length - 1))

/-- The identity that a reply carries. -/
def carried (frame : Bytes) : SsmIdentity := ⟨upperHex (subspan frame 8 5), frame⟩

/-- An identity is that of a reply of the target, and every reply has one. -/
theorem identityOf_eq_ok_iff {frame : Bytes} (hlength : frame.length = declared frame) {target : SsmTarget}
    {identity : SsmIdentity} :
    identityOf frame target = .ok identity ↔ IsInit target frame ∧ identity = carried frame := by
  constructor
  · intro h
    unfold identityOf at h
    cases hvalid : validateSsm2Init frame target with
    | error e =>
      rw [hvalid] at h
      cases h
    | ok u =>
      rw [hvalid] at h
      unfold validateSsm2Init badFrame at hvalid
      split_ifs at hvalid with hcode hheader htester htarget hresponse hchecksum
      unfold parseSsmEcuId at h
      by_cases hlong : frame.length < 8 + 5
      · rw [if_pos hlong] at h
        cases h
      · rw [if_neg hlong] at h
        cases h
        exact ⟨⟨hlength, Nat.not_lt.1 hlong, not_not.1 hheader, not_not.1 htester, not_not.1 htarget,
          not_not.1 hresponse, not_not.1 hchecksum⟩, rfl⟩
  · rintro ⟨h, rfl⟩
    have hcode : byteAt frame 3 ≠ 0 := by
      intro hzero
      have hlong := h.long
      rw [hlength, declared, hzero] at hlong
      exact absurd hlong (by decide)
    have hvalid : validateSsm2Init frame target = .ok () := by
      rw [validateSsm2Init, if_neg hcode, if_neg (not_not.2 h.header), if_neg (not_not.2 h.tester),
        if_neg (not_not.2 h.targetId_eq), if_neg (not_not.2 h.response), if_neg (not_not.2 h.checksum)]
    have hparse : parseSsmEcuId frame = some (upperHex (subspan frame 8 5)) :=
      if_neg (Nat.not_lt.2 h.long)
    rw [identityOf, hvalid]
    dsimp only
    rw [hparse]
    rfl

/-! ### What the reads deliver -/

/-- What a call has brought. -/
def Event.brought (event : Event) : Bytes :=
  match event.call, event.result with
  | .read _, .ok (some data) => data
  | _, _ => []

/-- The bytes that the reads have delivered. -/
def delivered (events : List Event) : Bytes := events.flatMap Event.brought

/-- What the reads brought stands behind the frame. -/
def Extends (frame : Bytes) (result : Except LinkError Bytes) (events : List Event) : Prop :=
  ∀ frame', result = .ok frame' → frame' = frame ++ delivered events

theorem readInto_extends (frame : Bytes) (timeout : ℕ) :
    Meets (Extends frame) (readInto frame timeout) := by
  intro answers
  unfold readInto
  cases hanswer : answers.headD (.ok none) with
  | error e =>
    have hmade : (made (.read timeout) answers).result = .error e := hanswer
    rw [bind_of_error hmade]
    intro frame' h
    cases h
  | ok data =>
    have hmade : (made (.read timeout) answers).result = .ok data := hanswer
    rw [bind_of_ok hmade]
    intro frame' h
    cases h
    refine congrArg (frame ++ ·) ?_
    change _ = delivered ([⟨.read timeout, answers.headD (.ok none)⟩] ++ [])
    rw [hanswer]
    cases data <;> simp [delivered, Event.brought]

theorem Extends.then {frame frame' : Bytes} {events : List Event} {m : Run Bytes}
    (h : frame' = frame ++ delivered events) (hm : Meets (Extends frame') m) :
    Meets (fun result rest => Extends frame result (events ++ rest)) m := by
  refine hm.mono fun result rest hrest frame'' hresult => ?_
  rw [hrest frame'' hresult, h, delivered, delivered, delivered, List.flatMap_append, List.append_assoc]

theorem readUpTo_extends (size attempts : ℕ) (frame : Bytes) :
    Meets (Extends frame) (readUpTo size attempts frame) := by
  induction attempts generalizing frame with
  | zero => exact .pure fun frame' h => by cases h; exact (List.append_nil _).symm
  | succ attempts ih =>
    refine .ite (fun _ => ?_) fun _ => .pure fun frame' h => by cases h; exact (List.append_nil _).symm
    refine .bind_of (readInto_extends frame 50) fun result events hread => ?_
    cases result with
    | error e => exact .error fun frame' h => by cases h
    | ok frame' => exact .ok (Extends.then (hread frame' rfl) (ih frame'))

/-! ### An identity is that of a reply -/

theorem declared_of_start {l l' : Bytes} (h : l <+: l') (hlength : 4 ≤ l.length) :
    declared l = declared l' := by
  obtain ⟨rest, rfl⟩ := h
  have hbyte : (l ++ rest)[3]? = l[3]? := List.getElem?_append_left (by omega)
  rw [declared, declared, byteAt_congr hbyte]

/-- A frame of its declared length from the start of the bytes. -/
def FramedIn (bytes frame : Bytes) : Prop := frame.length = declared frame ∧ frame <+: bytes

theorem readDeclared_framed (frame : Bytes) (hlength : 4 ≤ frame.length) :
    Meets (fun result events => ∀ f, result = .ok f → FramedIn (frame ++ delivered events) f)
      (readDeclared frame) := by
  refine .bind_of (readUpTo_extends (declared frame) 10 frame) fun result events hread => ?_
  cases result with
  | error e => exact .error fun f h => by cases h
  | ok read =>
    have hread := hread read rfl
    refine .ok (.ite (fun _ => .ofExcept fun f h => by cases h) fun hshort => .pure fun f h => ?_)
    cases h
    rw [List.append_nil, ← hread]
    have htake : (read.take (declared frame)).length = declared frame :=
      List.length_take_of_le (Nat.not_lt.1 hshort)
    have hstart : frame <+: read := hread ▸ List.prefix_append ..
    refine ⟨?_, List.take_prefix ..⟩
    have hlong : 4 ≤ (read.take (declared frame)).length := by
      rw [htake, declared]
      omega
    rw [htake, declared_of_start (List.take_prefix ..) hlong]
    exact declared_of_start hstart hlength

theorem readSsm2InitFrame_framed :
    Meets (fun result events => ∀ f, result = .ok f → FramedIn (delivered events) f) readSsm2InitFrame := by
  refine .bind_of (readInto_extends [] 200) fun result events hread => ?_
  cases result with
  | error e => exact .error fun f h => by cases h
  | ok frame =>
    have hfirst := hread frame rfl
    refine .ok (.bind_of (readUpTo_extends 4 10 frame) fun result' events' hread' => ?_)
    cases result' with
    | error e => exact .error fun f h => by cases h
    | ok frame' =>
      have hsecond := hread' frame' rfl
      refine .ok (.ite (fun _ => .ofExcept fun f h => by cases h) fun _ =>
        .ite (fun _ => .ofExcept fun f h => by cases h) fun hlong => ?_)
      refine (readDeclared_framed frame' (Nat.not_lt.1 hlong)).mono fun result'' events'' h f hf => ?_
      have hall : delivered (events ++ (events' ++ events'')) = frame' ++ delivered events'' := by
        rw [hsecond, hfirst]
        simp [delivered]
      rw [hall]
      exact h f hf

/-- The event is a read. -/
def Event.IsRead (event : Event) : Prop := ∃ timeout, event.call = .read timeout

theorem readInto_emits (frame : Bytes) (timeout : ℕ) :
    Emits Event.IsRead Bytes (readInto frame timeout) := by
  refine Emits.bind ?_ fun data => Emits.compositional.pure _
  intro answers event hevent
  cases List.mem_singleton.1 hevent
  exact ⟨timeout, rfl⟩

theorem readUpTo_emits (size attempts : ℕ) (frame : Bytes) :
    Emits Event.IsRead Bytes (readUpTo size attempts frame) := by
  induction attempts generalizing frame with
  | zero => exact Emits.compositional.pure _
  | succ attempts ih =>
    exact Compositional.ite (Emits.bind (readInto_emits frame 50) ih) (Emits.compositional.pure _)

theorem ofExcept_emits {α : Type} (r : Except LinkError α) :
    Emits Event.IsRead α (ofExcept r : Run α) := by
  cases r with
  | ok a => exact Emits.compositional.pure a
  | error e => exact Emits.compositional.fail e

theorem readSsm2InitFrame_emits : Emits Event.IsRead Bytes readSsm2InitFrame := by
  refine Emits.bind (readInto_emits [] 200) fun frame => ?_
  refine Emits.bind (readUpTo_emits 4 10 frame) fun frame' => ?_
  refine Compositional.ite (ofExcept_emits _) (Compositional.ite (ofExcept_emits _) ?_)
  refine Emits.bind (readUpTo_emits _ 10 frame') fun read => ?_
  exact Compositional.ite (ofExcept_emits _) (Emits.compositional.pure _)

/-- What is made of the frame that is read. -/
theorem identifyReply_carried (target : SsmTarget) :
    Meets (fun result events => ∀ identity, result = .ok identity →
        ∃ frame, IsInit target frame ∧ identity = carried frame ∧ frame <+: delivered events)
      (readSsm2InitFrame >>= fun frame => ofExcept (identityOf frame target)) := by
  refine .bind_of readSsm2InitFrame_framed fun result events hframed => ?_
  cases result with
  | error e => exact .error fun identity h => by cases h
  | ok frame =>
    obtain ⟨hlength, hstart⟩ := hframed frame rfl
    refine .ok (.ofExcept fun identity h => ?_)
    obtain ⟨hinit, rfl⟩ := (identityOf_eq_ok_iff hlength).1 h
    exact ⟨frame, hinit, rfl, by rwa [List.append_nil]⟩

/-- The events of an attempt that has an identity: the link is opened, the init request is sent once, and
the identity is the one of a reply of the target that the reads after it have delivered. -/
structure Identified (target : SsmTarget) (identity : SsmIdentity) (events : List Event) : Prop where
  reply : ∃ frame, IsInit target frame ∧ identity = carried frame ∧ frame <+: delivered events
  calls : ∃ opened written slept reads, events = ⟨.openKline ssm2Link, opened⟩ ::
    ⟨.write (ssmFrame [0xBF] target), written⟩ :: ⟨.sleep 200, slept⟩ :: reads ∧
    ∀ event ∈ reads, event.IsRead

/-- A call that something follows has no error. -/
theorem made_bind_ok {α : Type} {call : Call} {f : Option Bytes → Run α} {answers : List Answer} {a : α}
    (h : ((made call >>= f) answers).result = .ok a) :
    ∃ data, (f data answers.tail).result = .ok a ∧
      ((made call >>= f) answers).events = ⟨call, .ok data⟩ :: (f data answers.tail).events := by
  have hmade : made call answers =
      ⟨answers.headD (.ok none), [⟨call, answers.headD (.ok none)⟩], answers.tail⟩ := rfl
  cases hanswer : answers.headD (.ok none) with
  | error e =>
    rw [hanswer] at hmade
    rw [bind_of_error (congrArg Outcome.result hmade)] at h
    cases h
  | ok data =>
    rw [hanswer] at hmade
    rw [bind_of_ok (congrArg Outcome.result hmade), hmade] at h
    refine ⟨data, h, ?_⟩
    rw [bind_of_ok (congrArg Outcome.result hmade), hmade]
    rfl

/-- **An identity is that of a reply of the target, and nothing else was sent for it.** -/
theorem identifyKlineSsm2_sound (target : SsmTarget) (answers : List Answer) (identity : SsmIdentity)
    (h : (identifyKlineSsm2 target answers).result = .ok identity) :
    Identified target identity (identifyKlineSsm2 target answers).events := by
  obtain ⟨opened, h, hopened⟩ := made_bind_ok h
  obtain ⟨written, h, hwritten⟩ := made_bind_ok h
  obtain ⟨slept, h, hslept⟩ := made_bind_ok h
  have hevents := hopened
  rw [hwritten, hslept] at hevents
  change (identifyKlineSsm2 target answers).events = _ at hevents
  have hread := Emits.bind readSsm2InitFrame_emits fun frame => ofExcept_emits (identityOf frame target)
  rw [hevents]
  -- the three calls before the reads bring nothing
  exact ⟨identifyReply_carried target answers.tail.tail.tail identity h,
    ⟨_, _, _, _, rfl, hread answers.tail.tail.tail⟩⟩

/-! ### Every reply is found -/

/-- What a list of reads brings. -/
def bytesOf (chunks : List (Option Bytes)) : Bytes := chunks.flatMap (·.getD [])

theorem bytesOf_take_start (chunks : List (Option Bytes)) (k : ℕ) :
    bytesOf (chunks.take k) <+: bytesOf chunks := by
  have hsplit : bytesOf chunks = bytesOf (chunks.take k) ++ bytesOf (chunks.drop k) := by
    rw [bytesOf, bytesOf, bytesOf, ← List.flatMap_append, List.take_append_drop]
  rw [hsplit]
  exact List.prefix_append ..

/-- The reads that follow bring the rest. -/
theorem bytesOf_take_add (chunks : List (Option Bytes)) (j k : ℕ) :
    bytesOf (chunks.take j) ++ bytesOf ((chunks.drop j).take k) = bytesOf (chunks.take (j + k)) := by
  rw [bytesOf, bytesOf, bytesOf, ← List.flatMap_append, ← List.take_add]

theorem length_bytesOf_take_le (chunks : List (Option Bytes)) {j k : ℕ} (h : j ≤ k) :
    (bytesOf (chunks.take j)).length ≤ (bytesOf (chunks.take k)).length := by
  have hstart := bytesOf_take_start (chunks.take k) j
  rw [List.take_take, Nat.min_eq_left h] at hstart
  exact hstart.length_le

theorem readInto_returns (chunks : List (Option Bytes)) (frame : Bytes) (timeout : ℕ) :
    Returns (readInto frame timeout) (chunks.map .ok) (frame ++ bytesOf (chunks.take 1))
      ((chunks.drop 1).map .ok) := by
  cases chunks with
  | nil => exact ⟨rfl, rfl⟩
  | cons chunk chunks =>
    have hbytes : bytesOf ((chunk :: chunks).take 1) = chunk.getD [] := List.append_nil _
    rw [hbytes]
    exact ⟨rfl, rfl⟩

/-- The loop ends when the frame is long enough or the reads are used up, whatever each of them brings. -/
theorem readUpTo_returns (size attempts : ℕ) (chunks : List (Option Bytes)) (frame : Bytes) :
    ∃ k ≤ attempts, Returns (readUpTo size attempts frame) (chunks.map .ok)
        (frame ++ bytesOf (chunks.take k)) ((chunks.drop k).map .ok) ∧
      (size ≤ (frame ++ bytesOf (chunks.take k)).length ∨ k = attempts) := by
  induction attempts generalizing chunks frame with
  | zero => exact ⟨0, Nat.le_refl 0, ⟨congrArg Except.ok (List.append_nil frame).symm, rfl⟩, .inr rfl⟩
  | succ attempts ih =>
    by_cases hshort : frame.length < size
    · obtain ⟨k, hk, hreturns, hends⟩ := ih (chunks.drop 1) (frame ++ bytesOf (chunks.take 1))
      rw [List.append_assoc, bytesOf_take_add, List.drop_drop] at hreturns
      rw [List.append_assoc, bytesOf_take_add] at hends
      refine ⟨1 + k, by omega, ?_, hends.imp_right fun h => by omega⟩
      rw [readUpTo, if_pos hshort]
      exact (readInto_returns chunks frame 50).bind hreturns
    · refine ⟨0, Nat.zero_le _, ?_, .inl ?_⟩
      · rw [readUpTo, if_neg hshort]
        exact ⟨congrArg Except.ok (List.append_nil frame).symm, rfl⟩
      · rw [List.take_zero]
        exact (Nat.not_lt.1 hshort).trans_eq (congrArg List.length (List.append_nil frame).symm)

/-- A frame of the bytes with its declared length is read, if its reads are among the first eleven. -/
theorem readSsm2InitFrame_returns {chunks : List (Option Bytes)} {frame : Bytes}
    (hframe : frame.length = declared frame) (hstart : frame <+: bytesOf (chunks.take 11)) :
    ∃ rest, Returns readSsm2InitFrame (chunks.map .ok) frame rest := by
  have hlong : 5 ≤ frame.length := by
    rw [hframe, declared]
    omega
  have hall : frame <+: bytesOf chunks := hstart.trans (bytesOf_take_start chunks 11)
  obtain ⟨k, hk, hfirst, hfirstEnds⟩ := readUpTo_returns 4 10 (chunks.drop 1) (bytesOf (chunks.take 1))
  rw [bytesOf_take_add, List.drop_drop] at hfirst
  rw [bytesOf_take_add] at hfirstEnds
  -- the header is there: the loop has ended for it, or all of its reads are made
  have hheader : 4 ≤ (bytesOf (chunks.take (1 + k))).length := by
    rcases hfirstEnds with h | rfl
    · exact h
    · exact (Nat.le_of_succ_le hlong).trans hstart.length_le
  have hdeclared : declared (bytesOf (chunks.take (1 + k))) = declared frame :=
    (declared_of_start (bytesOf_take_start chunks (1 + k)) hheader).trans
      (declared_of_start hall (Nat.le_of_succ_le hlong)).symm
  obtain ⟨j, hj, hsecond, hsecondEnds⟩ :=
    readUpTo_returns (declared frame) 10 (chunks.drop (1 + k)) (bytesOf (chunks.take (1 + k)))
  rw [bytesOf_take_add] at hsecond hsecondEnds
  have henough : declared frame ≤ (bytesOf (chunks.take (1 + k + j))).length := by
    rcases hsecondEnds with h | rfl
    · exact h
    · rw [← hframe]
      exact hstart.length_le.trans (length_bytesOf_take_le chunks (by omega))
  have hcut : (bytesOf (chunks.take (1 + k + j))).take (declared frame) = frame := by
    have hsame : frame <+: bytesOf (chunks.take (1 + k + j)) :=
      List.prefix_of_prefix_length_le hall (bytesOf_take_start chunks _) (hframe ▸ henough)
    rw [← hframe]
    exact (List.prefix_iff_eq_take.1 hsame).symm
  have hsome : bytesOf (chunks.take (1 + k)) ≠ [] := by
    intro hnil
    rw [hnil] at hheader
    cases hheader
  refine ⟨((chunks.drop (1 + k)).drop j).map .ok, (readInto_returns chunks [] 200).bind (hfirst.bind ?_)⟩
  rw [if_neg hsome, if_neg (Nat.not_lt.2 hheader), readDeclared, hdeclared]
  refine hsecond.bind ?_
  rw [if_neg (Nat.not_lt.2 henough), hcut]
  exact Returns.pure _ _

theorem identifyKlineSsm2_returns {target : SsmTarget} {frame : Bytes} {chunks : List (Option Bytes)}
    (hframe : IsInit target frame) (hstart : frame <+: bytesOf (chunks.take 11)) :
    ∃ rest, Returns (identifyKlineSsm2 target) (.ok none :: .ok none :: .ok none :: chunks.map .ok)
      (carried frame) rest := by
  obtain ⟨rest, hread⟩ := readSsm2InitFrame_returns hframe.length_eq hstart
  have hidentity : identityOf frame target = .ok (carried frame) :=
    (identityOf_eq_ok_iff hframe.length_eq).2 ⟨hframe, rfl⟩
  have hanswered (call : Call) (answers : List Answer) :
      Returns (made call) (.ok none :: answers) none answers := ⟨rfl, rfl⟩
  refine ⟨rest, (hanswered _ _).bind ((hanswered _ _).bind ((hanswered _ _).bind (hread.bind ?_)))⟩
  rw [hidentity]
  exact Returns.pure _ _

/-- **A reply gives its identity, however the reads cut it.** -/
theorem identifyKlineSsm2_delivered (target : SsmTarget) (frame : Bytes) (chunks : List (Option Bytes))
    (hframe : IsInit target frame) (hstart : frame <+: bytesOf (chunks.take 11)) :
    (identifyKlineSsm2 target (.ok none :: .ok none :: .ok none :: chunks.map .ok)).result =
      .ok (carried frame) := by
  obtain ⟨rest, hresult, -⟩ := identifyKlineSsm2_returns hframe hstart
  exact hresult

/-- A reply of an ECU. -/
def initReply : Bytes :=
  [0x80, 0xF0, 0x10, 0x09, 0xFF, 0xA2, 0x10, 0x11, 0x1B, 0x14, 0x58, 0x40, 0x05, 0x17]

/-- Its reads: nothing at first, then a part of the header, then the rest with a byte of noise. -/
def initReads : List (Option Bytes) :=
  [none, some (initReply.take 3), none, some (initReply.drop 3 ++ [0x00])]

theorem isInit_initReply : IsInit .ecu initReply :=
  ⟨rfl, by decide, rfl, rfl, rfl, rfl, by decide⟩

theorem initReply_delivered : initReply <+: bytesOf (initReads.take 11) := ⟨[0x00], rfl⟩

theorem identifyKlineSsm2_delivered_initReply :
    (identifyKlineSsm2 .ecu (.ok none :: .ok none :: .ok none :: initReads.map .ok)).result =
      .ok (carried initReply) :=
  identifyKlineSsm2_delivered .ecu initReply initReads isInit_initReply initReply_delivered

theorem identifyKlineSsm2_sound_initReply :
    Identified .ecu (carried initReply)
      (identifyKlineSsm2 .ecu (.ok none :: .ok none :: .ok none :: initReads.map .ok)).events := by
  obtain ⟨rest, hresult, -⟩ := identifyKlineSsm2_returns isInit_initReply initReply_delivered
  exact identifyKlineSsm2_sound .ecu _ (carried initReply) hresult

end FastEcu.Diagnostics.Identify
