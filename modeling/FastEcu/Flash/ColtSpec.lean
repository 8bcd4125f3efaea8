import FastEcu.Flash.ColtWrite

/-!
# What a Colt write does

* `RangeRead`, `Returned` : what the ECU returned for a range, chunk by chunk.
* `Uploaded` : an upload with every exchange accepted.
* `ErasedAfter` : what came before each erase.
* `writeMem_spec` : what a successful write has verified, what came before an erase, and that nothing
  follows an exchange that was refused.
-/

namespace FastEcu.Flash.Colt

open Data Computation Ports

variable {ctx : UdsContext} {plan : ColtPlan}

/-! ### Reading -/

/-- The exchanges read the chunks, and the bytes that the ECU returned for them are the data. -/
def RangeRead : List (ℕ × ℕ) → Bytes → List UdsEvent → Prop
  | [], data, events => data = [] ∧ events = []
  | (addr, len) :: chunks, data, events => ∃ calls reply rest tail,
      events = .exchange (buildReadMemoryByAddress addr len) calls (.ok reply) :: rest ∧
      len ≤ (udsPayload reply).length ∧ data = (udsPayload reply).take len ++ tail ∧
      RangeRead chunks tail rest

/-- The ECU returned the data for a range. -/
structure Returned (start length : ℕ) (data : Bytes) (events : List UdsEvent) : Prop where
  read : RangeRead (flashChunks start length) data events

theorem readOneChunk_meets (addr len : ℕ) :
    Meets (fun result events => ∀ chunk, result = .ok chunk → ∃ calls reply,
      events = [.exchange (buildReadMemoryByAddress addr len) calls (.ok reply)] ∧
      len ≤ (udsPayload reply).length ∧ chunk = (udsPayload reply).take len)
      (readOneChunk ctx addr len) := by
  -- the exchange has the whole chunk when it succeeds
  have hwhole : Meets (fun result _ => ∀ reply, result = .ok reply → len ≤ (udsPayload reply).length)
      (do
        let reply ← ctx.request routineExchangePolicy (buildReadMemoryByAddress addr len)
        ofExcept (chunkOf len reply) : CanRun Bytes) := by
    refine .bind_of (P := fun _ _ => True) (fun _ => trivial) ?_
    rintro (e | reply) events -
    · exact .error fun r hr => (nomatch hr)
    · refine Then.ok (.ofExcept ?_)
      intro r hr
      unfold chunkOf at hr
      split at hr
      · cases hr
      · rename_i hlength
        cases hr
        exact Nat.le_of_not_lt hlength
  refine .bind_of (hwhole.nest_of _) ?_
  rintro (e | reply) events ⟨calls, rfl, hlength⟩
  · exact .error fun chunk h => (nomatch h)
  · refine Then.ok (.pure ?_)
    intro chunk hchunk
    cases hchunk
    exact ⟨calls, reply, rfl, hlength reply rfl, rfl⟩

theorem readChunks_meets (chunks : List (ℕ × ℕ)) (data : Bytes) :
    Meets (fun result events => ∀ all, result = .ok all → ∃ tail, all = data ++ tail ∧
      RangeRead chunks tail events) (readChunks ctx chunks data) := by
  induction chunks generalizing data with
  | nil =>
    refine .pure ?_
    intro all hall
    cases hall
    exact ⟨[], (List.append_nil _).symm, rfl, rfl⟩
  | cons c chunks ih =>
    obtain ⟨addr, len⟩ := c
    refine .bind_of (readOneChunk_meets addr len) ?_
    rintro (e | chunk) events hread
    · exact .error fun all h => (nomatch h)
    · obtain ⟨calls, reply, rfl, hlen, rfl⟩ := hread chunk rfl
      refine Then.ok ((ih (data ++ (udsPayload reply).take len)).mono ?_)
      intro result rest hrest all hall
      obtain ⟨tail, rfl, hrange⟩ := hrest all hall
      exact ⟨_, by rw [List.append_assoc], calls, reply, rest, tail, rfl, hlen, rfl, hrange⟩

theorem readFlashRange_meets (start length : ℕ) :
    Meets (fun result events => ∀ data, result = .ok data →
      Returned start length data events) (readFlashRange ctx start length) := by
  refine (readChunks_meets (flashChunks start length) []).mono ?_
  intro result events h data hdata
  obtain ⟨tail, rfl, hrange⟩ := h data hdata
  exact ⟨hrange⟩

theorem matchChunks_meets (start : ℕ) (wanted : Bytes) (chunks : List (ℕ × ℕ)) :
    Meets (fun result events => result = .ok true →
      RangeRead chunks (chunks.flatMap fun c => subspan wanted (c.1 - start) c.2) events)
      (matchChunks ctx start wanted chunks) := by
  induction chunks with
  | nil => exact .pure fun _ => ⟨rfl, rfl⟩
  | cons c chunks ih =>
    obtain ⟨addr, len⟩ := c
    refine .bind_of (readOneChunk_meets addr len) ?_
    rintro (e | chunk) events hread
    · exact .error fun h => (nomatch h)
    · obtain ⟨calls, reply, rfl, hlen, rfl⟩ := hread chunk rfl
      refine Then.ok (.ite ?_ fun _ => .pure fun h => (nomatch h))
      intro hsame
      refine ih.mono ?_
      intro result rest hrest hresult
      refine ⟨calls, reply, rest, _, rfl, hlen, ?_, hrest hresult⟩
      rw [List.flatMap_cons, hsame]

/-- The chunks of a range cover it. -/
theorem flatMap_flashChunks (start : ℕ) (wanted : Bytes) :
    ((flashChunks start wanted.length).flatMap fun c => subspan wanted (c.1 - start) c.2) = wanted := by
  have hparts : ∀ i, subspan wanted (flashReadBlockSize * i)
      (min flashReadBlockSize (wanted.length - flashReadBlockSize * i)) =
      subspan wanted (flashReadBlockSize * i) flashReadBlockSize := by
    intro i
    rw [subspan, subspan, List.take_eq_take_iff, List.length_drop]
    omega
  rw [flashChunks, List.flatMap_map]
  simp only [Nat.add_sub_cancel_left, hparts]
  exact flatMap_subspan_eq wanted (by decide)

theorem flashRangeMatches_meets (start : ℕ) (wanted : Bytes) :
    Meets (fun result events => result = .ok true →
      Returned start wanted.length wanted events)
      (flashRangeMatches ctx start wanted) := by
  have h := @matchChunks_meets ctx start wanted (flashChunks start wanted.length)
  rw [flatMap_flashChunks] at h
  exact h.mono fun result events hread hresult => ⟨hread hresult⟩

/-! ### Uploading -/

/-- The requests of an upload. -/
def uploadProgram (start : ℕ) (data : Bytes) : List Bytes :=
  [buildRequestDownload start data.length] ++ (buildTransferDataFrames data ++
    ([buildRequestDownload 0x200000 2] ++ ([0x36 :: u16Be (checksum data)] ++
      [buildRoutineCheckCrc start])))

/-- The frame with the checksum. -/
theorem checksumFrame (c : UInt16) :
    (buildTransferDataFrames (u16Be c)).headD [] = 0x36 :: u16Be c := by
  have hframes : ((u16Be c).length + (transferChunkSize - 1)) / transferChunkSize = 1 := by
    simp [u16Be, transferChunkSize]
  rw [buildTransferDataFrames, hframes]
  simp [subspan, transferChunkSize, u16Be]

theorem acknowledged_sends (policy : ExchangePolicy) (pdu : Bytes) :
    Sends UdsEvent.request? [pdu] (acknowledged ctx policy pdu) :=
  (fatalRequest_sends policy pdu).map fun _ => ()

theorem confirmed_sends (pdu expected : Bytes) (subject : String) :
    Sends UdsEvent.request? [pdu] (confirmed ctx pdu expected subject) :=
  (fatalQuery_sends slowExchangePolicy pdu expected subject none).map fun _ => ()

theorem uploadAndCommit_sends (start : ℕ) (data : Bytes) :
    Sends UdsEvent.request? (uploadProgram start data) (uploadAndCommit ctx start data) := by
  rw [uploadAndCommit, checksumFrame]
  refine (acknowledged_sends _ _).bind fun _ => .bind ?_ fun _ => (acknowledged_sends _ _).bind
    fun _ => (acknowledged_sends _ _).bind fun _ => confirmed_sends _ _ _
  have hframes : Sends UdsEvent.request? ((buildTransferDataFrames data).map id) _ :=
    .each_map fun frame _ => @acknowledged_sends ctx routineExchangePolicy frame
  rwa [List.map_id] at hframes

/-- The frames of an upload carry its data in order. -/
theorem flatMap_transferDataFrames (data : Bytes) :
    (buildTransferDataFrames data).flatMap (List.drop 1) = data := by
  rw [buildTransferDataFrames, List.flatMap_map]
  exact flatMap_subspan_eq data (by decide)

theorem mem_transferDataFrames {data frame : Bytes} (h : frame ∈ buildTransferDataFrames data) :
    ∃ payload, frame = 0x36 :: payload := by
  obtain ⟨i, -, rfl⟩ := List.mem_map.1 h
  exact ⟨_, rfl⟩

/-! ### Parts without an erase -/

section Parts

variable {Q : ∀ α : Type, UdsRun α → Prop} (hQ : Compositional Q)
  (hexchange : ∀ (pdu : Bytes) (m : CanRun Bytes), pdu ≠ buildRoutineErase →
    Q Bytes (nest (.exchange pdu) m))

include hQ hexchange

theorem acknowledged_parts {policy : ExchangePolicy} {pdu : Bytes} (h : pdu ≠ buildRoutineErase) :
    Q Unit (acknowledged ctx policy pdu) :=
  hQ.bind (hexchange pdu _ h) fun _ => hQ.pure ()

theorem confirmed_parts {pdu expected : Bytes} {subject : String} (h : pdu ≠ buildRoutineErase) :
    Q Unit (confirmed ctx pdu expected subject) :=
  hQ.bind (hexchange pdu _ h) fun _ => hQ.pure ()

theorem readOneChunk_parts (addr len : ℕ) : Q Bytes (readOneChunk ctx addr len) :=
  hQ.bind (hexchange _ _ (fun h => by cases h)) fun _ => hQ.pure _

theorem readFlashRange_parts (start length : ℕ) : Q Bytes (readFlashRange ctx start length) := by
  suffices h : ∀ chunks data, Q Bytes (readChunks ctx chunks data) from h _ _
  intro chunks
  induction chunks with
  | nil => exact fun data => hQ.pure data
  | cons c chunks ih => exact fun data => hQ.bind (readOneChunk_parts hQ hexchange _ _) fun _ => ih _

theorem flashRangeMatches_parts (start : ℕ) (wanted : Bytes) :
    Q Bool (flashRangeMatches ctx start wanted) := by
  suffices h : ∀ chunks, Q Bool (matchChunks ctx start wanted chunks) from h _
  intro chunks
  induction chunks with
  | nil => exact hQ.pure true
  | cons c chunks ih =>
    exact hQ.bind (readOneChunk_parts hQ hexchange _ _) fun _ => Compositional.ite ih (hQ.pure false)

theorem uploadAndCommit_parts (start : ℕ) (data : Bytes) :
    Q Unit (uploadAndCommit ctx start data) := by
  rw [uploadAndCommit, checksumFrame]
  refine hQ.bind (acknowledged_parts hQ hexchange fun h => by cases h) fun _ =>
    hQ.bind (hQ.each ?_) fun _ =>
    hQ.bind (acknowledged_parts hQ hexchange fun h => by cases h) fun _ =>
    hQ.bind (acknowledged_parts hQ hexchange fun h => by cases h) fun _ =>
    confirmed_parts hQ hexchange fun h => by cases h
  intro frame hframe
  obtain ⟨payload, rfl⟩ := mem_transferDataFrames hframe
  exact acknowledged_parts hQ hexchange fun h => by cases h

end Parts

/-- The event is not an erase. -/
def NotErase : UdsEvent → Prop
  | .exchange request _ _ => request ≠ buildRoutineErase
  | .call _ => True

theorem nest_notErase (pdu : Bytes) (m : CanRun Bytes) (h : pdu ≠ buildRoutineErase) :
    Emits NotErase Bytes (nest (.exchange pdu) m) := by
  intro script event hmem
  rw [List.mem_singleton.1 hmem]
  exact h

theorem nest_strict (pdu : Bytes) (m : CanRun Bytes) (_ : pdu ≠ buildRoutineErase) :
    Strictly UdsEvent.failure Bytes (nest (.exchange pdu) m) := nest_strictly

/-- Every exchange of an upload was accepted, and what was sent is the upload. -/
structure Uploaded (start : ℕ) (data : Bytes) (events : List UdsEvent) : Prop where
  accepted : ∀ event ∈ events, event.failure = none
  sent : sent UdsEvent.request? events = uploadProgram start data

theorem accepted_of_strict {α : Type} {events : List UdsEvent} {a : α}
    (h : Strict UdsEvent.failure events (.ok a : Except LinkError α)) :
    ∀ event ∈ events, event.failure = none := by
  intro event hmem
  obtain ⟨before, after, rfl⟩ := List.append_of_mem hmem
  cases hfailure : event.failure with
  | none => rfl
  | some e =>
    obtain ⟨-, hresult⟩ := h before event after e rfl hfailure
    cases hresult

theorem uploadAndCommit_strictly (start : ℕ) (data : Bytes) :
    Strictly UdsEvent.failure Unit (uploadAndCommit ctx start data) :=
  uploadAndCommit_parts Strictly.compositional nest_strict start data

theorem uploadAndCommit_meets (start : ℕ) (data : Bytes) :
    Meets (fun result events => (∀ event ∈ events, NotErase event) ∧
      (result = .ok () → Uploaded start data events)) (uploadAndCommit ctx start data) := by
  intro script
  refine ⟨uploadAndCommit_parts Emits.compositional nest_notErase start data script, ?_⟩
  intro hok
  have hstrict := @uploadAndCommit_strictly ctx start data script
  rw [hok] at hstrict
  exact ⟨accepted_of_strict hstrict, (uploadAndCommit_sends start data script).2 () hok⟩

/-! ### Erasing -/

/-- Before each erase the condition holds. -/
def ErasedAfter (C : List UdsEvent → Prop) (events : List UdsEvent) : Prop :=
  ∀ before calls result after,
    events = before ++ .exchange buildRoutineErase calls result :: after → C before

theorem ErasedAfter.of_notErase {C : List UdsEvent → Prop} {events : List UdsEvent}
    (h : ∀ event ∈ events, NotErase event) : ErasedAfter C events := by
  intro before calls result after hevents
  refine absurd rfl (h (.exchange buildRoutineErase calls result) ?_)
  rw [hevents]
  exact List.mem_append_right _ (List.mem_cons_self ..)

theorem ErasedAfter.append_left {C : List UdsEvent → Prop} {events events' : List UdsEvent}
    (h : ∀ event ∈ events, NotErase event)
    (h' : ErasedAfter (fun before => C (events ++ before)) events') :
    ErasedAfter C (events ++ events') := by
  intro before calls result after hevents
  rcases append_eq_append_cons hevents with ⟨rest, rfl, -⟩ | ⟨rest, rfl, hrest⟩
  · exact absurd rfl (h (.exchange buildRoutineErase calls result)
      (List.mem_append_right _ (List.mem_cons_self ..)))
  · exact h' rest calls result after hrest

theorem ErasedAfter.append_right {C : List UdsEvent → Prop} {events events' : List UdsEvent}
    (h : ErasedAfter C events) (h' : ∀ event ∈ events', NotErase event) :
    ErasedAfter C (events ++ events') := by
  intro before calls result after hevents
  rcases append_eq_append_cons hevents with ⟨rest, hbefore, -⟩ | ⟨rest, -, hrest⟩
  · exact h before calls result rest hbefore
  · refine absurd rfl (h' (.exchange buildRoutineErase calls result) ?_)
    rw [hrest]
    exact List.mem_append_right _ (List.mem_cons_self ..)

/-- The unlock comes before the erase. -/
theorem unlockAndErase_meets (stage : String) :
    Meets (fun _ events => ErasedAfter (fun before => ∃ unlock, before = [unlock]) events)
      (unlockAndErase ctx stage) := by
  refine .bind_of (P := fun _ events => ∃ calls result,
    events = [.exchange buildRequestReflashUnlock calls result]) ?_ ?_
  · refine .bind (.nest ?_)
    rintro (e | reply) calls
    · exact .error ⟨calls, .error e, rfl⟩
    · exact .ok (.pure ⟨calls, .ok reply, rfl⟩)
  rintro result events ⟨calls, unlocked, rfl⟩
  have hunlock : ∀ event ∈ [UdsEvent.exchange buildRequestReflashUnlock calls unlocked],
      NotErase event := by
    intro event hmem
    rw [List.mem_singleton.1 hmem]
    exact fun h => by cases h
  cases result with
  | error e => exact .error (.of_notErase hunlock)
  | ok u =>
    refine Then.ok (.bind (.nest ?_))
    have herased : ∀ calls' erased, ErasedAfter (fun before => ∃ unlock, before = [unlock])
        ([UdsEvent.exchange buildRequestReflashUnlock calls unlocked] ++
          [.exchange buildRoutineErase calls' erased]) := by
      intro calls' erased
      refine .append_left hunlock ?_
      intro before calls'' result' after hevents
      cases before with
      | nil => exact ⟨_, rfl⟩
      | cons first before => simp at hevents
    rintro (e | reply) calls'
    · exact .error (herased _ _)
    · exact .ok (.pure (herased _ _))

theorem requireConfirmation_meets (id : ConfirmationId) (detail : String) :
    Meets (fun result events => events = [] ∧ (result = .ok () → plan.confirmationGranted id))
      (requireConfirmation plan id detail) :=
  .ite (fun h => .pure ⟨rfl, fun _ => h⟩) fun _ => .fail ⟨rfl, fun h => (nomatch h)⟩

theorem requireEqual_meets (read wanted : Bytes) (detail : String) :
    Meets (fun result events => events = [] ∧ (result = .ok () → read = wanted))
      (requireEqual read wanted detail) :=
  .ite (fun h => .pure ⟨rfl, fun _ => h⟩) fun _ => .fail ⟨rfl, fun h => (nomatch h)⟩

/-- A range that is read back and compared. -/
theorem verify_meets (start length : ℕ) (wanted : Bytes) (detail : String) :
    Meets (fun result events => (∀ event ∈ events, NotErase event) ∧
        (result = .ok () → Returned start length wanted events))
      (do
        let read ← readFlashRange ctx start length
        requireEqual read wanted detail) := by
  refine .bind_of (P := fun result events => (∀ event ∈ events, NotErase event) ∧
    ∀ data, result = .ok data → Returned start length data events) ?_ ?_
  · intro script
    exact ⟨readFlashRange_parts Emits.compositional nest_notErase start length script,
      readFlashRange_meets start length script⟩
  rintro (e | read) events ⟨hnot, hread⟩
  · exact .error ⟨hnot, fun h => (nomatch h)⟩
  · refine Then.ok ((requireEqual_meets read wanted detail).mono ?_)
    rintro result rest ⟨rfl, hequal⟩
    rw [List.append_nil]
    refine ⟨hnot, ?_⟩
    intro hresult
    rw [← hequal hresult]
    exact hread read rfl

/-! ### The write -/

/-- What the part after the top region leaves. -/
structure UserspaceSpec (plan : ColtPlan) (result : Except LinkError Unit)
    (events : List UdsEvent) : Prop where
  /-- The erase is confirmed and both page routines are committed. -/
  erased : ErasedAfter (fun before => plan.confirmationGranted .eraseTrigger ∧
    ∃ l₁ l₂ unlock, before = l₁ ++ (l₂ ++ [unlock]) ∧
      Uploaded eraseRoutineRamAddr erasePageRoutine l₁ ∧
      Uploaded writeRoutineRamAddr writePageRoutine l₂) events
  /-- What the ECU returned last is the image. -/
  verified : result = .ok () → ∃ before range, events = before ++ range ∧
    Returned userspaceStart (plan.pageWriteEnd - userspaceStart) plan.userspace range

theorem writeUserspace_meets : Meets (UserspaceSpec plan) (writeUserspace ctx plan) := by
  refine .bind_of (uploadAndCommit_meets _ _) ?_
  rintro (e | u) first ⟨hfirst, huploaded⟩
  · exact .error ⟨.of_notErase hfirst, fun h => (nomatch h)⟩
  have hfirst' := huploaded rfl
  refine Then.ok (.bind_of (uploadAndCommit_meets _ _) ?_)
  rintro (e | u) second ⟨hsecond, huploaded'⟩
  · exact .error ⟨.append_left hfirst (.of_notErase hsecond), fun h => (nomatch h)⟩
  have hsecond' := huploaded' rfl
  refine Then.ok (.bind_of (requireConfirmation_meets _ _) ?_)
  rintro (e | u) _ ⟨rfl, hgranted⟩
  · exact .error ⟨.append_left hfirst (.append_left hsecond (.of_notErase fun _ h => (nomatch h))),
      fun h => (nomatch h)⟩
  refine Then.ok (.bind_of (unlockAndErase_meets _) ?_)
  intro result unlocked herased
  -- from here on the only erase is the one behind the unlock
  have hbehind : ∀ rest, (∀ event ∈ rest, NotErase event) →
      ErasedAfter (fun before => plan.confirmationGranted .eraseTrigger ∧
        ∃ l₁ l₂ unlock, before = l₁ ++ (l₂ ++ [unlock]) ∧
          Uploaded eraseRoutineRamAddr erasePageRoutine l₁ ∧
          Uploaded writeRoutineRamAddr writePageRoutine l₂)
        (first ++ (second ++ (unlocked ++ rest))) := by
    intro rest hrest
    refine .append_left hfirst (.append_left hsecond (.append_right ?_ hrest))
    intro before calls result after hevents
    obtain ⟨unlock, rfl⟩ := herased before calls result after hevents
    exact ⟨hgranted rfl, first, second, unlock, rfl, hfirst', hsecond'⟩
  cases result with
  | error e =>
    refine .error ⟨?_, fun h => (nomatch h)⟩
    simpa using hbehind [] fun _ h => (nomatch h)
  | ok u =>
    refine Then.ok (.bind_of (uploadAndCommit_meets _ _) ?_)
    rintro (e | u) third ⟨hthird, -⟩
    · exact .error ⟨hbehind third hthird, fun h => (nomatch h)⟩
    refine Then.ok ((verify_meets _ _ _ _).mono ?_)
    rintro result range ⟨hrange, hverified⟩
    refine ⟨hbehind (third ++ range) ?_, ?_⟩
    · intro event hmem
      exact (List.mem_append.1 hmem).elim (hthird event) (hrange event)
    · intro hresult
      exact ⟨first ++ (second ++ (unlocked ++ third)), range, by simp, hverified hresult⟩

/-- What the part for the top region leaves. -/
structure TopSpec (plan : ColtPlan) (result : Except LinkError Unit) (events : List UdsEvent) :
    Prop where
  /-- The erase is confirmed, and the ECU returned the wanted bytes for the carrier window. -/
  erased : ErasedAfter (fun before => plan.confirmationGranted .topRegionBootstrap ∧
    ∃ l₁ range l₂, before = l₁ ++ (range ++ l₂) ∧
      Returned userspaceStart plan.wantedTop.length plan.wantedTop range) events
  /-- What the ECU returned for the top region, in the comparison or after the bootstrap, is that of
  the image. -/
  verified : result = .ok () → ∃ before range after, events = before ++ (range ++ after) ∧
    Returned topRegionStart topRegionLength plan.wantedTop range

/-- What a comparison leaves. -/
theorem matches_meets (start : ℕ) (wanted : Bytes) :
    Meets (fun result events => (∀ event ∈ events, NotErase event) ∧
      (result = .ok true → Returned start wanted.length wanted events))
      (flashRangeMatches ctx start wanted) := by
  intro script
  exact ⟨flashRangeMatches_parts Emits.compositional nest_notErase start wanted script,
    flashRangeMatches_meets start wanted script⟩

theorem bootstrapTopRegion_meets : Meets (TopSpec plan) (bootstrapTopRegion ctx plan) := by
  refine .bind_of (requireConfirmation_meets _ _) ?_
  rintro (e | u) _ ⟨rfl, hgranted⟩
  · exact .error ⟨.of_notErase fun _ h => (nomatch h), fun h => (nomatch h)⟩
  refine Then.ok (.bind_of (matches_meets _ _) ?_)
  rintro (e | carrierMatches) carrier ⟨hcarrier, hread⟩
  · exact .error ⟨.of_notErase hcarrier, fun h => (nomatch h)⟩
  refine Then.ok (.bind ?_)
  cases carrierMatches with
  | false => exact .fail ⟨by simpa using .of_notErase hcarrier, fun h => (nomatch h)⟩
  | true =>
    -- no erase is sent before the redirecting routines are in place
    have hcommitted : ∀ rest, (∀ event ∈ rest, NotErase event) →
        ErasedAfter (fun before => plan.confirmationGranted .topRegionBootstrap ∧
          ∃ l₁ range l₂, before = l₁ ++ (range ++ l₂) ∧
            Returned userspaceStart plan.wantedTop.length plan.wantedTop range)
          (carrier ++ rest) := fun rest hrest => .append_left hcarrier (.of_notErase hrest)
    refine .pure (.ok (.bind_of (uploadAndCommit_meets _ _) ?_))
    rintro (e | u) first ⟨hfirst, -⟩
    · exact .error ⟨hcommitted first hfirst, fun h => (nomatch h)⟩
    refine Then.ok (.bind_of (uploadAndCommit_meets _ _) ?_)
    rintro (e | u) second ⟨hsecond, -⟩
    · exact .error ⟨hcommitted (first ++ second) fun event hmem =>
        (List.mem_append.1 hmem).elim (hfirst event) (hsecond event), fun h => (nomatch h)⟩
    refine Then.ok (.bind_of (unlockAndErase_meets _) ?_)
    intro result unlocked herased
    have hbehind : ∀ rest, (∀ event ∈ rest, NotErase event) →
        ErasedAfter (fun before => plan.confirmationGranted .topRegionBootstrap ∧
          ∃ l₁ range l₂, before = l₁ ++ (range ++ l₂) ∧
            Returned userspaceStart plan.wantedTop.length plan.wantedTop range)
          (carrier ++ (first ++ (second ++ (unlocked ++ rest)))) := by
      intro rest hrest
      refine .append_left hcarrier (.append_left hfirst (.append_left hsecond
        (.append_right ?_ hrest)))
      intro before calls result after hevents
      exact ⟨hgranted rfl, [], carrier, first ++ (second ++ before), rfl, hread rfl⟩
    cases result with
    | error e =>
      have h := hbehind [] fun _ h => (nomatch h)
      rw [List.append_nil] at h
      exact .error ⟨h, fun h => (nomatch h)⟩
    | ok u =>
      refine Then.ok (.bind_of (uploadAndCommit_meets _ _) ?_)
      rintro (e | u) third ⟨hthird, -⟩
      · exact .error ⟨hbehind third hthird, fun h => (nomatch h)⟩
      refine Then.ok ((verify_meets _ _ _ _).mono ?_)
      rintro result range ⟨hrange, hverified⟩
      refine ⟨hbehind (third ++ range) ?_, ?_⟩
      · intro event hmem
        exact (List.mem_append.1 hmem).elim (hthird event) (hrange event)
      · intro hresult
        refine ⟨carrier ++ (first ++ (second ++ (unlocked ++ third))), range, [], ?_,
          hverified hresult⟩
        show carrier ++ (first ++ (second ++ (unlocked ++ (third ++ range)))) = _
        simp only [List.append_assoc, List.append_nil]

/-- The top region of a plan that has one. -/
theorem length_wantedTop (h : plan.includesTopRegion = true) :
    plan.wantedTop.length = topRegionLength := by
  refine length_subspan ?_
  rw [plan.size, of_decide_eq_true h]
  decide

theorem ensureTopRegionWritten_meets (h : plan.includesTopRegion = true) :
    Meets (TopSpec plan) (ensureTopRegionWritten ctx plan) := by
  refine .bind_of (matches_meets _ _) ?_
  rintro (e | topMatches) compared ⟨hcompared, hread⟩
  · exact .error ⟨.of_notErase hcompared, fun h => (nomatch h)⟩
  refine Then.ok ?_
  cases topMatches with
  | true =>
    refine .pure ?_
    rw [List.append_nil]
    refine ⟨.of_notErase hcompared, fun _ => ⟨[], compared, [], (List.append_nil _).symm, ?_⟩⟩
    rw [← length_wantedTop h]
    exact hread rfl
  | false =>
    refine bootstrapTopRegion_meets.mono ?_
    rintro result events ⟨herased, hverified⟩
    refine ⟨.append_left hcompared ?_, ?_⟩
    · intro before calls result after hevents
      obtain ⟨hgranted, l₁, range, l₂, rfl, hrange⟩ := herased before calls result after hevents
      exact ⟨hgranted, compared ++ l₁, range, l₂, (List.append_assoc ..).symm, hrange⟩
    · intro hresult
      obtain ⟨before, range, after, rfl, hrange⟩ := hverified hresult
      exact ⟨compared ++ before, range, after, (List.append_assoc ..).symm, hrange⟩

/-! ### Nothing follows a refusal -/

theorem unlockAndErase_strictly (stage : String) :
    Strictly UdsEvent.failure Unit (unlockAndErase ctx stage) :=
  .bind (.bind nest_strictly fun _ => Strictly.compositional.pure ()) fun _ =>
    .bind nest_strictly fun _ => Strictly.compositional.pure ()

theorem requireConfirmation_strictly (id : ConfirmationId) (detail : String) :
    Strictly UdsEvent.failure Unit (requireConfirmation plan id detail) :=
  Compositional.ite (Strictly.compositional.pure ()) (Strictly.compositional.fail _)

theorem requireEqual_strictly (read wanted : Bytes) (detail : String) :
    Strictly UdsEvent.failure Unit (requireEqual read wanted detail) :=
  Compositional.ite (Strictly.compositional.pure ()) (Strictly.compositional.fail _)

theorem flashRangeMatches_strictly (start : ℕ) (wanted : Bytes) :
    Strictly UdsEvent.failure Bool (flashRangeMatches ctx start wanted) :=
  flashRangeMatches_parts Strictly.compositional nest_strict start wanted

theorem readFlashRange_strictly (start length : ℕ) :
    Strictly UdsEvent.failure Bytes (readFlashRange ctx start length) :=
  readFlashRange_parts Strictly.compositional nest_strict start length

theorem bootstrapTopRegion_strictly :
    Strictly UdsEvent.failure Unit (bootstrapTopRegion ctx plan) := by
  refine .bind (requireConfirmation_strictly _ _) fun _ => .bind (flashRangeMatches_strictly _ _)
    fun carrierMatches => .bind ?_ fun _ => .bind (uploadAndCommit_strictly _ _) fun _ =>
    .bind (uploadAndCommit_strictly _ _) fun _ => .bind (unlockAndErase_strictly _) fun _ =>
    .bind (uploadAndCommit_strictly _ _) fun _ => .bind (readFlashRange_strictly _ _) fun _ =>
    requireEqual_strictly _ _ _
  exact Strictly.compositional.when _ (Strictly.compositional.fail _)

theorem writeMem_strictly : Strictly UdsEvent.failure Unit (writeMem ctx plan) := by
  refine .bind (Strictly.compositional.when _ ?_) fun _ =>
    .bind (uploadAndCommit_strictly _ _) fun _ => .bind (uploadAndCommit_strictly _ _) fun _ =>
    .bind (requireConfirmation_strictly _ _) fun _ => .bind (unlockAndErase_strictly _) fun _ =>
    .bind (uploadAndCommit_strictly _ _) fun _ => .bind (readFlashRange_strictly _ _) fun _ =>
    requireEqual_strictly _ _ _
  exact .bind (flashRangeMatches_strictly _ _) fun _ =>
    Strictly.compositional.when _ bootstrapTopRegion_strictly

/-! ### The whole write -/

/-- Every erase is that of the top region bootstrap: it is confirmed, and the ECU returned the wanted
bytes for the carrier window. -/
def BootstrapErased (plan : ColtPlan) : List UdsEvent → Prop :=
  ErasedAfter fun before => plan.confirmationGranted .topRegionBootstrap ∧
    ∃ l₁ range l₂, before = l₁ ++ (range ++ l₂) ∧
      Returned userspaceStart topRegionLength plan.wantedTop range

/-- Every erase is that of the userspace: it is confirmed, and both page routines are committed. -/
def UserspaceErased (plan : ColtPlan) : List UdsEvent → Prop :=
  ErasedAfter fun before => plan.confirmationGranted .eraseTrigger ∧
    ∃ l₁ l₂ unlock, before = l₁ ++ (l₂ ++ [unlock]) ∧
      Uploaded eraseRoutineRamAddr erasePageRoutine l₁ ∧
      Uploaded writeRoutineRamAddr writePageRoutine l₂

/-- The ECU returned the top region of the image, in the comparison or after the bootstrap. -/
def TopReturned (plan : ColtPlan) (events : List UdsEvent) : Prop :=
  ∃ before range after, events = before ++ (range ++ after) ∧
    Returned topRegionStart topRegionLength plan.wantedTop range

/-- The ECU returned the userspace of the image at the end. -/
def UserspaceReturned (plan : ColtPlan) (events : List UdsEvent) : Prop :=
  ∃ before range, events = before ++ range ∧
    Returned userspaceStart (plan.pageWriteEnd - userspaceStart) plan.userspace range

/-- What the part for the top region leaves, also where the plan has none. -/
theorem top_meets : Meets (fun result events => BootstrapErased plan events ∧
      (plan.includesTopRegion = false → events = []) ∧
      (result = .ok () → plan.includesTopRegion = true → TopReturned plan events))
    (when plan.includesTopRegion (ensureTopRegionWritten ctx plan)) := by
  refine .ite ?_ ?_
  · intro h
    refine (ensureTopRegionWritten_meets h).mono ?_
    rintro result events ⟨herased, hverified⟩
    rw [length_wantedTop h] at herased
    exact ⟨herased, fun h' => absurd (h.symm.trans h') (by decide), fun hresult _ => hverified hresult⟩
  · intro h
    exact .pure ⟨.of_notErase fun _ hmem => (nomatch hmem), fun _ => rfl, fun _ h' => absurd h' h⟩

/-- What a write leaves: a part for the top region, which only a plan with one has, and a part for the
rest. -/
structure WriteSpec (plan : ColtPlan) (result : Except LinkError Unit) (events : List UdsEvent) :
    Prop where
  erased : ∃ top rest, events = top ++ rest ∧ (plan.includesTopRegion = false → top = []) ∧
    BootstrapErased plan top ∧ UserspaceErased plan rest
  userspace : result = .ok () → UserspaceReturned plan events
  top : result = .ok () → plan.includesTopRegion = true → TopReturned plan events
  /-- Nothing follows an exchange that failed. -/
  strict : Strict UdsEvent.failure events result

theorem writeMem_meets : Meets (fun result events =>
      (∃ top rest, events = top ++ rest ∧ (plan.includesTopRegion = false → top = []) ∧
        BootstrapErased plan top ∧ UserspaceErased plan rest) ∧
      (result = .ok () → UserspaceReturned plan events) ∧
      (result = .ok () → plan.includesTopRegion = true → TopReturned plan events))
    (writeMem ctx plan) := by
  refine .bind_of top_meets ?_
  rintro (e | u) top ⟨herased, hnone, htop⟩
  · refine .error ⟨⟨top, [], (List.append_nil _).symm, hnone, herased, ?_⟩, fun h => (nomatch h),
      fun h => (nomatch h)⟩
    exact .of_notErase fun _ hmem => (nomatch hmem)
  · refine Then.ok (writeUserspace_meets.mono ?_)
    rintro result rest ⟨herased', hverified⟩
    refine ⟨⟨top, rest, rfl, hnone, herased, herased'⟩, ?_, ?_⟩
    · intro hresult
      obtain ⟨before, range, rfl, hrange⟩ := hverified hresult
      exact ⟨top ++ before, range, (List.append_assoc ..).symm, hrange⟩
    · intro _ hincluded
      obtain ⟨before, range, after, rfl, hrange⟩ := htop rfl hincluded
      exact ⟨before, range, after ++ rest, by simp only [List.append_assoc], hrange⟩

/-- The sum of an upload is taken modulo `2 ^ 16`. -/
theorem toNat_checksum (data : Bytes) :
    (checksum data).toNat = (data.map UInt8.toNat).sum % 65536 := by
  suffices h : ∀ sum : UInt16, (data.foldl (fun sum byte => sum + byte.toUInt16) sum).toNat =
      (sum.toNat + (data.map UInt8.toNat).sum) % 65536 by
    simpa [checksum] using h 0
  induction data with
  | nil => exact fun sum => (Nat.mod_eq_of_lt sum.toNat_lt).symm
  | cons byte data ih =>
    intro sum
    rw [List.foldl_cons, ih, List.map_cons, List.sum_cons, UInt16.toNat_add, UInt8.toNat_toUInt16]
    omega

end FastEcu.Flash.Colt
