import FastEcu.Data.Script
import FastEcu.Diagnostics.DtcTrace

/-!
# The trouble codes that a session reports

The lists of `ReadDtcs` (`src/backend/diagnostics/dtc_session.cpp`) from the frames of the ECU, which are
cut by `UnframeDtcListResponse` (`src/backend/diagnostics/obd_frames.cpp`): of a short K-line frame only the
last byte before the checksum is kept.

* `listFrame`, `Sent` : the frames that carry a list of codes, with short frames between them.
* `Listed` : the codes of a list in their order, without the zeros.
* `Leads` : what a part of a session makes of the answers that are left and of the report.
* `Reports` : a session reports what was sent.
* `reports_of_two`, `not_reports_of_one` : on K-line a frame must carry two codes.
-/

namespace FastEcu.Diagnostics

open Calibration (ErrorKind)
open Data Computation Ports

/-! ### Frames -/

/-- A frame with codes: the header, the service byte and the codes, on K-line with a checksum and otherwise
with a count before the codes. -/
def listFrame (protocol : ObdProtocol) (mode : Byte) (header : Bytes) (extra : Byte) (codes : List UInt16) :
    Bytes :=
  if protocol = .iso15765 then header ++ ((mode ||| 0x40) :: extra :: codes.flatMap beBytes16)
  else header ++ ((mode ||| 0x40) :: (codes.flatMap beBytes16 ++ [extra]))

/-- Frames that carry codes, at least `fewest` in each, and frames of at most `longest` bytes. -/
inductive Sent (protocol : ObdProtocol) (mode : Byte) (fewest longest : ℕ) : List Bytes → List UInt16 → Prop
  | nil : Sent protocol mode fewest longest [] []
  | codes {header : Bytes} {codes codes' : List UInt16} {frames : List Bytes} (extra : Byte)
      (hheader : header.length = responseIndex protocol) (hfewest : fewest ≤ codes.length)
      (rest : Sent protocol mode fewest longest frames codes') :
      Sent protocol mode fewest longest (listFrame protocol mode header extra codes :: frames)
        (codes ++ codes')
  | short {frame : Bytes} {frames : List Bytes} {codes : List UInt16} (hshort : frame.length ≤ longest)
      (rest : Sent protocol mode fewest longest frames codes) :
      Sent protocol mode fewest longest (frame :: frames) codes

theorem Sent.single {protocol : ObdProtocol} {mode : Byte} {fewest longest : ℕ} {header : Bytes}
    {codes : List UInt16} (extra : Byte) (hheader : header.length = responseIndex protocol)
    (hfewest : fewest ≤ codes.length) :
    Sent protocol mode fewest longest [listFrame protocol mode header extra codes] codes := by
  have h := Sent.codes extra hheader hfewest (.nil : Sent protocol mode fewest longest [] [])
  rwa [List.append_nil] at h

/-- The fewest codes that a frame must carry: of a K-line frame with one code a byte is dropped. -/
def fewestCodes (protocol : ObdProtocol) : ℕ := if protocol = .iso15765 then 1 else 2

/-- The longest short frame that has no data: on K-line the byte before the last one would be data. -/
def longestShort (protocol : ObdProtocol) : ℕ := if protocol = .iso15765 then 4 else 1

/-- The list of the codes that are not zero, in their order and each as often as it was sent. -/
def Listed (codes reported : List UInt16) : Prop :=
  reported.Pairwise (· ≤ ·) ∧ reported.Perm (codes.filter (· ≠ 0))

/-! ### Codes in bytes -/

theorem length_flatMap_beBytes16 (codes : List UInt16) :
    (codes.flatMap beBytes16).length = 2 * codes.length := by
  induction codes with
  | nil => rfl
  | cons code codes ih =>
    rw [List.flatMap_cons, List.length_append, ih, List.length_cons]
    simp only [beBytes16, List.length_cons, List.length_nil]
    omega

theorem readU16Be_beBytes16 (code : UInt16) (l : Bytes) : readU16Be (beBytes16 code ++ l) 0 = code := by
  have hfits : fitsAt (beBytes16 code ++ l) 0 2 = true := by
    rw [fitsAt_iff]
    simp [beBytes16]
  rw [readU16Be, if_pos hfits]
  exact wordBe16_byteOf code

theorem readU16Be_skip (code : UInt16) (l : Bytes) (i : ℕ) :
    readU16Be (beBytes16 code ++ l) (2 * (i + 1)) = readU16Be l (2 * i) := by
  have hfits : fitsAt (beBytes16 code ++ l) (2 * (i + 1)) 2 = fitsAt l (2 * i) 2 := by
    rw [Bool.eq_iff_iff, fitsAt_iff, fitsAt_iff]
    simp only [beBytes16, List.length_append, List.length_cons, List.length_nil]
    omega
  rw [readU16Be, readU16Be, hfits]
  rfl

/-- The words of the bytes of codes are the codes. -/
theorem map_readU16Be (codes : List UInt16) :
    ((List.range codes.length).map fun i => readU16Be (codes.flatMap beBytes16) (2 * i)) = codes := by
  induction codes with
  | nil => rfl
  | cons code codes ih =>
    rw [List.length_cons, List.range_succ_eq_map, List.map_cons, List.map_map, List.flatMap_cons]
    refine congrArg₂ List.cons (readU16Be_beBytes16 code _) ?_
    refine Eq.trans ?_ ih
    exact List.map_congr_left fun i _ => readU16Be_skip code _ i

/-- **The codes of their bytes**. -/
theorem decodeDtcs_listed (codes : List UInt16) : Listed codes (decodeDtcs (codes.flatMap beBytes16)) := by
  have hcount : ((codes.flatMap beBytes16).length + 1) / 2 = codes.length := by
    rw [length_flatMap_beBytes16]
    omega
  rw [decodeDtcs, hcount, map_readU16Be]
  refine ⟨?_, List.mergeSort_perm _ _⟩
  have hsorted := @List.pairwise_mergeSort _ (fun a b : UInt16 => decide (a ≤ b))
    (fun a b c hab hbc => by
      simp only [decide_eq_true_eq] at *
      exact UInt16.le_trans hab hbc)
    (fun a b => by
      simp only [Bool.or_eq_true, decide_eq_true_eq]
      exact UInt16.le_total a b)
    (codes.filter (· ≠ 0))
  simpa only [decide_eq_true_eq] using hsorted

/-! ### What is taken of a frame -/

section Unframe

variable {protocol : ObdProtocol} {mode extra : Byte} {header : Bytes} {codes : List UInt16}

/-- A frame of the ECU passes the check, whatever it carries. -/
theorem checkResponse_listFrame (hheader : header.length = responseIndex protocol)
    (hmode : mode ||| 0x40 ≠ 0x7F) :
    checkResponse protocol (listFrame protocol mode header extra codes) mode none = .ok := by
  have hservice : byteAt (listFrame protocol mode header extra codes) (responseIndex protocol) =
      mode ||| 0x40 := by
    rw [← hheader, listFrame]
    split <;> simp [byteAt]
  have hlong : ¬(listFrame protocol mode header extra codes).length ≤ responseIndex protocol := by
    rw [← hheader, listFrame]
    split <;> simp
  rw [checkResponse]
  simp only [if_neg hlong, hservice, if_neg hmode, ne_eq, not_true_eq_false, if_false]

/-- The data of a frame are its codes, on K-line if there are two. -/
theorem unframe_listFrame (hheader : header.length = responseIndex protocol)
    (hfewest : protocol = .iso15765 ∨ 2 ≤ codes.length) :
    unframeDtcListResponse protocol (listFrame protocol mode header extra codes) =
      codes.flatMap beBytes16 := by
  rw [unframeDtcListResponse, listFrame]
  split
  · rw [← hheader, List.drop_length_add_append]
    rfl
  · rename_i hprotocol
    have htwo := hfewest.resolve_left hprotocol
    rw [responseIndex, if_neg hprotocol] at hheader
    have hbody : withoutChecksum (header ++ ((mode ||| 0x40) :: (codes.flatMap beBytes16 ++ [extra]))) =
        header ++ ((mode ||| 0x40) :: codes.flatMap beBytes16) := by
      rw [withoutChecksum, ← List.cons_append, ← List.append_assoc, List.dropLast_concat]
    have hlength : ¬(header ++ ((mode ||| 0x40) :: codes.flatMap beBytes16)).length < 7 := by
      rw [List.length_append, List.length_cons, length_flatMap_beBytes16]
      omega
    rw [unframeKline]
    simp only [hbody]
    rw [if_neg (by simp), if_neg hlength, show 4 = header.length + 1 by omega,
      List.drop_length_add_append]
    rfl

/-- A short frame has no data, on K-line if it has at most one byte. -/
theorem unframe_short {frame : Bytes} (hshort : frame.length ≤ longestShort protocol) :
    checkResponse protocol frame mode none = .short ∧ unframeDtcListResponse protocol frame = [] := by
  rw [longestShort] at hshort
  refine ⟨if_pos ?_, ?_⟩
  · rw [responseIndex]
    split at hshort
    · rw [if_pos ‹_›]
      exact hshort
    · rw [if_neg ‹_›]
      omega
  · rw [unframeDtcListResponse]
    split
    · rename_i hprotocol
      rw [if_pos hprotocol] at hshort
      rw [responseIndex, if_pos hprotocol, List.drop_eq_nil_iff]
      omega
    · rename_i hprotocol
      rw [if_neg hprotocol] at hshort
      -- the only byte would be the checksum
      have hbody : withoutChecksum frame = [] := by
        rw [withoutChecksum, ← List.length_eq_zero_iff, List.length_dropLast]
        omega
      simp [unframeKline, hbody]

end Unframe

/-! ### Parts of a session -/

section Leads

variable {α β : Type} {answers answers' answers'' : List (Except LinkError (Option Bytes))}
  {r r' r'' : DtcReport}

/-- The answers that are left and the report so far. -/
def At (answers : List (Except LinkError (Option Bytes))) (r : DtcReport) (s : SessionState) : Prop :=
  s.script.map (·.result) = answers ∧ s.report = r

/-- The part gives the value, and leaves the other answers and the other report. -/
def Leads (m : Run α) (answers : List (Except LinkError (Option Bytes))) (r : DtcReport) (a : α)
    (answers' : List (Except LinkError (Option Bytes))) (r' : DtcReport) : Prop :=
  ∀ s, At answers r s → ∃ s', Returns m s a s' ∧ At answers' r' s'

theorem Leads.pure (a : α) : Leads (pure a) answers r a answers r := fun s hs => ⟨s, .pure a s, hs⟩

theorem Leads.bind {m : Run α} {f : α → Run β} {a : α} {b : β} (hm : Leads m answers r a answers' r')
    (hf : Leads (f a) answers' r' b answers'' r'') : Leads (m >>= f) answers r b answers'' r'' := by
  intro s hs
  obtain ⟨s', hreturns, hs'⟩ := hm s hs
  obtain ⟨s'', hreturns', hs''⟩ := hf s' hs'
  exact ⟨s'', hreturns.bind hreturns', hs''⟩

/-- The next answer is the first one. -/
theorem At.next {result : Except LinkError (Option Bytes)} {s : SessionState}
    (h : At (result :: answers) r s) : s.next.result = result ∧ At answers r s.advance := by
  obtain ⟨hscript, hreport⟩ := h
  obtain ⟨answer, rest, hs, rfl, hrest⟩ := List.map_eq_cons_iff.1 hscript
  refine ⟨?_, ?_, hreport⟩
  · rw [SessionState.next, hs]
    rfl
  · rw [SessionState.advance, hs]
    exact hrest

theorem Leads.checked (call : Call) (value : Option Bytes) :
    Leads (checked call) (.ok value :: answers) r value answers r := by
  intro s hs
  obtain ⟨hnext, hadvance⟩ := hs.next
  exact ⟨_, ⟨hnext, rfl⟩, hadvance⟩

theorem Leads.log (level : LogLevel) (message : String) :
    Leads (log level message) answers r () answers r :=
  fun _ hs => ⟨_, ⟨rfl, rfl⟩, hs⟩

theorem Leads.report (f : DtcReport → DtcReport) :
    Leads (Diagnostics.report f) answers r () answers (f r) :=
  fun s hs => ⟨{ s with report := f s.report }, ⟨rfl, rfl⟩, hs.1, congrArg f hs.2⟩

theorem Leads.each_log (message : UInt16 → String) (codes : List UInt16) :
    Leads (each codes fun code => Diagnostics.log .info (message code)) answers r () answers r := by
  induction codes with
  | nil => exact .pure ()
  | cons code codes ih => exact (Leads.log .info (message code)).bind ih

end Leads

/-! ### A list -/

section List

variable {tables : CodeTables} {request : DtcRequest} {mode : Byte} {frames : List Bytes}
  {codes : List UInt16} {answers : List (Except LinkError (Option Bytes))} {r : DtcReport}

/-- The frames of the ECU, and the silence after them. -/
def heard (frames : List Bytes) : List (Except LinkError (Option Bytes)) :=
  frames.map (fun frame => .ok (some frame)) ++ [.ok none]

/-- A frame that does not end the loop. -/
theorem frameLoop_leads_frame {α : Type} {step : α → Bytes → FrameStep α} {a b c : α} {frame : Bytes}
    {answers' : List (Except LinkError (Option Bytes))} {fuel : ℕ} (hstep : step a frame = ⟨b, true, none⟩)
    (hrest : Leads (frameLoop step fuel b) answers r c answers' r) :
    Leads (frameLoop step (fuel + 1) a) (.ok (some frame) :: answers) r c answers' r := by
  intro s hs
  obtain ⟨hnext, hadvance⟩ := hs.next
  obtain ⟨s', hreturns, hs'⟩ := hrest _ hadvance
  refine ⟨s', ?_, hs'⟩
  rw [Returns, frameLoop_of_frame hnext, hstep, if_pos rfl]
  exact hreturns

theorem frameLoop_leads_deadline {α : Type} (step : α → Bytes → FrameStep α) (a : α) (fuel : ℕ) :
    Leads (frameLoop step (fuel + 1) a) (.ok none :: answers) r a answers r := by
  intro s hs
  obtain ⟨hnext, hadvance⟩ := hs.next
  refine ⟨s.advance, ?_, hadvance⟩
  rw [Returns, frameLoop_of_deadline hnext]
  exact ⟨rfl, rfl⟩

/-- **The frames of a list** are collected to the bytes of their codes. -/
theorem frameLoop_leads (hmode : mode ||| 0x40 ≠ 0x7F)
    (hsent : Sent request.protocol mode (fewestCodes request.protocol) (longestShort request.protocol)
      frames codes) {fuel : ℕ} (hfuel : frames.length < fuel) (response : Bytes) :
    Leads (frameLoop (requestStep tables request mode none true) fuel response) (heard frames ++ answers) r
      (response ++ codes.flatMap beBytes16) answers r := by
  obtain ⟨fuel, rfl⟩ : ∃ n, fuel = n + 1 := ⟨fuel - 1, by omega⟩
  induction hsent generalizing fuel response with
  | nil =>
    rw [List.flatMap_nil, List.append_nil]
    exact frameLoop_leads_deadline _ response fuel
  | @codes header codes codes' frames extra hheader hfewest rest ih =>
    rw [List.length_cons] at hfuel
    obtain ⟨fuel, rfl⟩ : ∃ n, fuel = n + 1 := ⟨fuel - 1, by omega⟩
    have htwo : request.protocol = .iso15765 ∨ 2 ≤ codes.length := by
      rw [fewestCodes] at hfewest
      split at hfewest
      · exact .inl ‹_›
      · exact .inr hfewest
    rw [List.flatMap_append, ← List.append_assoc]
    refine frameLoop_leads_frame ?_ (ih _ fuel (by omega))
    simp only [requestStep, checkResponse_listFrame hheader hmode, if_true, unframe_listFrame hheader htwo]
  | @short frame frames codes hshort rest ih =>
    rw [List.length_cons] at hfuel
    obtain ⟨fuel, rfl⟩ : ∃ n, fuel = n + 1 := ⟨fuel - 1, by omega⟩
    obtain ⟨hcheck, hdata⟩ := @unframe_short request.protocol mode frame hshort
    refine frameLoop_leads_frame ?_ (ih response fuel (by omega))
    simp only [requestStep, hcheck, if_true, hdata, List.append_nil]

/-- What the link answers to the request for a list: the frames are heard after the write, and the sleep
follows. -/
def listAnswers (written slept : Option Bytes) (frames : List Bytes) :
    List (Except LinkError (Option Bytes)) :=
  .ok written :: (heard frames ++ [.ok slept])

/-- What the loop collects is what the request gives. -/
theorem sendRequest_leads {pid : Option Byte} {dtcList : Bool} {data : Bytes} (written : Option Bytes)
    (hloop : ∀ fuel, frames.length < fuel →
      Leads (frameLoop (requestStep tables request mode pid dtcList) fuel []) (heard frames ++ answers) r
        data answers r) :
    Leads (sendRequest tables request mode pid dtcList) (.ok written :: (heard frames ++ answers)) r data
      answers r := by
  refine (Leads.checked _ written).bind ?_
  intro s hs
  have hfuel : frames.length < s.script.length + 1 := by
    have hlength := congrArg List.length hs.1
    simp only [heard, List.length_map, List.length_append, List.length_cons, List.length_nil] at hlength
    omega
  exact hloop _ hfuel s hs

/-- Data that is not empty is put into the report. -/
theorem readList_leads {list : DtcList} {data : Bytes} (hdata : data ≠ []) (written slept : Option Bytes)
    (hloop : ∀ answers fuel, frames.length < fuel →
      Leads (frameLoop (requestStep tables request list.mode none true) fuel []) (heard frames ++ answers) r
        data answers r) :
    Leads (readList tables request list) (listAnswers written slept frames ++ answers) r () answers
      (list.set (decodeDtcs data) r) := by
  have hresponse : ¬data.isEmpty := by simpa using hdata
  rw [listAnswers, List.cons_append, List.append_assoc]
  refine (sendRequest_leads written (hloop _)).bind ?_
  rw [if_neg hresponse]
  refine (Leads.log _ _).bind ((Leads.report _).bind ((Leads.each_log _ _).bind ?_))
  exact (Leads.checked _ slept).bind (.pure ())

/-- **A list of codes** is put into the report. -/
theorem readList_sent (list : DtcList) (hmode : list.mode ||| 0x40 ≠ 0x7F)
    (hsent : Sent request.protocol list.mode (fewestCodes request.protocol) (longestShort request.protocol)
      frames codes) (hne : codes ≠ []) (written slept : Option Bytes) :
    Leads (readList tables request list) (listAnswers written slept frames ++ answers) r () answers
      (list.set (decodeDtcs (codes.flatMap beBytes16)) r) := by
  have hdata : codes.flatMap beBytes16 ≠ [] := by
    obtain ⟨code, codes, rfl⟩ := List.exists_cons_of_ne_nil hne
    simp [beBytes16]
  exact readList_leads hdata written slept fun _ _ hfuel => frameLoop_leads hmode hsent hfuel []

/-- Without codes a list is missed. -/
theorem readList_fails (list : DtcList) (hmode : list.mode ||| 0x40 ≠ 0x7F)
    (hsent : Sent request.protocol list.mode (fewestCodes request.protocol) (longestShort request.protocol)
      frames []) {written slept : Option Bytes} {s : SessionState}
    (hs : At (listAnswers written slept frames ++ answers) r s) :
    (readList tables request list s).result ≠ .ok () := by
  rw [listAnswers, List.cons_append, List.append_assoc] at hs
  obtain ⟨s', ⟨hresult, -⟩, -⟩ := @sendRequest_leads tables request list.mode frames _ r _ _ _ written
    (fun _ hfuel => frameLoop_leads hmode hsent hfuel []) s hs
  rw [readList, bind_of_ok hresult]
  exact fun h => by cases h

/-- A list that was read is in the report. -/
theorem readList_of_ok (list : DtcList) (hmode : list.mode ||| 0x40 ≠ 0x7F)
    (hsent : Sent request.protocol list.mode (fewestCodes request.protocol) (longestShort request.protocol)
      frames codes) {written slept : Option Bytes} {s : SessionState}
    (hs : At (listAnswers written slept frames ++ answers) r s)
    (hok : (readList tables request list s).result = .ok ()) :
    At answers (list.set (decodeDtcs (codes.flatMap beBytes16)) r)
      (readList tables request list s).state := by
  have hne : codes ≠ [] := by
    rintro rfl
    exact readList_fails list hmode hsent hs hok
  obtain ⟨s', ⟨-, rfl⟩, hs'⟩ := readList_sent list hmode hsent hne written slept s hs
  exact hs'

end List

/-! ### A session -/

section Session

variable {tables : CodeTables} {request : DtcRequest} {stored pending : List UInt16}
  {storedFrames pendingFrames : List Bytes} {script : List Answer}
  {answers rest : List (Except LinkError (Option Bytes))} {s : SessionState}

/-- Both lists are asked for, and answered with the frames. -/
def bothAnswers (written slept : Option Bytes) (storedFrames pendingFrames : List Bytes)
    (rest : List (Except LinkError (Option Bytes))) : List (Except LinkError (Option Bytes)) :=
  listAnswers written slept storedFrames ++ (listAnswers written slept pendingFrames ++ rest)

/-- The session comes to the lists, with these answers left. -/
def Ready (tables : CodeTables) (request : DtcRequest) (script : List Answer)
    (answers : List (Except LinkError (Option Bytes))) : Prop :=
  ∃ s r, Returns (init tables request >>= fun _ => vehicleInfo tables request) ⟨script, {}, []⟩ () s ∧
    At answers r s

/-- What a session returns is decided from there on. -/
theorem runDtcSession_of_returns
    (h : Returns (init tables request >>= fun _ => vehicleInfo tables request) ⟨script, {}, []⟩ () s) :
    (runDtcSession tables request script).result =
      (operation tables request s).result.map fun _ => (operation tables request s).state.report := by
  obtain ⟨hresult, rfl⟩ := h
  obtain ⟨_, hinit, hvehicle, -, hstate⟩ := bind_eq_ok hresult
  obtain ⟨hbody, hbody'⟩ :
      (body tables request ⟨script, {}, []⟩).result = (operation tables request _).result ∧
      (body tables request ⟨script, {}, []⟩).state = (operation tables request _).state := by
    rw [body_eq, bind_of_ok hinit, afterInit, bind_of_ok hvehicle, ← hstate]
    exact ⟨rfl, rfl⟩
  have hreport : (epilogue (body tables request ⟨script, {}, []⟩).state).state.report =
      (body tables request ⟨script, {}, []⟩).state.report := rfl
  change ((body tables request ⟨script, {}, []⟩).result.map
    fun _ => (epilogue (body tables request ⟨script, {}, []⟩).state).state.report) = _
  rw [hreport, hbody, hbody']

/-- A clear after the lists leaves them in the report. -/
theorem Admits.keepsLists (stored pending : List UInt16) :
    Admits (Keeps fun s => s.report.stored = stored ∧ s.report.pending = pending) (fun _ => True)
      (fun f => ∀ r, (f r).stored = r.stored ∧ (f r).pending = r.pending) where
  toCompositional := Keeps.compositional
  checked _ _ hs := hs
  ignored _ _ _ hs := hs
  log _ _ _ hs := hs
  report hf s hs := ⟨(hf s.report).1.trans hs.1, (hf s.report).2.trans hs.2⟩

/-- The lists of the report are the codes that were sent. -/
def ReportsCodes (stored pending : List UInt16) (r : DtcReport) : Prop :=
  r.stored = decodeDtcs (stored.flatMap beBytes16) ∧ r.pending = decodeDtcs (pending.flatMap beBytes16)

section Lists

variable {written slept : Option Bytes} {r : DtcReport}
  (hstored : Sent request.protocol kStoredDtcs (fewestCodes request.protocol)
    (longestShort request.protocol) storedFrames stored)
  (hpending : Sent request.protocol kPendingDtcs (fewestCodes request.protocol)
    (longestShort request.protocol) pendingFrames pending)
  (hs : At (bothAnswers written slept storedFrames pendingFrames rest) r s)

include hstored hpending hs

theorem readDtcs_sent (hne : stored ≠ []) (hne' : pending ≠ []) :
    (readDtcs tables request s).result = .ok () := by
  obtain ⟨s₁, hreturns₁, hs₁⟩ :=
    @readList_sent tables _ _ _ _ _ storedList (by decide) hstored hne written slept s hs
  obtain ⟨s₂, hreturns₂, hs₂⟩ :=
    @readList_sent tables _ _ _ _ _ pendingList (by decide) hpending hne' written slept s₁ hs₁
  exact (hreturns₁.bind (hreturns₂.bind ⟨rfl, rfl⟩)).1

/-- Lists that were read are in the report. -/
theorem readDtcs_of_ok (hok : (readDtcs tables request s).result = .ok ()) :
    ReportsCodes stored pending (readDtcs tables request s).state.report := by
  rw [readDtcs] at hok ⊢
  obtain ⟨_, hok₁, hok', -, hstate⟩ := bind_eq_ok hok
  obtain ⟨_, hok₂, -, -, hstate'⟩ := bind_eq_ok hok'
  have hs₁ := readList_of_ok storedList (by decide) hstored hs hok₁
  have hs₂ := readList_of_ok pendingList (by decide) hpending hs₁ hok₂
  rw [hstate, hstate']
  change ReportsCodes stored pending
    (readList tables request pendingList (readList tables request storedList s).state).state.report
  rw [hs₂.2]
  exact ⟨rfl, rfl⟩

/-- What an operation that succeeds has in its report. -/
theorem operation_of_ok (hok : (operation tables request s).result = .ok ()) :
    ReportsCodes stored pending (operation tables request s).state.report := by
  rw [operation] at hok ⊢
  split at hok
  · rw [if_pos ‹_›]
    exact readDtcs_of_ok hstored hpending hs hok
  · rw [if_neg ‹_›]
    rw [clearDtcs] at hok ⊢
    obtain ⟨_, hread, -, -, hstate⟩ := bind_eq_ok hok
    rw [hstate]
    have hreports := readDtcs_of_ok hstored hpending hs hread
    -- nothing after the lists changes them
    have hkeeps := Admits.keepsLists (decodeDtcs (stored.flatMap beBytes16))
      (decodeDtcs (pending.flatMap beBytes16))
    have hcleared : ∀ r : DtcReport, ({ r with cleared := true } : DtcReport).stored = r.stored ∧
        ({ r with cleared := true } : DtcReport).pending = r.pending := fun r => ⟨rfl, rfl⟩
    exact hkeeps.bind (hkeeps.checked trivial) (fun _ => hkeeps.acknowledge (fun _ _ => trivial) hcleared)
      _ hreports

end Lists

/-- **A session reports what was sent**: of frames that carry at least `fewest` codes each and of shorter
frames of at most `longest` bytes between them, the stored and the pending codes are listed, and a session
that reads succeeds when there are any. -/
def Reports (fewest longest : ObdProtocol → ℕ) : Prop :=
  ∀ (tables : CodeTables) (request : DtcRequest) (script : List Answer) (stored pending : List UInt16)
    (storedFrames pendingFrames : List Bytes) (written slept : Option Bytes)
    (rest : List (Except LinkError (Option Bytes))),
    Sent request.protocol kStoredDtcs (fewest request.protocol) (longest request.protocol) storedFrames
      stored →
    Sent request.protocol kPendingDtcs (fewest request.protocol) (longest request.protocol) pendingFrames
      pending →
    Ready tables request script (bothAnswers written slept storedFrames pendingFrames rest) →
    (request.operation = .read → stored ≠ [] → pending ≠ [] →
      ∃ r, (runDtcSession tables request script).result = .ok r) ∧
    ∀ r, (runDtcSession tables request script).result = .ok r →
      Listed stored r.stored ∧ Listed pending r.pending

/-- **Every session reports the codes**, when a K-line frame carries two codes and a shorter one has at most
one byte. -/
theorem reports_of_two : Reports fewestCodes longestShort := by
  intro tables request script stored pending storedFrames pendingFrames written slept rest hstored hpending
  rintro ⟨s, r, hreturns, hs⟩
  have hrun := runDtcSession_of_returns hreturns
  refine ⟨fun hread hne hne' => ?_, fun report hreport => ?_⟩
  · have hok : (operation tables request s).result = .ok () := by
      rw [operation, if_pos hread]
      exact readDtcs_sent hstored hpending hs hne hne'
    exact ⟨_, by rw [hrun, hok]; rfl⟩
  · cases hoperation : (operation tables request s).result with
    | error e =>
      rw [hrun, hoperation] at hreport
      cases hreport
    | ok a =>
      obtain ⟨hfirst, hsecond⟩ := operation_of_ok hstored hpending hs hoperation
      rw [hrun, hoperation] at hreport
      cases hreport
      rw [hfirst, hsecond]
      exact ⟨decodeDtcs_listed stored, decodeDtcs_listed pending⟩

/-! ### One code in a frame -/

/-- A request that no frame follows. -/
def unanswered : List (Except LinkError (Option Bytes)) := List.replicate 3 (.ok none)

theorem sendRequest_unanswered (mode : Byte) (pid : Option Byte) (dtcList : Bool) (r : DtcReport) :
    Leads (sendRequest tables request mode pid dtcList) (.ok none :: .ok none :: answers) r [] answers
      r := by
  refine @sendRequest_leads tables request mode [] answers r pid dtcList [] none fun fuel hfuel => ?_
  obtain ⟨fuel, rfl⟩ : ∃ n, fuel = n + 1 := ⟨fuel - 1, by omega⟩
  exact frameLoop_leads_deadline _ [] fuel

theorem each_unanswered {β : Type} {f : β → Run Unit} (r : DtcReport)
    (hf : ∀ b answers, Leads (f b) (unanswered ++ answers) r () answers r) (l : List β) :
    Leads (each l f) (l.flatMap (fun _ => unanswered) ++ answers) r () answers r := by
  induction l with
  | nil => exact .pure ()
  | cons b l ih =>
    rw [List.flatMap_cons, List.append_assoc]
    exact (hf b _).bind ih

/-- The answers of an ECU that does not say anything about the vehicle. -/
def vehicleAnswers (answers : List (Except LinkError (Option Bytes))) :
    List (Except LinkError (Option Bytes)) :=
  .ok none :: (kSupportPages.flatMap (fun _ => unanswered) ++
    (kItems.flatMap (fun _ => unanswered) ++ answers))

theorem vehicleInfo_unanswered (r : DtcReport) :
    Leads (vehicleInfo tables request) (vehicleAnswers answers) r () answers r := by
  have hslept : ∀ answers, Leads (sleep kBetweenRequests) (.ok none :: answers) r () answers r :=
    fun answers => (Leads.checked _ none).bind (.pure ())
  have hpage : ∀ page answers,
      Leads (supportPage tables request page) (unanswered ++ answers) r () answers r := by
    intro page answers
    exact Leads.bind (sendRequest_unanswered _ _ _ r) (.bind (.pure ()) (hslept answers))
  have hitem : ∀ item answers,
      Leads (vehicleItem tables request item) (unanswered ++ answers) r () answers r := by
    intro item answers
    exact Leads.bind (sendRequest_unanswered _ _ _ r) (.bind (.pure ()) (hslept answers))
  refine (Leads.log _ _).bind (.bind (.bind (.checked _ none) (.pure ())) ?_)
  exact (each_unanswered r hpage _).bind (each_unanswered r hitem _)

/-- The answers to a five baud initialisation of ISO 9141. -/
def initAnswers : List Answer := [{}, {}, { result := .ok (some [0x55, 0x08, 0x08]) }, {}, {}]

theorem fiveBaud_answered (tail : List Answer) :
    ∃ s, Returns (fiveBaud .iso9141) ⟨initAnswers ++ tail, {}, []⟩ () s ∧ s.script = tail ∧
      s.report = {} := by
  refine ⟨_, ⟨?_, rfl⟩, ?_, ?_⟩
  · rfl
  · rfl
  · rfl

/-- The script of a session with these frames. -/
def scriptOf (storedFrames pendingFrames : List Bytes) : List Answer :=
  initAnswers ++
    (vehicleAnswers (bothAnswers none none storedFrames pendingFrames [])).map (Answer.mk · false)

/-- A read of the codes on ISO 9141. -/
def readRequest : DtcRequest := { protocol := .iso9141, operation := .read }

/-- The session comes to the lists. -/
theorem ready_scriptOf (tables : CodeTables) (storedFrames pendingFrames : List Bytes) :
    Ready tables readRequest (scriptOf storedFrames pendingFrames)
      (bothAnswers none none storedFrames pendingFrames []) := by
  obtain ⟨s, hinit, hscript, hreport⟩ := fiveBaud_answered
    ((vehicleAnswers (bothAnswers none none storedFrames pendingFrames [])).map (Answer.mk · false))
  have hs : At (vehicleAnswers (bothAnswers none none storedFrames pendingFrames [])) {} s := by
    refine ⟨?_, hreport⟩
    rw [hscript, List.map_map]
    exact List.map_id _
  obtain ⟨s', hvehicle, hs'⟩ := @vehicleInfo_unanswered tables readRequest _ {} s hs
  exact ⟨s', {}, Returns.bind (a := ()) hinit hvehicle, hs'⟩

/-- A K-line frame with one code, 0133. -/
def singleFrame : Bytes := listFrame .iso9141 kStoredDtcs [0x48, 0x6B, 0x10] 0xCC [0x0133]

/-- A K-line frame with two codes. -/
def doubleFrame (mode : Byte) : Bytes := listFrame .iso9141 mode [0x48, 0x6B, 0x10] 0xCC [0x0133, 0x0244]

/-- No code has a text. -/
def noTables : CodeTables := ⟨fun _ => none, fun _ => none, fun _ => none, fun _ => none, fun _ => none⟩

/-- Of the frame with one code the last byte is collected. -/
theorem singleFrame_leads (r : DtcReport) (fuel : ℕ) (hfuel : [singleFrame].length < fuel) :
    Leads (frameLoop (requestStep noTables readRequest kStoredDtcs none true) fuel [])
      (heard [singleFrame] ++ answers) r [0x33] answers r := by
  rw [List.length_singleton] at hfuel
  obtain ⟨fuel, rfl⟩ : ∃ n, fuel = n + 2 := ⟨fuel - 2, by omega⟩
  exact frameLoop_leads_frame rfl (frameLoop_leads_deadline _ _ fuel)

theorem decodeDtcs_odd : decodeDtcs [0x33] = [] := by
  have hwords : (((List.range ((([0x33] : Bytes).length + 1) / 2)).map
      fun i => readU16Be [0x33] (2 * i)).filter (· ≠ 0)) = [] := by decide
  rw [decodeDtcs]
  simp only [hwords, List.mergeSort_nil]

/-- **A code that is sent alone is lost**: of its frame only the last byte is kept. -/
theorem not_reports_of_one : ¬Reports (fun _ => 1) responseIndex := by
  intro h
  have hstored : Sent .iso9141 kStoredDtcs 1 3 [singleFrame] [0x0133] :=
    .single 0xCC rfl (by decide)
  have hpending : Sent .iso9141 kPendingDtcs 1 3 [doubleFrame kPendingDtcs] [0x0133, 0x0244] :=
    .single 0xCC rfl (by decide)
  have hpending' : Sent .iso9141 kPendingDtcs 2 1 [doubleFrame kPendingDtcs] [0x0133, 0x0244] :=
    .single 0xCC rfl (by decide)
  have hready := ready_scriptOf noTables [singleFrame] [doubleFrame kPendingDtcs]
  obtain ⟨s, r, hreturns, hs⟩ := id hready
  obtain ⟨s₁, hreturns₁, hs₁⟩ := @readList_leads noTables readRequest [singleFrame] _ r storedList [0x33]
    (by decide) none none (fun _ => singleFrame_leads r) s hs
  obtain ⟨s₂, hreturns₂, hs₂⟩ :=
    @readList_sent noTables readRequest _ _ _ _ pendingList (by decide) hpending' (by decide) none none
      s₁ hs₁
  have hread : Returns (readDtcs noTables readRequest) s () { s₂ with log := _ } :=
    hreturns₁.bind (hreturns₂.bind ⟨rfl, rfl⟩)
  have hoperation : operation noTables readRequest = readDtcs noTables readRequest := if_pos rfl
  have hrun := runDtcSession_of_returns hreturns
  rw [hoperation, hread.1, hread.2, hs₂.2] at hrun
  obtain ⟨⟨-, hperm⟩, -⟩ := (h noTables readRequest _ _ _ _ _ _ _ [] hstored hpending hready).2 _ hrun
  have hlength := hperm.length_eq
  change (decodeDtcs [0x33]).length = 1 at hlength
  rw [decodeDtcs_odd] at hlength
  cases hlength

/-- Two codes in a frame of each list are reported. -/
theorem reports_of_two_session : ∃ r,
    (runDtcSession noTables readRequest
      (scriptOf [doubleFrame kStoredDtcs] [doubleFrame kPendingDtcs])).result = .ok r ∧
    Listed [0x0133, 0x0244] r.stored ∧ Listed [0x0133, 0x0244] r.pending := by
  have hsent : ∀ mode, Sent .iso9141 mode 2 1 [doubleFrame mode] [0x0133, 0x0244] :=
    fun mode => .single 0xCC rfl (by decide)
  obtain ⟨hsucceeds, hlists⟩ := reports_of_two noTables readRequest _ _ _ _ _ _ _ [] (hsent kStoredDtcs)
    (hsent kPendingDtcs) (ready_scriptOf noTables _ _)
  obtain ⟨r, hr⟩ := hsucceeds rfl (by decide) (by decide)
  exact ⟨r, hr, hlists r hr⟩

end Session

end FastEcu.Diagnostics
