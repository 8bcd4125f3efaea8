import FastEcu.Checksum.Diesel
import FastEcu.Checksum.Families
import FastEcu.Checksum.WriteBack

/-!
# Choosing a checksum family and applying its correction

`ApplyChecksumCorrection` (`src/backend/checksum/dispatch.cpp`).  The make and the flash method of
the selected vehicle choose a route; the family runs on the bytes of the route's window, and what it
changes goes back into a copy of the ROM file through the memory map.

* `length_execute` : a family gives back as many bytes as it was given.
* `applyChecksumCorrection_cases` : no corrected file, or the whole family result written back.
-/

namespace FastEcu.Checksum

open Memory

/-- What the user selected. -/
structure ChecksumSelection where
  /-- The make of the selected vehicle. -/
  make : String
  /-- The checksum flag of the selected vehicle. -/
  checksumFlag : String
  /-- The protocol name of the selected vehicle. -/
  flashMethod : String
  /-- The MCU of the session's protocol. -/
  mcuType : String
  /-- The ROM ID of the session's protocol. -/
  romId : String

/-- `ChecksumCorrectionOutcome::Status`. -/
inductive CorrectionStatus
  | unknownMcuType
  | badRomSize
  | noModuleForProtocol
  | familyRan
deriving DecidableEq, Repr

/-- The outcome of a correction. -/
structure ChecksumCorrectionOutcome where
  /-- How far it got. -/
  status : CorrectionStatus := .noModuleForProtocol
  /-- What the family reported. -/
  familyResult : Option ChecksumResult := none
  /-- The ROM file after the correction. -/
  correctedFile : Option Bytes := none

/-! ### Devices and routes -/

/-- The names of `kFlashDevices`. -/
def flashDevices : List String :=
  ["M32R_128KB", "M32R_256KB", "M32R_384KB", "M32R_512KB", "M32R_512KB_1block",
    "M32R_512KB_4blocks", "M32R_384KB_1block", "MC68HC16Y5", "MC68HC16Y5_TPU", "SH7051", "SH7055",
    "SH7058", "SH7058_1block", "SH7058d", "SH7059d", "SH72543d", "SH72531", "N83M_4MB",
    "N83M_1_5MB", "SH72543R", "MH8104", "MH5006", "MH8111", "M3779x", "M3775x"]

/-- `FindFlashDevice`, by name. -/
def findFlashDevice (mcuType : String) : Option String := flashDevices.find? (· == mcuType)

/-- `StartsWith`. -/
def startsWith (value start : String) : Bool :=
  value.toList.take start.toList.length == start.toList

/-- `Route`. -/
inductive Route
  | densoSh7xxx
  | densoDiesel
  | densoTcuSh7055
  | m32rByRomId
  | m32rCan
  | sh7058
  | sh72543r
  | hitachiM32rTcu
  | mitsuMh8104Tcu
  | mitsuColtM32rCan
deriving DecidableEq, Repr

/-- `EcuWindow`. -/
def ecuWindow (start size : ℕ) (h : 0 < size ∧ start + size < u32Size := by decide) :
    AddressRange FlashSpace where
  start := ⟨start, by omega⟩
  size := ⟨size, by omega⟩
  size_pos := h.1
  fits := h.2

/-- `RouteSpec`. -/
structure RouteSpec where
  /-- The start of the protocol names. -/
  protocolStart : String
  /-- The make the route belongs to. -/
  make : String
  /-- The family. -/
  route : Route
  /-- The ECU addresses the family checksums. -/
  window : AddressRange FlashSpace
  /-- The ECU address of the Denso checksum table. -/
  tableAddress : FlashAddress := ⟨0, u32Size_pos⟩

/-- `kRoutes`: the first match wins. -/
def routes : List RouteSpec :=
  [⟨"sub_ecu_denso_sh7055", "Subaru", .densoSh7xxx, ecuWindow 0 0x80000, ⟨0x07FB80, by decide⟩⟩,
    ⟨"sub_ecu_denso_sh7058_can_diesel", "Subaru", .densoDiesel, ecuWindow 0 0x100000,
      ⟨0x0FFB80, by decide⟩⟩,
    ⟨"sub_ecu_denso_sh7058s_diesel_densocan", "Subaru", .densoDiesel, ecuWindow 0 0x100000,
      ⟨0x0FFB80, by decide⟩⟩,
    ⟨"sub_ecu_denso_sh7058", "Subaru", .densoSh7xxx, ecuWindow 0 0x100000, ⟨0x0FFB80, by decide⟩⟩,
    ⟨"sub_ecu_denso_sh72531_can", "Subaru", .densoSh7xxx, ecuWindow 0 0x140000,
      ⟨0x13F500, by decide⟩⟩,
    ⟨"sub_ecu_denso_1n83m_4m_can", "Subaru", .densoSh7xxx, ecuWindow 0x08F9C000 0x3E4000,
      ⟨0x0937FE00, by decide⟩⟩,
    ⟨"sub_ecu_denso_1n83m_1_5m_can", "Subaru", .densoSh7xxx, ecuWindow 0x08F9C000 0x184000,
      ⟨0x0911FE00, by decide⟩⟩,
    ⟨"sub_ecu_denso_sh7059_can_diesel", "Subaru", .densoDiesel, ecuWindow 0 0x180000,
      ⟨0x17FB80, by decide⟩⟩,
    ⟨"sub_ecu_denso_sh7059_diesel_densocan", "Subaru", .densoDiesel, ecuWindow 0 0x180000,
      ⟨0x17FB80, by decide⟩⟩,
    ⟨"sub_ecu_denso_sh72543_can_diesel", "Subaru", .densoDiesel, ecuWindow 0 0x200000,
      ⟨0x1FF800, by decide⟩⟩,
    { protocolStart := "sub_tcu_denso_sh7055_can", make := "Subaru", route := .densoTcuSh7055,
      window := ecuWindow 0 TcuSubaruDensoSH7055.romSize },
    ⟨"sub_tcu_denso_sh7058_can", "Subaru", .densoSh7xxx, ecuWindow 0 0x100000,
      ⟨0x0FFB80, by decide⟩⟩,
    { protocolStart := "sub_ecu_hitachi_m32r_kline", make := "Subaru", route := .m32rByRomId,
      window := ecuWindow 0 EcuSubaruHitachiM32rKline.romSize },
    { protocolStart := "sub_ecu_hitachi_m32r_can", make := "Subaru", route := .m32rCan,
      window := ecuWindow 0 EcuSubaruHitachiM32rCan.romSize },
    { protocolStart := "sub_ecu_hitachi_sh7058_can", make := "Subaru", route := .sh7058,
      window := ecuWindow 0 EcuSubaruHitachiSH7058.romSize },
    { protocolStart := "sub_ecu_hitachi_sh72543r", make := "Subaru", route := .sh72543r,
      window := ecuWindow 0 EcuSubaruHitachiSh72543r.romSize },
    { protocolStart := "sub_tcu_hitachi_m32r_can", make := "Subaru", route := .hitachiM32rTcu,
      window := ecuWindow 0 0x80000 },
    { protocolStart := "sub_tcu_hitachi_m32r_kline", make := "Subaru", route := .hitachiM32rTcu,
      window := ecuWindow 0 0x80000 },
    { protocolStart := "sub_tcu_cvt_mitsu_mh8104_can", make := "Subaru", route := .mitsuMh8104Tcu,
      window := ecuWindow 0 TcuMitsuMH8104Can.romSize },
    { protocolStart := "mitsu_ecu_m32r_can_512kb", make := "Mitsubishi",
      route := .mitsuColtM32rCan, window := ecuWindow 0 0x80000 },
    { protocolStart := "mitsu_ecu_m32r_can_vendor_ext_512kb", make := "Mitsubishi",
      route := .mitsuColtM32rCan, window := ecuWindow 0 0x80000 },
    { protocolStart := "mitsu_ecu_m32r_can", make := "Mitsubishi", route := .mitsuColtM32rCan,
      window := ecuWindow 0 0x60000 }]

/-- `FindRoute`. -/
def findRoute (make flashMethod : String) : Option RouteSpec :=
  routes.find? fun spec => spec.make == make && startsWith flashMethod spec.protocolStart

/-- `HasRoute`. -/
def hasRoute (make flashMethod : String) : Bool := (findRoute make flashMethod).isSome

/-! ### Running a family -/

/-- `kDensoTableLength`. -/
def densoTableLength : UInt32 := 17 * 12

/-- `DensoSh7xxx`: the family under the title of its route. -/
def densoSh7xxx (rom : MemoryView) (tableAddress : FlashAddress) : ChecksumResult :=
  let result := EcuSubaruDensoSH7xxx.calculateChecksumResult rom tableAddress densoTableLength
  if result.status = .corrected then { result with message := "Subaru Denso SH705x Checksum" }
  else result

/-- `DensoSh705xDiesel`. -/
def densoSh705xDiesel (rom : MemoryView) (tableAddress : FlashAddress) : ChecksumResult :=
  EcuSubaruDensoSH705xDiesel.calculateChecksumResult rom tableAddress densoTableLength

/-- `Execute`: `none` for a ROM ID that no family takes. -/
def execute (spec : RouteSpec) (romId : String) (view : MemoryView) : Option ChecksumResult :=
  match spec.route with
  | .densoSh7xxx => some (densoSh7xxx view spec.tableAddress)
  | .densoDiesel => some (densoSh705xDiesel view spec.tableAddress)
  | .densoTcuSh7055 => some (TcuSubaruDensoSH7055.calculateChecksumResult view.data)
  | .m32rByRomId =>
    if startsWith romId "3" then
      some (EcuSubaruHitachiM32rKline.calculateChecksumResult view.data)
    else if startsWith romId "4" || startsWith romId "6" then
      some (EcuSubaruHitachiM32rCan.calculateChecksumResult view.data)
    else none
  | .m32rCan => some (EcuSubaruHitachiM32rCan.calculateChecksumResult view.data)
  | .sh7058 => some (EcuSubaruHitachiSH7058.calculateChecksumResult view.data)
  | .sh72543r => some (EcuSubaruHitachiSh72543r.calculateChecksumResult view.data)
  | .hitachiM32rTcu => some (TcuSubaruHitachiM32rCan.calculateChecksumResult view.data)
  | .mitsuMh8104Tcu => some (TcuMitsuMH8104Can.calculateChecksumResult view.data)
  | .mitsuColtM32rCan => some (EcuMitsuM32rCan.calculateChecksumResult view.data)

/-- The end of `ApplyChecksumCorrection`: the family result written back into a copy of `image`. -/
def finishCorrection (image : MemoryImage) (view : MemoryView)
    (familyResult : Option ChecksumResult) : ChecksumCorrectionOutcome :=
  match familyResult with
  | none => { status := .familyRan }
  | some result =>
    if !result.ok || result.romData.length ≠ view.data.length then
      { status := .familyRan, familyResult := some result }
    else
      match writeBack image view result.romData with
      | (.error e, _) =>
        { status := .familyRan,
          familyResult := some { result with
            status := .unsupportedRom
            message := "Checksum correction would change ROM bytes the protocol cannot write: " ++
              e.detail } }
      | (.ok (), corrected) =>
        { status := .familyRan, familyResult := some result, correctedFile := some corrected.file }

/-- `ApplyChecksumCorrection`: the outcome and the input image after the call. -/
def applyChecksumCorrection (image : MemoryImage) (selection : ChecksumSelection) :
    ChecksumCorrectionOutcome × MemoryImage :=
  if findFlashDevice selection.mcuType = none then ({ status := .unknownMcuType }, image)
  else if selection.checksumFlag ≠ "yes" then ({ status := .noModuleForProtocol }, image)
  else
    match findRoute selection.make selection.flashMethod with
    | none => ({ status := .noModuleForProtocol }, image)
    | some route =>
      if image.map.span ≠ some route.window then ({ status := .badRomSize }, image)
      else
        match image.render route.window with
        | .error _ => ({ status := .badRomSize }, image)
        | .ok view => (finishCorrection image view (execute route selection.romId view), image)

/-! ### The families keep the size -/

theorem length_view_lt (view : MemoryView) : view.data.length < 2 ^ 32 := by
  rw [view.length_data]
  exact view.range.size.lt

theorem length_correctDensoTable (base : FlashAddress) {rom : Bytes} (spec : DensoTableSpec)
    (hsize : rom.length < 2 ^ 32) : (correctDensoTable base rom spec).2.length = rom.length := by
  obtain ⟨-, o, -, hrun⟩ | ⟨-, -, hrun⟩ | ⟨-, -, -, rom', hcorr, hrun⟩ :=
    correctDensoTable_cases base spec hsize
  · rw [hrun]
  · rw [hrun]
  · rw [hrun]
    exact hcorr.length_eq

theorem length_densoSh7xxx (view : MemoryView) (tableAddress : FlashAddress) :
    (densoSh7xxx view tableAddress).romData.length = view.data.length := by
  have hlen := length_correctDensoTable view.range.start
    { tableAddress := tableAddress, tableLength := densoTableLength } (length_view_lt view)
  have hdata : (densoSh7xxx view tableAddress).romData =
      (EcuSubaruDensoSH7xxx.calculateChecksumResult view tableAddress
        densoTableLength).romData := by
    unfold densoSh7xxx
    simp only
    split_ifs <;> rfl
  rw [hdata, ← hlen]
  unfold EcuSubaruDensoSH7xxx.calculateChecksumResult
  simp only
  split
  · rfl
  · split <;> rfl

theorem length_densoSh705xDiesel (view : MemoryView) (tableAddress : FlashAddress) :
    (densoSh705xDiesel view tableAddress).romData.length = view.data.length := by
  unfold densoSh705xDiesel
  obtain ⟨-, -, hdata⟩ | ⟨-, -, rom₁, rom₂, hcorr, hsecond, hother, hdata, -⟩ :=
    EcuSubaruDensoSH705xDiesel.calculateChecksumResult_cases view tableAddress densoTableLength
  · rw [hdata]
  · rw [hdata]
    by_cases haddress : tableAddress.value = 0x1FF800
    · exact (hsecond haddress).2.2.length_eq.trans hcorr.length_eq
    · rw [hother haddress]
      exact hcorr.length_eq

/-- Every family gives back as many bytes as it was given. -/
theorem length_execute {spec : RouteSpec} {romId : String} {view : MemoryView}
    {result : ChecksumResult} (h : execute spec romId view = some result) :
    result.romData.length = view.data.length := by
  unfold execute at h
  cases hroute : spec.route with
  | densoSh7xxx =>
    simp only [hroute, Option.some.injEq] at h
    rw [← h, length_densoSh7xxx]
  | densoDiesel =>
    simp only [hroute, Option.some.injEq] at h
    rw [← h, length_densoSh705xDiesel]
  | densoTcuSh7055 =>
    simp only [hroute, Option.some.injEq] at h
    rw [← h, TcuSubaruDensoSH7055.length_calculateChecksumResult]
  | m32rByRomId =>
    simp only [hroute] at h
    split_ifs at h
    · rw [← Option.some.inj h, EcuSubaruHitachiM32rKline.length_calculateChecksumResult]
    · rw [← Option.some.inj h, EcuSubaruHitachiM32rCan.length_calculateChecksumResult]
  | m32rCan =>
    simp only [hroute, Option.some.injEq] at h
    rw [← h, EcuSubaruHitachiM32rCan.length_calculateChecksumResult]
  | sh7058 =>
    simp only [hroute, Option.some.injEq] at h
    rw [← h, EcuSubaruHitachiSH7058.length_calculateChecksumResult]
  | sh72543r =>
    simp only [hroute, Option.some.injEq] at h
    rw [← h, EcuSubaruHitachiSh72543r.length_calculateChecksumResult]
  | hitachiM32rTcu =>
    simp only [hroute, Option.some.injEq] at h
    rw [← h, TcuSubaruHitachiM32rCan.length_calculateChecksumResult]
  | mitsuMh8104Tcu =>
    simp only [hroute, Option.some.injEq] at h
    rw [← h, TcuMitsuMH8104Can.length_calculateChecksumResult]
  | mitsuColtM32rCan =>
    simp only [hroute, Option.some.injEq] at h
    rw [← h, EcuMitsuM32rCan.length_calculateChecksumResult]

/-! ### Writing the result back -/

/-- A run that gets as far as a family's result. -/
structure FamilyRan (image : MemoryImage) (selection : ChecksumSelection) (route : RouteSpec)
    (view : MemoryView) (result : ChecksumResult) : Prop where
  /-- The MCU is known. -/
  device : findFlashDevice selection.mcuType ≠ none
  /-- The vehicle has checksums. -/
  flag : selection.checksumFlag = "yes"
  /-- A route is found. -/
  route_eq : findRoute selection.make selection.flashMethod = some route
  /-- The map spans the route's window. -/
  span_eq : image.map.span = some route.window
  /-- Every address of the window is held by a block. -/
  view_eq : image.render route.window = .ok view
  /-- The family gives a result. -/
  result_eq : execute route selection.romId view = some result

/-- The family changed the byte at the address. -/
def Changed (route : RouteSpec) (view : MemoryView) (result : ChecksumResult) (a : FlashAddress) :
    Prop :=
  route.window.contains a = true ∧
    result.romData[a.value - route.window.start.value]? ≠
      view.data[a.value - route.window.start.value]?

section Apply

variable {image : MemoryImage} {selection : ChecksumSelection} {route : RouteSpec}
  {view : MemoryView} {result : ChecksumResult}

theorem FamilyRan.apply_eq (h : FamilyRan image selection route view result) :
    (applyChecksumCorrection image selection).1 = finishCorrection image view (some result) := by
  unfold applyChecksumCorrection
  rw [if_neg h.device, if_neg (not_not.2 h.flag), h.route_eq]
  simp only
  rw [if_neg (not_not.2 h.span_eq), h.view_eq]
  simp only [h.result_eq]

/-- A corrected file comes from a family's result only. -/
theorem familyRan_of_correctedFile {file : Bytes}
    (h : (applyChecksumCorrection image selection).1.correctedFile = some file) :
    ∃ route view result, FamilyRan image selection route view result := by
  unfold applyChecksumCorrection at h
  by_cases hdevice : findFlashDevice selection.mcuType = none
  · rw [if_pos hdevice] at h
    cases h
  by_cases hflag : selection.checksumFlag = "yes"
  · rw [if_neg hdevice, if_neg (not_not.2 hflag)] at h
    cases hroute : findRoute selection.make selection.flashMethod with
    | none => rw [hroute] at h; cases h
    | some route =>
      rw [hroute] at h
      simp only at h
      by_cases hspan : image.map.span = some route.window
      · rw [if_neg (not_not.2 hspan)] at h
        cases hview : image.render route.window with
        | error e => rw [hview] at h; cases h
        | ok view =>
          rw [hview] at h
          simp only at h
          cases hresult : execute route selection.romId view with
          | none => rw [hresult] at h; cases h
          | some result =>
            exact ⟨route, view, result, hdevice, hflag, hroute, hspan, hview, hresult⟩
      · rw [if_pos hspan] at h
        cases h
  · rw [if_neg hdevice, if_pos hflag] at h
    cases h

theorem changed_iff_dirty (hview : image.render route.window = .ok view) {a : FlashAddress} :
    Changed route view result a ↔ Dirty view result.romData 0 a := by
  have hrange := (MemoryImage.render_data hview).1
  constructor
  · rintro ⟨hmem, hne⟩
    rw [← hrange] at hmem hne
    exact ⟨hmem, Nat.zero_le _, hne.symm⟩
  · rintro ⟨hmem, -, hne⟩
    rw [viewIndex, hrange] at hne
    rw [hrange] at hmem
    exact ⟨hmem, hne.symm⟩

/-- What happens to a family's result that is no failure. -/
theorem FamilyRan.outcome_cases (h : FamilyRan image selection route view result)
    (hok : result.ok = true) :
    (∃ image', (applyChecksumCorrection image selection).1 =
        { status := .familyRan, familyResult := some result, correctedFile := some image'.file } ∧
      (∀ a, Changed route view result a → image.map.refusal a = none) ∧
      WroteBack image image' view result.romData 0) ∨
    ∃ e a, (applyChecksumCorrection image selection).1 =
        { status := .familyRan,
          familyResult := some { result with
            status := .unsupportedRom
            message := "Checksum correction would change ROM bytes the protocol cannot write: " ++
              e.detail } } ∧
      Changed route view result a ∧ image.map.refusal a = some e := by
  have hlen := length_execute h.result_eq
  rw [h.apply_eq, finishCorrection]
  simp only [hok, hlen, Bool.not_true, ne_eq, not_true_eq_false, decide_false, Bool.or_false,
    Bool.false_eq_true, if_false]
  simp only [changed_iff_dirty h.view_eq, writeBack]
  obtain ⟨image', hrun, hall, hwrote⟩ | ⟨image', e, a, hrun, ha, hbad⟩ :=
    writeBackFrom_spec image 0 hlen
  · exact .inl ⟨image', by rw [hrun], hall, hwrote⟩
  · exact .inr ⟨e, a, by rw [hrun], ha, hbad⟩

/-- A family's result that is a failure comes without a file. -/
theorem FamilyRan.correctedFile_of_not_ok (h : FamilyRan image selection route view result)
    (hok : result.ok = false) :
    (applyChecksumCorrection image selection).1.correctedFile = none := by
  rw [h.apply_eq, finishCorrection, hok]
  rfl

theorem refusal_ne_none {m : MemoryMap} {a : FlashAddress} {b : MemoryBlock}
    (hb : m.blockAt a = some b) (hbad : b.isFill = true ∨ b.writability ≠ .writable) :
    m.refusal a ≠ none := by
  unfold MemoryMap.refusal
  simp only [hb]
  obtain h | h := hbad
  · rw [if_pos h]
    simp
  · split_ifs
    · simp
    · simp

/-- **The correction is a family's result, written back whole or not at all.**  A corrected file has
the size of the image's file, renders as the family's bytes over the route's window, and keeps the
file byte of every address that the family left alone.  If the family changed a byte of a fill or
read-only block there is no corrected file and the result is unsupported; otherwise there is one.
The input image stays as it was. -/
theorem applyChecksumCorrection_writes_back_whole (image : MemoryImage)
    (selection : ChecksumSelection) :
    (∀ file, (applyChecksumCorrection image selection).1.correctedFile = some file →
      ∃ route view result, FamilyRan image selection route view result ∧
        (applyChecksumCorrection image selection).1.familyResult = some result ∧
        file.length = image.file.length ∧
        (∃ image' view', MemoryImage.create image.map file = .ok image' ∧
          image'.render route.window = .ok view' ∧ view'.data = result.romData) ∧
        ∀ a o, image.map.place a = some o → ¬ Changed route view result a →
          file[o]? = image.file[o]?) ∧
    (∀ route view result, FamilyRan image selection route view result → result.ok = true →
      ((∃ a b, Changed route view result a ∧ image.map.blockAt a = some b ∧
          (b.isFill = true ∨ b.writability ≠ .writable)) →
        (applyChecksumCorrection image selection).1.correctedFile = none ∧
        ∃ r, (applyChecksumCorrection image selection).1.familyResult = some r ∧
          r.status = .unsupportedRom) ∧
      ((∀ a, Changed route view result a → image.map.refusal a = none) →
        (applyChecksumCorrection image selection).1.correctedFile ≠ none)) ∧
    (applyChecksumCorrection image selection).2 = image := by
  refine ⟨fun file hfile => ?_, fun route view result hran hok => ⟨?_, fun hall => ?_⟩, ?_⟩
  · obtain ⟨route, view, result, hran⟩ := familyRan_of_correctedFile hfile
    cases hok : result.ok with
    | false => rw [hran.correctedFile_of_not_ok hok] at hfile; cases hfile
    | true =>
      obtain ⟨image', hout, hall, hwrote⟩ | ⟨e, a, hout, -, -⟩ := hran.outcome_cases hok
      · rw [hout] at hfile ⊢
        cases hfile
        have hview := hran.view_eq
        have hrange := (MemoryImage.render_data hview).1
        have hsize : image'.file.length = image.map.fileSize.value :=
          hwrote.map_eq ▸ image'.length_file
        refine ⟨route, view, result, hran, rfl, hsize.trans image.length_file.symm, ?_, ?_⟩
        · obtain ⟨view', hrender, hdata⟩ := hwrote.render_eq (length_execute hran.result_eq)
            (hrange ▸ hview) fun a ha => hall a ((changed_iff_dirty hview).2 ha)
          have himage : (⟨image.map, image'.file, hsize⟩ : MemoryImage) = image' := by
            obtain ⟨map, file, hfile⟩ := image'
            obtain rfl := hwrote.map_eq
            rfl
          refine ⟨image', view', ?_, hrange ▸ hrender, hdata⟩
          rw [MemoryImage.create, dif_pos hsize, himage]
        · intro a o ho ha
          exact hwrote.kept_of_not_dirty (fun hd => ha ((changed_iff_dirty hview).2 hd)) ho
      · rw [hout] at hfile
        cases hfile
  · rintro ⟨a, b, ha, hb, hbad⟩
    obtain ⟨image', -, hall, -⟩ | ⟨e, a', hout, -, -⟩ := hran.outcome_cases hok
    · exact absurd (hall a ha) (refusal_ne_none hb hbad)
    · rw [hout]
      exact ⟨rfl, _, rfl, rfl⟩
  · obtain ⟨image', hout, -, -⟩ | ⟨e, a, -, ha, hbad⟩ := hran.outcome_cases hok
    · rw [hout]
      simp
    · rw [hall a ha] at hbad
      cases hbad
  · unfold applyChecksumCorrection
    split_ifs
    · rfl
    · rfl
    · split
      · rfl
      · split_ifs
        · rfl
        · split <;> rfl

end Apply

end FastEcu.Checksum
