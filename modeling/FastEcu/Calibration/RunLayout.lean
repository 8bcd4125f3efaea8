import FastEcu.Calibration.EditNumeric

/-!
# The layout of a run

Three functions compute where the elements of a run lie: `ElementByteAddress` for writes, the loop of
`DecodeNumericRun` for reads, and `ElementRunEnd` for both bounds
(`src/backend/calibration/map_edit.cpp`, `src/backend/calibration/calibration_service.cpp`).

* `elementRunEnd_eq`, `elementByteAddress_eq` : the sums, and the sentinel just where they overflow.
* `ElementRun.SameLayout` : a run that is read and written with the same layout.
* `elementRun_layout` : both sides agree on every element of a run that the decoder takes, elements do
  not overlap, and no bounds check accepts the sentinel.
-/

namespace FastEcu.Calibration

open Memory Expression

/-! ### Sums that are checked -/

theorem checkedAdd_eq (lhs rhs : ℕ) (h : rhs ≤ u64Max) :
    checkedAdd lhs rhs = if lhs + rhs ≤ u64Max then some (lhs + rhs) else none := by
  rw [checkedAdd]
  split_ifs with h₁ h₂ h₂
  · omega
  · rfl
  · rfl
  · omega

theorem checkedMultiply_eq (lhs rhs : ℕ) :
    checkedMultiply lhs rhs = if lhs * rhs ≤ u64Max then some (lhs * rhs) else none := by
  rw [checkedMultiply]
  by_cases hzero : rhs = 0
  · rw [if_neg fun h => h.1 hzero, hzero, Nat.mul_zero, if_pos (Nat.zero_le _)]
  · have hiff : lhs * rhs ≤ u64Max ↔ ¬ u64Max / rhs < lhs := by
      rw [not_lt, Nat.le_div_iff_mul_le (Nat.pos_of_ne_zero hzero)]
    by_cases hle : lhs * rhs ≤ u64Max
    · rw [if_pos hle, if_neg fun h => hiff.1 hle h.2]
    · rw [if_neg hle, if_pos ⟨hzero, not_not.1 (mt hiff.2 hle)⟩]

/-- A stride fits in 64 bits. -/
theorem stride_le (interval : UInt32) {width : ℕ} (h : width ≤ 4) : interval.toNat * width ≤ u64Max := by
  have hlt := interval.toNat_lt
  have hle : interval.toNat * width ≤ 2 ^ 32 * 4 := Nat.mul_le_mul hlt.le h
  exact hle.trans (by decide)

/-- A value that fits in 64 bits. -/
def fit (n : ℕ) : Option ℕ := if n ≤ u64Max then some n else none

/-- The sum of an address and two offsets, checked at every step. -/
theorem checkedSum_eq (address first second : ℕ) :
    ((fit first).bind fun first => (fit second).bind fun second =>
      (checkedAdd address first).bind fun sum => checkedAdd sum second) =
    fit (address + (first + second)) := by
  by_cases hfirst : first ≤ u64Max
  · by_cases hsecond : second ≤ u64Max
    · rw [fit, if_pos hfirst, Option.bind_some, fit, if_pos hsecond, Option.bind_some,
        checkedAdd_eq _ _ hfirst]
      by_cases hsum : address + first ≤ u64Max
      · rw [if_pos hsum, Option.bind_some, checkedAdd_eq _ _ hsecond, fit, Nat.add_assoc]
      · rw [if_neg hsum, Option.bind_none, fit, if_neg (by omega)]
    · rw [fit, if_pos hfirst, Option.bind_some, fit, if_neg hsecond, Option.bind_none, fit,
        if_neg (by omega)]
  · rw [fit, if_neg hfirst, Option.bind_none, fit, if_neg (by omega)]

theorem fit_getD (n : ℕ) : (fit n).getD u64Max = if n ≤ u64Max then n else u64Max := by
  rw [fit]
  split_ifs <;> rfl

/-- **The address of an element**, or the sentinel where it overflows. -/
theorem elementByteAddress_eq {α : Type} (spec : MapElementSpec α) (index : ℕ) :
    elementByteAddress spec index =
      if spec.address + elementOffset spec.startPosition spec.interval
          (storageByteSize spec.storageType) index ≤ u64Max then
        spec.address + elementOffset spec.startPosition spec.interval
          (storageByteSize spec.storageType) index
      else u64Max := by
  have hstride := stride_le spec.interval (storageByteSize_le spec.storageType)
  rw [elementOffset, ← fit_getD, ← checkedSum_eq]
  simp only [elementByteAddress, checkedMultiply_eq, bind, Option.bind_some,
    Nat.mul_comm (storageByteSize spec.storageType) spec.interval.toNat, if_pos hstride]
  rfl

/-- **The end of a run**, or the sentinel where it overflows. -/
theorem elementRunEnd_eq {address width count : ℕ} {startPosition interval : UInt32}
    (hcount : count ≠ 0) (hwidth : width ≤ 4) :
    elementRunEnd address startPosition interval width count =
      if address + elementOffset startPosition interval width (count - 1) + width ≤ u64Max then
        address + elementOffset startPosition interval width (count - 1) + width
      else u64Max := by
  have hstride := stride_le interval hwidth
  have hwidth' : width ≤ u64Max := hwidth.trans (by decide)
  have hsteps : elementRunEnd address startPosition interval width count =
      (((fit (startOffset startPosition * width)).bind fun first =>
        (fit ((count - 1) * (interval.toNat * width))).bind fun second =>
          (checkedAdd address first).bind fun sum => checkedAdd sum second).bind fun sum =>
            checkedAdd sum width).getD u64Max := by
    simp only [elementRunEnd, if_neg hcount, checkedMultiply_eq, bind, Option.bind_some,
      if_pos hstride, Option.bind_assoc]
    rfl
  rw [hsteps, checkedSum_eq, elementOffset]
  by_cases hlast : address + (startOffset startPosition * width +
      (count - 1) * (interval.toNat * width)) ≤ u64Max
  · rw [fit, if_pos hlast, Option.bind_some, checkedAdd_eq _ _ hwidth', ← fit, fit_getD]
  · rw [fit, if_neg hlast, Option.bind_none, Option.getD_none]
    exact (if_neg (by omega)).symm

/-! ### Elements -/

/-- The last byte of the run is past the 64-bit addresses. -/
def ElementRun.Overflows (run : ElementRun) : Prop :=
  run.count ≠ 0 ∧ u64Max < run.address + elementOffset run.startPosition run.interval
    (storageByteSize run.storageType) (run.count - 1) + storageByteSize run.storageType

/-- The run is written with the layout that it is read with. -/
structure ElementRun.SameLayout {α : Type} (run : ElementRun) (spec : MapElementSpec α) : Prop where
  address : spec.address = run.address
  storageType : spec.storageType = run.storageType
  startPosition : spec.startPosition = run.startPosition
  interval : spec.interval = run.interval

/-- The run and the edit of one map element have one layout. -/
theorem MapElement.sameLayout {α : Type} (element : MapElement α) :
    element.run.SameLayout element.editSpec := ⟨rfl, rfl, rfl, rfl⟩

section Layout

variable {α : Type} {run : ElementRun} {spec : MapElementSpec α} {index : ℕ}

/-- A later element starts at the earliest behind an earlier one. -/
theorem elementOffset_add_le {startPosition interval : UInt32} {width i j : ℕ} (h : interval ≠ 0)
    (hlt : i < j) : elementOffset startPosition interval width i + width ≤
      elementOffset startPosition interval width j := by
  have hinterval : 1 ≤ interval.toNat := Nat.pos_of_ne_zero fun hzero => h (UInt32.toNat.inj hzero)
  have hstep : width ≤ interval.toNat * width := Nat.le_mul_of_pos_left width hinterval
  have hnext : (i + 1) * (interval.toNat * width) ≤ j * (interval.toNat * width) :=
    Nat.mul_le_mul_right _ hlt
  rw [Nat.add_mul, Nat.one_mul] at hnext
  simp only [elementOffset]
  omega

/-- An element of a run ends where the run ends or before. -/
theorem elementOffset_le {startPosition interval : UInt32} {width count : ℕ} (h : index < count) :
    elementOffset startPosition interval width index ≤
      elementOffset startPosition interval width (count - 1) :=
  Nat.add_le_add_left (Nat.mul_le_mul_right _ (Nat.le_sub_one_of_lt h)) _

theorem ElementRun.stop_eq_of_fits (h : ¬ run.Overflows) (hcount : run.count ≠ 0) :
    run.stop = run.address + elementOffset run.startPosition run.interval
      (storageByteSize run.storageType) (run.count - 1) + storageByteSize run.storageType := by
  rw [ElementRun.stop, elementRunEnd_eq hcount (storageByteSize_le _)]
  exact if_pos (not_lt.1 fun hlt => h ⟨hcount, hlt⟩)

theorem ElementRun.stop_eq_of_overflows (h : run.Overflows) : run.stop = u64Max := by
  rw [ElementRun.stop, elementRunEnd_eq h.1 (storageByteSize_le _)]
  exact if_neg (not_le.2 h.2)

theorem ElementRun.SameLayout.elementByteAddress_eq (hlayout : run.SameLayout spec)
    (hle : run.address + elementOffset run.startPosition run.interval
      (storageByteSize run.storageType) index ≤ u64Max) :
    elementByteAddress spec index = run.address + elementOffset run.startPosition run.interval
      (storageByteSize run.storageType) index := by
  rw [Calibration.elementByteAddress_eq, hlayout.address, hlayout.storageType, hlayout.startPosition,
    hlayout.interval, if_pos hle]

/-- Both sides compute the address of an element of a run that fits. -/
theorem elementByteAddress_eq_cellAddress (hlayout : run.SameLayout spec) (hread : run.Readable)
    (hcount : run.count ≤ u32Max) (hfits : ¬ run.Overflows) (hindex : index < run.count) :
    elementByteAddress spec index = cellAddress run (storageByteSize run.storageType) index ∧
      elementByteAddress spec index = run.address + elementOffset run.startPosition run.interval
        (storageByteSize run.storageType) index := by
  have hcount' : run.count ≠ 0 := Nat.ne_zero_of_lt hindex
  have hend := not_lt.1 fun hlt => hfits ⟨hcount', hlt⟩
  have hoffset := @elementOffset_le index run.startPosition run.interval
    (storageByteSize run.storageType) run.count hindex
  have haddress := @ElementRun.SameLayout.elementByteAddress_eq α run spec index hlayout (by omega)
  refine ⟨haddress.trans (cellAddress_eq hread.2.2.1 (hindex.le.trans hcount)
    (storageByteSize_le _) (by omega)).symm, haddress⟩

end Layout

/-! ### The sentinel -/

section Sentinel

variable {α : Type} {N : Numbers α} {rom : DefinitionBytes} {session : CalibrationSession}

/-- The bytes have 64-bit definition addresses, the largest one excepted. -/
def DefinitionBytes.Addressable (rom : DefinitionBytes) : Prop := rom.start + rom.data.length < u64Max

/-- No byte is at the sentinel. -/
theorem at_sentinel (h : rom.Addressable) (size : ℕ) : rom.at u64Max size = none := by
  rw [DefinitionBytes.Addressable] at h
  simp only [DefinitionBytes.at]
  rw [if_neg (by omega), if_pos (by omega)]

/-- No range ends at the sentinel. -/
theorem at_upTo_sentinel (h : rom.Addressable) (address : ℕ) :
    rom.at address (u64Max - address) = none := by
  rw [DefinitionBytes.Addressable] at h
  simp only [DefinitionBytes.at]
  split_ifs with hstart hpast
  · rfl
  · rfl
  · omega

theorem outside_upTo_sentinel (session : CalibrationSession) (address : ℕ) :
    session.Outside address (u64Max - address) := by
  have hlt := base_add_definitionSize_lt session.image.map
  have hle : u32Size ≤ u64Max := by decide
  rw [CalibrationSession.Outside]
  omega

/-- Every bounds check on the end of the run fails: the decoder's, the session's and the one of the
placement. -/
structure ElementRun.EndRejected (N : Numbers α) (run : ElementRun) : Prop where
  decode : ∀ rom : DefinitionBytes, rom.Addressable → ∃ e, decodeNumericRun N rom run = .error e
  read : ∀ session : CalibrationSession, ∃ e,
    session.read run.address (run.stop - run.address) = .error e
  placement : ∀ (memoryMap : MemoryMap) (mapName subject : String) (address : DefinitionAddress),
    address.value = run.address → run.count ≤ u32Max → ∃ e,
      checkRun mapName subject (some address) run.count run.startPosition run.interval
        (storageByteSize run.storageType) memoryMap = .error e

/-- Every bounds check on the address of the element fails: the one of the calculation and the one
of the write. -/
structure MapElementSpec.AddressRejected (N : Numbers α) (spec : MapElementSpec α) (index : ℕ) :
    Prop where
  append : ∀ (rom : DefinitionBytes) (limits : Limits α) (requested : α)
    (old : Option (Except Error α)) (result : NumericEditResult), rom.Addressable → ∃ e,
      appendWrite N rom spec limits index requested old result = .error e
  write : ∀ (session : CalibrationSession) (cellCount : ℕ) (patch : List CellWrite),
    (∃ cell ∈ patch, cell.index = index) → ∃ e,
      writePatch session spec cellCount patch = (.error e, session)

theorem endRejected_of_stop {run : ElementRun} (hcount : run.count ≠ 0) (h : run.stop = u64Max) :
    run.EndRejected N := by
  refine ⟨fun rom hrom => ?_, fun session => ?_,
    fun memoryMap mapName subject address haddress hle => ?_⟩
  · rw [decodeNumericRun, h, at_upTo_sentinel hrom]
    split_ifs
    · exact ⟨_, rfl⟩
    · exact ⟨_, rfl⟩
  · rw [CalibrationSession.read, h, if_pos (outside_upTo_sentinel session run.address)]
    exact ⟨_, rfl⟩
  · cases hcheck : checkRun mapName subject (some address) run.count run.startPosition run.interval
        (storageByteSize run.storageType) memoryMap with
    | error e => exact ⟨e, rfl⟩
    | ok accepted =>
      -- what is accepted is inside the address space
      cases accepted with
      | none => exact absurd hcheck (checkRun_ne_none hcount hle)
      | some extent =>
        obtain ⟨a, ha, -, -, -, hstop, -, hplaced⟩ := checkRun_eq_some hcheck
        obtain rfl := Option.some.inj ha
        have hend : extent.stop = u64Max := by
          rw [hstop, u32_of_le hle, haddress, ← h, ElementRun.stop]
        have hfits := (hplaced (storageByteSize_pos _)).fits
        rw [hend] at hfits
        exact absurd hfits (not_lt.2 ((by decide : u32Size ≤ u64Max).trans (Nat.le_add_left _ _)))

theorem addressRejected_of_eq {spec : MapElementSpec α} {index : ℕ}
    (h : elementByteAddress spec index = u64Max) : spec.AddressRejected N index := by
  refine ⟨fun rom limits requested old result hrom => ?_, fun session cellCount patch hcell => ?_⟩
  · unfold appendWrite
    split
    · exact ⟨_, rfl⟩
    · dsimp only
      cases encodeValue N spec (clamp N limits requested) with
      | error e => exact ⟨e, rfl⟩
      | ok encoded =>
        dsimp only
        rw [h, at_sentinel hrom]
        exact ⟨_, rfl⟩
  · obtain ⟨cell, hmem, rfl⟩ := hcell
    rw [writePatch]
    cases hcheck : checkPatch session spec cellCount patch with
    | error e => exact ⟨e, rfl⟩
    | ok _ =>
      obtain ⟨-, haddress, hwrite⟩ := checkPatch_eq_ok hcheck cell hmem
      have hle := CalibrationSession.le_of_checkWrite hwrite
      have hlt := base_add_definitionSize_lt session.image.map
      have hmax : u32Size ≤ u64Max := by decide
      omega

end Sentinel

/-! ### Reads and writes -/

section Agreement

variable {α : Type} {N : Numbers α}

/-- A run that cannot be read cannot be written either. -/
theorem rejected_of_not_readable {run : ElementRun} {spec : MapElementSpec α}
    (hlayout : run.SameLayout spec) (h : ¬ run.Readable) :
    (∀ rom, ∃ e, decodeNumericRun N rom run = .error e) ∧
      ∀ value, ∃ e, encodeValue N spec value = .error e := by
  refine ⟨fun rom => ⟨_, by rw [decodeNumericRun, if_neg h]; rfl⟩, fun value => ?_⟩
  have hinvalid : spec.storageType = none ∨ spec.storageType = some .bloblist ∨
      spec.startPosition = 0 ∨ spec.interval = 0 ∨ ¬ N.isFinite value := by
    rw [hlayout.storageType, hlayout.startPosition, hlayout.interval]
    by_contra hnot
    simp only [not_or] at hnot
    exact h ⟨hnot.1, hnot.2.1, hnot.2.2.1, hnot.2.2.2.1⟩
  exact ⟨_, by rw [encodeValue, if_pos hinvalid]; rfl⟩

/-- **Reads and writes agree on the layout of every run.**  Where the decoder takes the run and the run
fits, they compute the same address for each element, different elements do not overlap, and all of
them lie between the address of the run and its end.  A run that the decoder refuses is not written
either.  Where a sum overflows, the sentinel takes its place and every bounds check fails. -/
theorem elementRun_layout (N : Numbers α) (run : ElementRun) (spec : MapElementSpec α)
    (hlayout : run.SameLayout spec) (hcount : run.count ≤ u32Max) :
    (¬ run.Readable → (∀ rom, ∃ e, decodeNumericRun N rom run = .error e) ∧
      ∀ value, ∃ e, encodeValue N spec value = .error e) ∧
    (run.Readable → ¬ run.Overflows →
      (∀ index < run.count,
        elementByteAddress spec index = cellAddress run (storageByteSize run.storageType) index ∧
        run.address ≤ elementByteAddress spec index ∧
        elementByteAddress spec index + storageByteSize run.storageType ≤ run.stop) ∧
      ∀ i < run.count, ∀ j < run.count, i ≠ j →
        elementByteAddress spec i + storageByteSize run.storageType ≤ elementByteAddress spec j ∨
        elementByteAddress spec j + storageByteSize run.storageType ≤ elementByteAddress spec i) ∧
    (run.Overflows → run.stop = u64Max ∧ run.EndRejected N) ∧
    ∀ index, u64Max < run.address + elementOffset run.startPosition run.interval
        (storageByteSize run.storageType) index →
      elementByteAddress spec index = u64Max ∧ spec.AddressRejected N index := by
  refine ⟨fun hread => rejected_of_not_readable hlayout hread, fun hread hfits => ⟨?_, ?_⟩,
    fun hover => ?_, fun index hover => ?_⟩
  · intro index hindex
    obtain ⟨hsame, haddress⟩ := elementByteAddress_eq_cellAddress hlayout hread hcount hfits hindex
    have hoffset := @elementOffset_le index run.startPosition run.interval
      (storageByteSize run.storageType) run.count hindex
    rw [ElementRun.stop_eq_of_fits hfits (Nat.ne_zero_of_lt hindex)]
    exact ⟨hsame, by omega, by omega⟩
  · intro i hi j hj hne
    obtain ⟨-, hfirst⟩ := elementByteAddress_eq_cellAddress hlayout hread hcount hfits hi
    obtain ⟨-, hsecond⟩ := elementByteAddress_eq_cellAddress hlayout hread hcount hfits hj
    rcases lt_or_gt_of_ne hne with hlt | hgt
    · have hapart := @elementOffset_add_le run.startPosition run.interval
        (storageByteSize run.storageType) i j hread.2.2.2 hlt
      exact .inl (by omega)
    · have hapart := @elementOffset_add_le run.startPosition run.interval
        (storageByteSize run.storageType) j i hread.2.2.2 hgt
      exact .inr (by omega)
  · have hstop := ElementRun.stop_eq_of_overflows hover
    exact ⟨hstop, endRejected_of_stop hover.1 hstop⟩
  · have haddress : elementByteAddress spec index = u64Max := by
      rw [elementByteAddress_eq, hlayout.address, hlayout.storageType, hlayout.startPosition,
        hlayout.interval, if_neg (not_le.2 hover)]
    exact ⟨haddress, addressRejected_of_eq haddress⟩

theorem elementRun_layout_integers :
    cellAddress ⟨0x10, 3, 1, 2, some .uint16, "big", "x", false⟩ 2 2 = 0x18 ∧
      elementByteAddress (α := ℤ) ⟨0x10, some .uint16, "big", "x", "", "", 1, 1, 1, 2⟩ 2 = 0x18 ∧
      elementRunEnd 0xffffffffffffff00 1 2 4 0xffff = u64Max := by
  have hfits := (elementRun_layout integers ⟨0x10, 3, 1, 2, some .uint16, "big", "x", false⟩
    ⟨0x10, some .uint16, "big", "x", "", "", 1, 1, 1, 2⟩ ⟨rfl, rfl, rfl, rfl⟩ (by decide)).2.1
    (by decide) (by rintro ⟨-, h⟩; exact absurd h (by decide))
  have hover := (elementRun_layout integers
    ⟨0xffffffffffffff00, 0xffff, 1, 2, some .float, "big", "x", false⟩
    ⟨0xffffffffffffff00, some .float, "big", "x", "", "", 1, 1, 1, 2⟩ ⟨rfl, rfl, rfl, rfl⟩
    (by decide)).2.2.1 ⟨by decide, by decide⟩
  have hlast := (hfits.1 2 (by decide)).1
  have haddress : elementByteAddress (α := ℤ)
    ⟨0x10, some .uint16, "big", "x", "", "", 1, 1, 1, 2⟩ 2 = 0x18 := by decide
  exact ⟨hlast.symm.trans haddress, haddress, hover.1⟩

/-- With an interval of zero, the elements of a write lie on each other; the decoder refuses the
run. -/
theorem elementByteAddress_interval_zero :
    ∃ (run : ElementRun) (spec : MapElementSpec ℤ), run.SameLayout spec ∧ ¬ run.Overflows ∧
      run.count = 2 ∧ elementByteAddress spec 0 = elementByteAddress spec 1 ∧
      0 < storageByteSize run.storageType ∧ ¬ run.Readable :=
  ⟨⟨0x10, 2, 1, 0, some .uint8, "big", "x", false⟩,
    ⟨0x10, some .uint8, "big", "x", "", "", 1, 1, 1, 0⟩, ⟨rfl, rfl, rfl, rfl⟩,
    fun hover => absurd hover.2 (by decide), rfl, by decide, by decide, by decide⟩

end Agreement

end FastEcu.Calibration
