import FastEcu.Checksum.Windows

/-!
# The Hitachi SH7058 family

What one run of `ChecksumEcuSubaruHitachiSH7058` leaves, and what it reports.

* `sh7058_checksums_hold` : the five checksums hold at once.
* `sh7058_status_faithful_iff` : the status tells whether a byte has changed, unless a wrong balance is
  all that the run repairs.
-/

namespace FastEcu.Checksum.EcuSubaruHitachiSH7058

open Data

/-- The words of checksums 1 and 2. -/
def window12 : List ℕ := wordPlaces 0x18400 0x1e000

/-- The words of checksum 5. -/
def window5 : List ℕ := wordPlaces 0x4000 0xffff0 ++ wordPlaces 0xffff8 0x100000

/-- The words of checksums 3 and 4. -/
def window34 : List ℕ := wordPlaces 0 0xffff0 ++ wordPlaces 0xffff8 0x100000

/-- The five checksums of a ROM are right. -/
structure Holds (rom : Bytes) : Prop where
  checksum1 : readU32Be rom 0xfffe8 = sumOf rom window12
  checksum2 : readU32Be rom 0xfffec = xorOf rom window12
  checksum3 : readU32Be rom 0xffff0 = sumOf rom window34
  checksum4 : readU32Be rom 0xffff4 = xorOf rom window34
  checksum5 : sumOf rom window5 = 0x5aa5a55a

section Run

variable {rom : Bytes} {state : Bytes × Bool}

theorem mem_window12 {p : ℕ} (h : p ∈ window12) : p + 4 ≤ 0xfffe8 := by
  have hbounds := mem_wordPlaces h
  omega

/-- The windows of checksums 3 to 5 leave the slots of checksums 3 and 4 out. -/
theorem mem_window345 {start p : ℕ} (h : p ∈ wordPlaces start 0xffff0 ++ wordPlaces 0xffff8 0x100000) :
    p + 4 ≤ 0xffff0 ∨ 0xffff8 ≤ p := by
  rcases List.mem_append.1 h with h | h
  · exact .inl (mem_wordPlaces h).2
  · exact .inr (mem_wordPlaces h).1

theorem balance_mem (start : ℕ) : 0xffff8 ∈ wordPlaces start 0xffff0 ++ wordPlaces 0xffff8 0x100000 :=
  List.mem_append_right _ (mem_wordPlaces_of (by decide) (by decide) (by decide))

theorem correct12_eq (h : rom.length = romSize) : correct12 rom =
    storeU32Be (storeU32Be (rom, true) 0xfffe8 (sumOf rom window12) (readU32Be rom 0xfffe8)) 0xfffec
      (xorOf rom window12) (readU32Be rom 0xfffec) := by
  have hfold : foldU32Be [subspan rom 0x18400 0x5c00] = ⟨sumOf rom window12, xorOf rom window12⟩ :=
    @foldU32Be_one rom 0x18400 0x1e000 (by decide) (by rw [h]; decide)
  simp only [correct12, hfold]

theorem correct5_eq (h : state.1.length = romSize) : correct5 state =
    if sumOf state.1 window5 ≠ 0x5aa5a55a then
      (rebalanceU32Be state.1 0xffff8 (sumOf state.1 window5) 0x5aa5a55a, state.2) else state := by
  have hfold : foldU32Be [subspan state.1 0x4000 0xfbff0, subspan state.1 0xffff8 (0x100000 - 0xffff8)] =
      ⟨sumOf state.1 window5, xorOf state.1 window5⟩ :=
    @foldU32Be_two state.1 0x4000 0xffff0 0xffff8 0x100000 (by decide) (by rw [h]; decide) (by decide)
      (by rw [h]; decide)
  simp only [correct5, drop_eq_subspan h, romSize, hfold]

theorem correct34_eq (h : state.1.length = romSize) : correct34 state =
    storeU32Be (storeU32Be state 0xffff0 (sumOf state.1 window34) (readU32Be state.1 0xffff0)) 0xffff4
      (xorOf state.1 window34) (readU32Be state.1 0xffff4) := by
  have hfold : foldU32Be [state.1.take 0xffff0, subspan state.1 0xffff8 (0x100000 - 0xffff8)] =
      ⟨sumOf state.1 window34, xorOf state.1 window34⟩ :=
    @foldU32Be_two state.1 0 0xffff0 0xffff8 0x100000 (by decide) (by rw [h]; decide) (by decide)
      (by rw [h]; decide)
  simp only [correct34, drop_eq_subspan h, romSize, hfold]

/-- Checksums 1 and 2 are right after their repair. -/
theorem correct12_spec (h : rom.length = romSize) :
    ChangesOnly (Set.Ico 0xfffe8 0xffff0) rom (correct12 rom).1 ∧
      readU32Be (correct12 rom).1 0xfffe8 = sumOf rom window12 ∧
      readU32Be (correct12 rom).1 0xfffec = xorOf rom window12 := by
  rw [correct12_eq h]
  exact @storePair_spec 0xfffe8 (rom, true) _ _ (by rw [h]; decide)

/-- Checksum 5 is right after its repair. -/
theorem correct5_spec (h : state.1.length = romSize) :
    ChangesOnly (Set.Ico 0xffff8 0xffffc) state.1 (correct5 state).1 ∧
      sumOf (correct5 state).1 window5 = 0x5aa5a55a := by
  rw [correct5_eq h]
  by_cases hsum : sumOf state.1 window5 = 0x5aa5a55a
  · rw [if_neg (not_not.2 hsum)]
    exact ⟨.refl _ _, hsum⟩
  · rw [if_pos hsum]
    exact ⟨writeU32Be_changesOnly _ _ _, sumOf_rebalanceU32Be (spaced_append (by decide))
      (balance_mem _) (by rw [h]; decide) _⟩

/-- Checksums 3 and 4 are right after their repair. -/
theorem correct34_spec (h : state.1.length = romSize) :
    ChangesOnly (Set.Ico 0xffff0 0xffff8) state.1 (correct34 state).1 ∧
      readU32Be (correct34 state).1 0xffff0 = sumOf state.1 window34 ∧
      readU32Be (correct34 state).1 0xffff4 = xorOf state.1 window34 := by
  rw [correct34_eq h]
  exact @storePair_spec 0xffff0 state _ _ (by rw [h]; decide)

/-- The bytes that a run gives. -/
theorem romData_eq (rom : Bytes) :
    (calculateChecksumResult rom).romData = (correct34 (correct5 (correct12 rom))).1 := by
  rw [calculateChecksumResult, romData_finish]

/-- **One run makes the five checksums right at once.** -/
theorem run_holds (h : rom.length = romSize) :
    Holds (calculateChecksumResult rom).romData ∧
      ChangesOnly (Set.Ico 0xfffe8 0xffffc) rom (calculateChecksumResult rom).romData := by
  obtain ⟨hchange12, hread1, hread2⟩ := correct12_spec h
  have hlength12 : (correct12 rom).1.length = romSize := hchange12.length.trans h
  obtain ⟨hchange5, hsum5⟩ := correct5_spec hlength12
  have hlength5 : (correct5 (correct12 rom)).1.length = romSize := hchange5.length.trans hlength12
  obtain ⟨hchange34, hread3, hread4⟩ := correct34_spec hlength5
  rw [romData_eq]
  -- the slots of checksums 3 and 4, which are written last, are in no window
  have hlast : ∀ p, p + 4 ≤ 0xffff0 ∨ 0xffff8 ≤ p →
      readU32Be (correct34 (correct5 (correct12 rom))).1 p = readU32Be (correct5 (correct12 rom)).1 p :=
    fun p hp => hchange34.readU32Be fun i hi hmem => by have := Set.mem_Ico.1 hmem; omega
  have hkept : ∀ p, p + 4 ≤ 0xffff0 →
      readU32Be (correct34 (correct5 (correct12 rom))).1 p = readU32Be (correct12 rom).1 p := by
    intro p hp
    rw [hlast p (.inl hp), hchange5.readU32Be fun i hi hmem => by have := Set.mem_Ico.1 hmem; omega]
  have hwindow12 : ∀ p ∈ window12, readU32Be (correct34 (correct5 (correct12 rom))).1 p =
      readU32Be rom p := by
    intro p hp
    have hbound := mem_window12 hp
    rw [hkept p (by omega), hchange12.readU32Be fun i hi hmem => by have := Set.mem_Ico.1 hmem; omega]
  have hwindow34 : ∀ p ∈ window34, readU32Be (correct34 (correct5 (correct12 rom))).1 p =
      readU32Be (correct5 (correct12 rom)).1 p := fun p hp => hlast p (mem_window345 hp)
  have hwindow5 : ∀ p ∈ window5, readU32Be (correct34 (correct5 (correct12 rom))).1 p =
      readU32Be (correct5 (correct12 rom)).1 p := fun p hp => hlast p (mem_window345 hp)
  refine ⟨⟨?_, ?_, ?_, ?_, ?_⟩, ?_⟩
  · rw [hkept _ (by decide), hread1]
    exact (tally_congr hwindow12).symm
  · rw [hkept _ (by decide), hread2]
    exact (tally_congr hwindow12).symm
  · rw [hread3]
    exact (tally_congr hwindow34).symm
  · rw [hread4]
    exact (tally_congr hwindow34).symm
  · rw [← hsum5]
    exact tally_congr hwindow5
  · refine ((hchange12.trans hchange5).trans hchange34).mono ?_
    rintro i ((hi | hi) | hi)
    · exact ⟨hi.1, hi.2.trans (by decide)⟩
    · exact ⟨(by decide : 0xfffe8 ≤ 0xffff8).trans hi.1, hi.2⟩
    · exact ⟨(by decide : 0xfffe8 ≤ 0xffff0).trans hi.1, hi.2.trans (by decide)⟩

/-- A ROM whose checksums are right is kept, and reported as unchanged. -/
theorem Holds.unchanged (hholds : Holds rom) (h : rom.length = romSize) :
    (calculateChecksumResult rom).status = .unchanged ∧ (calculateChecksumResult rom).romData = rom := by
  have h12 : correct12 rom = (rom, true) := by
    rw [correct12_eq h, storePair_of_eq hholds.checksum1.symm hholds.checksum2.symm]
  have h5 : correct5 (rom, true) = (rom, true) := by
    rw [correct5_eq h]
    exact if_neg (not_not.2 hholds.checksum5)
  have h34 : correct34 (rom, true) = (rom, true) := by
    rw [correct34_eq h, storePair_of_eq hholds.checksum3.symm hholds.checksum4.symm]
  rw [calculateChecksumResult, h12, h5, h34, status_finish, romData_finish]
  exact ⟨if_pos rfl, rfl⟩

end Run

/-- **One run makes the five checksums right at once, changes nothing but their slots, and a second run
finds nothing to do.** -/
theorem sh7058_checksums_hold (rom : Bytes) (h : rom.length = romSize) :
    Holds (calculateChecksumResult rom).romData ∧
      (∀ i, ¬ (0xfffe8 ≤ i ∧ i ≤ 0xffffb) → (calculateChecksumResult rom).romData[i]? = rom[i]?) ∧
      (calculateChecksumResult (calculateChecksumResult rom).romData).status = .unchanged ∧
      (calculateChecksumResult (calculateChecksumResult rom).romData).romData =
        (calculateChecksumResult rom).romData := by
  obtain ⟨hholds, hchanges⟩ := run_holds h
  refine ⟨hholds, fun i hi => hchanges.kept i fun hmem => ?_, hholds.unchanged (hchanges.length.trans h)⟩
  exact hi ⟨hmem.1, Nat.le_of_lt_succ hmem.2⟩

theorem sh7058_checksums_hold_zeros :
    Holds (calculateChecksumResult (List.replicate 0x100000 0)).romData :=
  (sh7058_checksums_hold (List.replicate 0x100000 0) List.length_replicate).1

/-! ### The status -/

/-- Checksums 1 and 2 are right, the balance is wrong, and checksums 3 and 4 are those of the ROM with the
right balance: the run repairs nothing but the balance. -/
structure HiddenRepair (rom : Bytes) : Prop where
  checksum1 : readU32Be rom 0xfffe8 = sumOf rom window12
  checksum2 : readU32Be rom 0xfffec = xorOf rom window12
  unbalanced : sumOf rom window5 ≠ 0x5aa5a55a
  checksum3 : readU32Be rom 0xffff0 = sumOf rom window34 + 0x5aa5a55a - sumOf rom window5
  checksum4 : readU32Be rom 0xffff4 = readU32Be rom 0xffff8 ^^^
    ((readU32Be rom 0xffff8 + 0x5aa5a55a - sumOf rom window5) ^^^ xorOf rom window34)

section Status

variable {rom : Bytes}

/-- The bytes are kept exactly when the checksums were right. -/
theorem romData_eq_iff (h : rom.length = romSize) :
    (calculateChecksumResult rom).romData = rom ↔ Holds rom := by
  constructor
  · intro hsame
    have hholds := (run_holds h).1
    rwa [hsame] at hholds
  · exact fun hholds => (hholds.unchanged h).2

/-- What the run reports is made of the checks of checksums 1 to 4. -/
theorem flag_eq (h : rom.length = romSize) :
    (correct34 (correct5 (correct12 rom))).2 =
      (decide (sumOf rom window12 = readU32Be rom 0xfffe8) &&
        decide (xorOf rom window12 = readU32Be rom 0xfffec) &&
        decide (sumOf (correct5 (correct12 rom)).1 window34 =
          readU32Be (correct5 (correct12 rom)).1 0xffff0) &&
        decide (xorOf (correct5 (correct12 rom)).1 window34 =
          readU32Be (correct5 (correct12 rom)).1 0xffff4)) := by
  have hlength12 : (correct12 rom).1.length = romSize := (correct12_spec h).1.length.trans h
  have hlength5 : (correct5 (correct12 rom)).1.length = romSize :=
    (correct5_spec hlength12).1.length.trans hlength12
  have hflag5 : (correct5 (correct12 rom)).2 = (correct12 rom).2 := by
    rw [correct5_eq hlength12]
    split_ifs <;> rfl
  have hflag12 : (correct12 rom).2 = (decide (sumOf rom window12 = readU32Be rom 0xfffe8) &&
      decide (xorOf rom window12 = readU32Be rom 0xfffec)) := by
    rw [correct12_eq h, storePair_snd, Bool.true_and]
  rw [correct34_eq hlength5, storePair_snd, hflag5, hflag12]

/-- The ROM with the right balance, when checksums 1 and 2 are right. -/
theorem correct5_correct12 (h : rom.length = romSize) (h1 : readU32Be rom 0xfffe8 = sumOf rom window12)
    (h2 : readU32Be rom 0xfffec = xorOf rom window12) (hsum : sumOf rom window5 ≠ 0x5aa5a55a) :
    (correct5 (correct12 rom)).1 = writeU32Be rom 0xffff8
      (readU32Be rom 0xffff8 + 0x5aa5a55a - sumOf rom window5) := by
  have h12 : correct12 rom = (rom, true) := by
    rw [correct12_eq h, storePair_of_eq h1.symm h2.symm]
  rw [h12, correct5_eq h, if_pos hsum]
  rfl

/-- Checksums 3 and 4 of the ROM with the right balance. -/
theorem tallies_rebalanced (h : rom.length = romSize) :
    sumOf (writeU32Be rom 0xffff8 (readU32Be rom 0xffff8 + 0x5aa5a55a - sumOf rom window5)) window34 =
        sumOf rom window34 + 0x5aa5a55a - sumOf rom window5 ∧
      xorOf (writeU32Be rom 0xffff8 (readU32Be rom 0xffff8 + 0x5aa5a55a - sumOf rom window5)) window34 =
        readU32Be rom 0xffff8 ^^^
          ((readU32Be rom 0xffff8 + 0x5aa5a55a - sumOf rom window5) ^^^ xorOf rom window34) ∧
      ∀ p, p + 4 ≤ 0xffff8 → readU32Be (writeU32Be rom 0xffff8
        (readU32Be rom 0xffff8 + 0x5aa5a55a - sumOf rom window5)) p = readU32Be rom p := by
  have hspaced : Spaced window34 := spaced_append (by decide)
  have hfits : 0xffff8 + 4 ≤ rom.length := by
    rw [h]
    decide
  refine ⟨?_, xorOf_writeU32Be hspaced (balance_mem 0) hfits _, fun p hp => ?_⟩
  · rw [sumOf_writeU32Be hspaced (balance_mem 0) hfits]
    grind
  · refine (writeU32Be_changesOnly _ _ _).readU32Be fun i hi hmem => ?_
    have hbounds := Set.mem_Ico.1 hmem
    omega

/-- **A run reports no change exactly when nothing was wrong, or nothing but the balance.** -/
theorem status_eq_unchanged_iff (h : rom.length = romSize) :
    (calculateChecksumResult rom).status = .unchanged ↔ Holds rom ∨ HiddenRepair rom := by
  constructor
  · intro hstatus
    have hflag : (correct34 (correct5 (correct12 rom))).2 = true := by
      by_contra hfalse
      rw [calculateChecksumResult, status_finish, if_neg hfalse] at hstatus
      cases hstatus
    rw [flag_eq h] at hflag
    simp only [Bool.and_eq_true, decide_eq_true_eq] at hflag
    obtain ⟨⟨⟨h1, h2⟩, h3⟩, h4⟩ := hflag
    by_cases hsum : sumOf rom window5 = 0x5aa5a55a
    · -- the balance was right, so that the run has left the ROM as it was
      have h12 : correct12 rom = (rom, true) := by rw [correct12_eq h, storePair_of_eq h1 h2]
      have h5 : correct5 (rom, true) = (rom, true) := by
        rw [correct5_eq h]
        exact if_neg (not_not.2 hsum)
      rw [h12, h5] at h3 h4
      exact .inl ⟨h1.symm, h2.symm, h3.symm, h4.symm, hsum⟩
    · obtain ⟨hsum34, hxor34, hkept⟩ := tallies_rebalanced h
      rw [correct5_correct12 h h1.symm h2.symm hsum] at h3 h4
      rw [hsum34, hkept _ (by decide)] at h3
      rw [hxor34, hkept _ (by decide)] at h4
      exact .inr ⟨h1.symm, h2.symm, hsum, h3.symm, h4.symm⟩
  · rintro (hholds | hhidden)
    · exact (hholds.unchanged h).1
    · obtain ⟨hsum34, hxor34, hkept⟩ := tallies_rebalanced h
      have hflag : (correct34 (correct5 (correct12 rom))).2 = true := by
        rw [flag_eq h, correct5_correct12 h hhidden.checksum1 hhidden.checksum2 hhidden.unbalanced,
          hsum34, hxor34, hkept _ (by decide), hkept _ (by decide)]
        simp only [Bool.and_eq_true, decide_eq_true_eq]
        exact ⟨⟨⟨hhidden.checksum1.symm, hhidden.checksum2.symm⟩, hhidden.checksum3.symm⟩,
          hhidden.checksum4.symm⟩
      rw [calculateChecksumResult, status_finish, if_pos hflag]

theorem status_cases (rom : Bytes) : (calculateChecksumResult rom).status = .unchanged ∨
    (calculateChecksumResult rom).status = .corrected := by
  rw [calculateChecksumResult, status_finish]
  split_ifs
  · exact .inl rfl
  · exact .inr rfl

end Status

/-- The status tells whether a byte has changed. -/
def Faithful (rom : Bytes) : Prop :=
  ((calculateChecksumResult rom).status = .unchanged ↔ (calculateChecksumResult rom).romData = rom) ∧
    ((calculateChecksumResult rom).status = .corrected ↔ (calculateChecksumResult rom).romData ≠ rom)

/-- **The status tells whether a byte has changed, exactly when not a wrong balance is all that the run
repairs.** -/
theorem sh7058_status_faithful_iff (rom : Bytes) (h : rom.length = romSize) :
    Faithful rom ↔ ¬ HiddenRepair rom := by
  have hcorrected : (calculateChecksumResult rom).status = .corrected ↔
      ¬ (calculateChecksumResult rom).status = .unchanged := by
    rcases status_cases rom with hstatus | hstatus <;> simp [hstatus]
  rw [Faithful, hcorrected, Ne, romData_eq_iff h, status_eq_unchanged_iff h]
  constructor
  · intro hfaithful hhidden
    exact hhidden.unbalanced (hfaithful.1.1 (.inr hhidden)).checksum5
  · intro hhidden
    have hiff : Holds rom ∨ HiddenRepair rom ↔ Holds rom := or_iff_left hhidden
    exact ⟨hiff, not_congr hiff⟩

/-- Zeros with the checksums 3 and 4 of the balanced ROM, but not with the balance. -/
def unbalancedRom : Bytes :=
  writeU32Be (writeU32Be (List.replicate 0x100000 0) 0xffff0 0x5aa5a55a) 0xffff4 0x5aa5a55a

theorem length_unbalancedRom : unbalancedRom.length = romSize := by
  rw [unbalancedRom, length_writeU32Be, length_writeU32Be, List.length_replicate]
  rfl

theorem hiddenRepair_unbalancedRom : HiddenRepair unbalancedRom := by
  have hchanges : ChangesOnly (Set.Ico 0xffff0 0xffff8) (List.replicate 0x100000 0) unbalancedRom := by
    refine ((writeU32Be_changesOnly _ _ _).trans (writeU32Be_changesOnly _ _ _)).mono ?_
    rintro i (hi | hi)
    · exact ⟨hi.1, hi.2.trans (by decide)⟩
    · exact ⟨(by decide : 0xffff0 ≤ 0xffff4).trans hi.1, hi.2⟩
  have hlength : (writeU32Be (List.replicate 0x100000 0) 0xffff0 0x5aa5a55a).length = 0x100000 := by
    rw [length_writeU32Be, List.length_replicate]
  have hread : ∀ p, p + 4 ≤ 0xffff0 ∨ 0xffff8 ≤ p → readU32Be unbalancedRom p = 0 := by
    intro p hp
    rw [hchanges.readU32Be fun i hi hmem => by have := Set.mem_Ico.1 hmem; omega, readU32Be_zeros]
  have hread3 : readU32Be unbalancedRom 0xffff0 = 0x5aa5a55a := by
    rw [unbalancedRom, (writeU32Be_changesOnly _ _ _).readU32Be fun i hi hmem => by
      have := Set.mem_Ico.1 hmem; omega]
    exact readU32Be_writeU32Be (by rw [List.length_replicate]; decide) _
  have hread4 : readU32Be unbalancedRom 0xffff4 = 0x5aa5a55a :=
    readU32Be_writeU32Be (by rw [hlength]; decide) _
  have hsum12 : sumOf unbalancedRom window12 = 0 :=
    tally_eq_self rfl fun p hp => hread p (by have := mem_window12 hp; omega)
  have hxor12 : xorOf unbalancedRom window12 = 0 :=
    tally_eq_self rfl fun p hp => hread p (by have := mem_window12 hp; omega)
  have hsum34 : sumOf unbalancedRom window34 = 0 :=
    tally_eq_self rfl fun p hp => hread p (mem_window345 hp)
  have hxor34 : xorOf unbalancedRom window34 = 0 :=
    tally_eq_self rfl fun p hp => hread p (mem_window345 hp)
  have hsum5 : sumOf unbalancedRom window5 = 0 :=
    tally_eq_self rfl fun p hp => hread p (mem_window345 hp)
  refine ⟨?_, ?_, ?_, ?_, ?_⟩
  · rw [hsum12, hread _ (by decide)]
  · rw [hxor12, hread _ (by decide)]
  · rw [hsum5]
    decide
  · rw [hread3, hsum34, hsum5]
    decide
  · rw [hread4, hread _ (by decide), hsum5, hxor34]
    decide

/-- The status is not faithful for every ROM. -/
theorem sh7058_status_unfaithful : ¬ ∀ rom : Bytes, rom.length = romSize → Faithful rom := by
  intro hall
  have hfaithful := hall unbalancedRom length_unbalancedRom
  have hstatus := (status_eq_unchanged_iff length_unbalancedRom).2 (.inr hiddenRepair_unbalancedRom)
  have hholds := (romData_eq_iff length_unbalancedRom).1 (hfaithful.1.1 hstatus)
  exact hiddenRepair_unbalancedRom.unbalanced hholds.checksum5

theorem sh7058_status_faithful_iff_unbalancedRom : ¬ Faithful unbalancedRom :=
  fun hfaithful => (sh7058_status_faithful_iff unbalancedRom length_unbalancedRom).1 hfaithful
    hiddenRepair_unbalancedRom

end FastEcu.Checksum.EcuSubaruHitachiSH7058
