import FastEcu.Checksum.Windows

/-!
# The Hitachi M32R TCU family

What one run of `ChecksumTcuSubaruHitachiM32rCan` leaves.  Checksum 2 is compared before checksum 1 is
rebalanced, and only its first copy is.

* `fieldOf_inj` : the stored form of checksum 2 determines the sum.
* `tcuM32rCan_checksums_hold_iff` : when both checksums are right after one run.
-/

namespace FastEcu.Checksum.TcuSubaruHitachiM32rCan

open Data

/-- The words of checksum 1. -/
def window1 (rom : Bytes) : List ℕ := wordPlaces 0x8020 rom.length

/-- The words of checksum 2. -/
def window2 (rom : Bytes) : List ℕ := wordPlaces 0 0x8000 ++ wordPlaces 0x8008 rom.length

/-- Checksum 1 and both copies of checksum 2 are right. -/
structure Holds (rom : Bytes) : Prop where
  checksum1 : sumOf rom (window1 rom) = 0x5aa5a55a
  checksum2 : readU32Be rom 0x8000 = checksum2Field rom
  copy : readU32Be rom 0x8004 = checksum2Field rom

/-- The size that the family takes. -/
structure Sized (rom : Bytes) : Prop where
  long : 0x8024 ≤ rom.length
  aligned : rom.length % 4 = 0

/-! ### The stored form -/

/-- The stored form of a sum. -/
def fieldOf (sum : UInt32) : UInt32 :=
  readU32Le [fieldByte 0x100 sum 0, fieldByte 0xff sum 8, fieldByte 0xff sum 16, fieldByte 0xff sum 24] 0

theorem fieldByte_eq (full sum shift : UInt32) : fieldByte full sum shift = full.toUInt8 - byteOf sum shift :=
  UInt32.toUInt8_sub _ _

theorem byteOf_inj_of_fieldByte {full sum sum' shift : UInt32}
    (h : fieldByte full sum shift = fieldByte full sum' shift) : byteOf sum shift = byteOf sum' shift := by
  rw [fieldByte_eq, fieldByte_eq] at h
  grind

/-- The stored form of a sum determines it. -/
theorem fieldOf_inj {sum sum' : UInt32} (h : fieldOf sum = fieldOf sum') : sum = sum' := by
  have hbytes := congrArg beBytes h
  have hword : ∀ s, fieldOf s = wordBe (fieldByte 0xff s 24) (fieldByte 0xff s 16) (fieldByte 0xff s 8)
      (fieldByte 0x100 s 0) := fun _ => rfl
  rw [hword, hword, beBytes_wordBe, beBytes_wordBe] at hbytes
  simp only [List.cons.injEq, and_true] at hbytes
  obtain ⟨h24, h16, h8, h0⟩ := hbytes
  rw [← wordBe_byteOf sum, ← wordBe_byteOf sum', byteOf_inj_of_fieldByte h24,
    byteOf_inj_of_fieldByte h16, byteOf_inj_of_fieldByte h8, byteOf_inj_of_fieldByte h0]

section Run

variable {rom rom' : Bytes}

theorem checksum2Field_eq (h : Sized rom) : checksum2Field rom = fieldOf (sumOf rom (window2 rom)) := by
  have hlong := h.long
  have hfold : foldU32Be [rom.take 0x8000, subspan rom 0x8008 (rom.length - 0x8008)] =
      ⟨sumOf rom (window2 rom), xorOf rom (window2 rom)⟩ :=
    @foldU32Be_two rom 0 0x8000 0x8008 rom.length (by decide) (by omega) (by omega) le_rfl
  simp only [checksum2Field, @drop_eq_subspan rom 0x8008 rom.length rfl, hfold, fieldOf]

theorem checksum1_eq (h : Sized rom) : (foldU32Be [rom.drop 0x8020]).sum = sumOf rom (window1 rom) := by
  have hlong := h.long
  rw [@drop_eq_subspan rom 0x8020 rom.length rfl, foldU32Be_one (by omega) le_rfl]
  rfl

theorem mem_window1 {p : ℕ} (h : p ∈ window1 rom) : 0x8008 ≤ p :=
  (by decide : 0x8008 ≤ 0x8020).trans (mem_wordPlaces h).1

theorem mem_window2 {p : ℕ} (h : p ∈ window2 rom) : p + 4 ≤ 0x8000 ∨ 0x8008 ≤ p := by
  rcases List.mem_append.1 h with h | h
  · exact .inl (mem_wordPlaces h).2
  · exact .inr (mem_wordPlaces h).1

theorem balance_mem_window1 (h : Sized rom) : 0x8020 ∈ window1 rom :=
  mem_wordPlaces_of le_rfl h.long (by decide)

theorem balance_mem_window2 (h : Sized rom) : 0x8020 ∈ window2 rom :=
  List.mem_append_right _ (mem_wordPlaces_of (by decide) h.long (by decide))

theorem Sized.of_changesOnly {places : Set ℕ} (h : Sized rom) (hchanges : ChangesOnly places rom rom') :
    Sized rom' :=
  ⟨hchanges.length ▸ h.long, hchanges.length ▸ h.aligned⟩

theorem Sized.romData (h : Sized rom) : Sized (calculateChecksumResult rom).romData := by
  have hlength := length_calculateChecksumResult rom
  constructor
  · rw [hlength]
    exact h.long
  · rw [hlength]
    exact h.aligned

/-- The copies of checksum 2 are in neither window. -/
theorem kept_of_changesOnly (h : Sized rom) (hchanges : ChangesOnly (Set.Ico 0x8000 0x8008) rom rom') :
    sumOf rom' (window1 rom') = sumOf rom (window1 rom) ∧ checksum2Field rom' = checksum2Field rom := by
  have hwindow1 : window1 rom' = window1 rom := by rw [window1, hchanges.length, window1]
  have hwindow2 : window2 rom' = window2 rom := by rw [window2, hchanges.length, window2]
  constructor
  · rw [hwindow1]
    exact hchanges.sumOf fun p hp => .inr (mem_window1 hp)
  · rw [checksum2Field_eq (h.of_changesOnly hchanges), checksum2Field_eq h, hwindow2]
    exact congrArg fieldOf (hchanges.sumOf fun p hp => mem_window2 hp)

/-- The ROM with checksum 1 balanced. -/
def rebalanced (rom : Bytes) : Bytes :=
  if sumOf rom (window1 rom) ≠ 0x5aa5a55a then
    rebalanceU32Be rom 0x8020 (sumOf rom (window1 rom)) 0x5aa5a55a else rom

/-- A ROM with the same field in both copies. -/
def withField (rom : Bytes) (field : UInt32) : Bytes :=
  writeU32Be (writeU32Be rom 0x8000 field) 0x8004 field

theorem rebalanced_spec (h : Sized rom) :
    ChangesOnly (Set.Ico 0x8020 0x8024) rom (rebalanced rom) ∧
      sumOf (rebalanced rom) (window1 (rebalanced rom)) = 0x5aa5a55a := by
  unfold rebalanced
  by_cases hsum : sumOf rom (window1 rom) = 0x5aa5a55a
  · rw [if_neg (not_not.2 hsum)]
    exact ⟨.refl _ _, hsum⟩
  · rw [if_pos hsum]
    have hchanges := writeU32Be_changesOnly rom 0x8020
      (readU32Be rom 0x8020 + 0x5aa5a55a - sumOf rom (window1 rom))
    have hwindow : window1 (rebalanceU32Be rom 0x8020 (sumOf rom (window1 rom)) 0x5aa5a55a) =
        window1 rom := by
      rw [window1, rebalanceU32Be, hchanges.length, window1]
    rw [hwindow]
    exact ⟨hchanges, sumOf_rebalanceU32Be (spaced_wordPlaces _ _) (balance_mem_window1 h) h.long _⟩

theorem withField_spec (h : Sized rom) (field : UInt32) :
    ChangesOnly (Set.Ico 0x8000 0x8008) rom (withField rom field) ∧
      readU32Be (withField rom field) 0x8000 = field ∧ readU32Be (withField rom field) 0x8004 = field := by
  have hlong := h.long
  refine ⟨((writeU32Be_changesOnly _ _ _).trans (writeU32Be_changesOnly _ _ _)).mono ?_, ?_, ?_⟩
  · rintro i (hi | hi)
    · exact ⟨hi.1, hi.2.trans (by decide)⟩
    · exact ⟨(by decide : 0x8000 ≤ 0x8004).trans hi.1, hi.2⟩
  · rw [withField, (writeU32Be_changesOnly _ _ _).readU32Be fun i hi hmem => by
      have := Set.mem_Ico.1 hmem; omega]
    exact readU32Be_writeU32Be (by omega) field
  · exact readU32Be_writeU32Be (by rw [length_writeU32Be]; omega) field

/-- The bytes that a run gives. -/
theorem romData_eq (h : Sized rom) : (calculateChecksumResult rom).romData =
    if checksum2Field rom ≠ readU32Be rom 0x8000 then
      withField (rebalanced rom) (checksum2Field (rebalanced rom)) else rebalanced rom := by
  have hsize : ¬ ((decide (rom.length < 0x8024) || decide (rom.length % 4 ≠ 0)) = true) := by
    have hlong := h.long
    simp only [Bool.or_eq_true, decide_eq_true_eq, not_or, not_not]
    exact ⟨by omega, h.aligned⟩
  have hbalance : (balanceU32Be (rom, true) 0x8020 (sumOf rom (window1 rom)) 0x5aa5a55a).1 =
      rebalanced rom := by
    unfold balanceU32Be rebalanced
    split_ifs <;> rfl
  rw [calculateChecksumResult, if_neg hsize]
  simp only [romData_finish, checksum1_eq h, apply_ite Prod.fst, hbalance]
  rfl

theorem Holds.unchanged (hholds : Holds rom) (h : Sized rom) :
    (calculateChecksumResult rom).status = .unchanged ∧ (calculateChecksumResult rom).romData = rom := by
  have hsize : ¬ ((decide (rom.length < 0x8024) || decide (rom.length % 4 ≠ 0)) = true) := by
    have hlong := h.long
    simp only [Bool.or_eq_true, decide_eq_true_eq, not_or, not_not]
    exact ⟨by omega, h.aligned⟩
  rw [calculateChecksumResult, if_neg hsize]
  simp only [checksum1_eq h]
  rw [if_neg (not_not.2 hholds.checksum2.symm), status_finish, romData_finish, balanceU32Be,
    if_neg (not_not.2 hholds.checksum1)]
  exact ⟨if_pos rfl, rfl⟩

/-- A balance that changes gives another checksum 2. -/
theorem checksum2Field_rebalanced_ne (h : Sized rom) (hsum : sumOf rom (window1 rom) ≠ 0x5aa5a55a) :
    checksum2Field (rebalanced rom) ≠ checksum2Field rom := by
  have hchanges := (rebalanced_spec h).1
  have hspaced : Spaced (window2 rom) := spaced_append (by decide)
  have hwindow : window2 (rebalanced rom) = window2 rom := by rw [window2, hchanges.length, window2]
  have hsum2 : sumOf (rebalanced rom) (window2 rom) =
      sumOf rom (window2 rom) + (0x5aa5a55a - sumOf rom (window1 rom)) := by
    rw [rebalanced, if_pos hsum, rebalanceU32Be,
      sumOf_writeU32Be hspaced (balance_mem_window2 h) h.long]
    grind
  rw [checksum2Field_eq (h.of_changesOnly hchanges), checksum2Field_eq h, hwindow]
  intro hfield
  have hsame := fieldOf_inj hfield
  rw [hsum2] at hsame
  grind

/-- **Both checksums are right after one run when checksum 2 was found wrong, or when nothing was wrong.** -/
theorem run_holds_iff (h : Sized rom) : Holds (calculateChecksumResult rom).romData ↔
    checksum2Field rom ≠ readU32Be rom 0x8000 ∨
      sumOf rom (window1 rom) = 0x5aa5a55a ∧ readU32Be rom 0x8004 = checksum2Field rom := by
  obtain ⟨hchanges, hsum1⟩ := rebalanced_spec h
  have hsized := h.of_changesOnly hchanges
  rw [romData_eq h]
  by_cases hfield : checksum2Field rom = readU32Be rom 0x8000
  · rw [if_neg (not_not.2 hfield)]
    have hread : readU32Be (rebalanced rom) 0x8000 = readU32Be rom 0x8000 :=
      hchanges.readU32Be fun i hi hmem => by have := Set.mem_Ico.1 hmem; omega
    by_cases hsum : sumOf rom (window1 rom) = 0x5aa5a55a
    · -- the ROM is given back as it is
      have hsame : rebalanced rom = rom := if_neg (not_not.2 hsum)
      rw [hsame]
      constructor
      · exact fun hholds => .inr ⟨hsum, hholds.copy⟩
      · rintro (hne | ⟨-, hcopy⟩)
        · exact absurd hfield hne
        · exact ⟨hsum, hfield.symm, hcopy⟩
    · constructor
      · intro hholds
        refine absurd ?_ (checksum2Field_rebalanced_ne h hsum)
        rw [← hholds.checksum2, hread, hfield]
      · rintro (hne | ⟨hsum', -⟩)
        · exact absurd hfield hne
        · exact absurd hsum' hsum
  · rw [if_pos hfield]
    obtain ⟨hwrites, hfirst, hsecond⟩ := withField_spec hsized (checksum2Field (rebalanced rom))
    obtain ⟨hkept1, hkept2⟩ := kept_of_changesOnly hsized hwrites
    refine iff_of_true ⟨?_, ?_, ?_⟩ (.inl hfield)
    · rw [hkept1, hsum1]
    · rw [hfirst, hkept2]
    · rw [hsecond, hkept2]

end Run

/-- **One run makes both checksums right, so that a second run finds nothing to do, exactly when the first
copy of checksum 2 was wrong, or checksum 1 and both copies of checksum 2 were right.** -/
theorem tcuM32rCan_checksums_hold_iff (rom : Bytes) (hlong : 0x8024 ≤ rom.length)
    (haligned : rom.length % 4 = 0) :
    (Holds (calculateChecksumResult rom).romData ∧
      (calculateChecksumResult (calculateChecksumResult rom).romData).status = .unchanged ∧
      (calculateChecksumResult (calculateChecksumResult rom).romData).romData =
        (calculateChecksumResult rom).romData) ↔
    checksum2Field rom ≠ readU32Be rom 0x8000 ∨
      sumOf rom (window1 rom) = 0x5aa5a55a ∧ readU32Be rom 0x8004 = checksum2Field rom := by
  have hsized : Sized rom := ⟨hlong, haligned⟩
  rw [← run_holds_iff hsized]
  constructor
  · exact fun hrun => hrun.1
  · intro hholds
    exact ⟨hholds, hholds.unchanged hsized.romData⟩

/-- The shortest ROM, of zeros with the checksum 2 of zeros in its first copy. -/
def shortestRom : Bytes := writeU32Be (List.replicate 0x8024 0) 0x8000 0xFFFFFF00

theorem length_shortestRom : shortestRom.length = 0x8024 := by
  rw [shortestRom, length_writeU32Be, List.length_replicate]

theorem sized_shortestRom : Sized shortestRom :=
  ⟨length_shortestRom.ge, by rw [length_shortestRom]⟩

theorem shortestRom_compared : checksum2Field shortestRom = readU32Be shortestRom 0x8000 ∧
    sumOf shortestRom (window1 shortestRom) = 0 := by
  have hchanges : ChangesOnly (Set.Ico 0x8000 0x8008) (List.replicate 0x8024 0) shortestRom :=
    (writeU32Be_changesOnly _ _ _).mono fun i hi => ⟨hi.1, hi.2.trans (by decide)⟩
  have hread : ∀ p, p + 4 ≤ 0x8000 ∨ 0x8008 ≤ p → readU32Be shortestRom p = 0 := by
    intro p hp
    rw [hchanges.readU32Be fun i hi hmem => by have := Set.mem_Ico.1 hmem; omega, readU32Be_zeros]
  have hfirst : readU32Be shortestRom 0x8000 = 0xFFFFFF00 :=
    readU32Be_writeU32Be (by rw [List.length_replicate]; decide) _
  have hsum2 : sumOf shortestRom (window2 shortestRom) = 0 :=
    tally_eq_self rfl fun p hp => hread p (mem_window2 hp)
  refine ⟨?_, tally_eq_self rfl fun p hp => hread p (.inr (mem_window1 hp))⟩
  rw [checksum2Field_eq sized_shortestRom, hsum2, hfirst]
  decide

theorem shortestRom_not_right : ¬ (checksum2Field shortestRom ≠ readU32Be shortestRom 0x8000 ∨
    sumOf shortestRom (window1 shortestRom) = 0x5aa5a55a ∧
      readU32Be shortestRom 0x8004 = checksum2Field shortestRom) := by
  rintro (hne | ⟨hsum, -⟩)
  · exact hne shortestRom_compared.1
  · rw [shortestRom_compared.2] at hsum
    exact absurd hsum (by decide)

/-- One run does not make both checksums of every ROM right. -/
theorem tcuM32rCan_shortestRom_not_right :
    ¬ ∀ rom : Bytes, 0x8024 ≤ rom.length → rom.length % 4 = 0 →
      Holds (calculateChecksumResult rom).romData ∧
        (calculateChecksumResult (calculateChecksumResult rom).romData).status = .unchanged ∧
        (calculateChecksumResult (calculateChecksumResult rom).romData).romData =
          (calculateChecksumResult rom).romData := by
  intro hall
  have hrun := hall shortestRom sized_shortestRom.long sized_shortestRom.aligned
  exact shortestRom_not_right ((run_holds_iff sized_shortestRom).1 hrun.1)

theorem tcuM32rCan_checksums_hold_iff_shortestRom :
    ¬ Holds (calculateChecksumResult shortestRom).romData := by
  intro hholds
  have hsized := sized_shortestRom.romData
  exact shortestRom_not_right ((tcuM32rCan_checksums_hold_iff shortestRom sized_shortestRom.long
    sized_shortestRom.aligned).1 ⟨hholds, hholds.unchanged hsized⟩)

end FastEcu.Checksum.TcuSubaruHitachiM32rCan
