import FastEcu.Checksum.Windows

/-!
# The Hitachi M32R families

What one run of `ChecksumEcuSubaruHitachiM32rCan` and of `ChecksumEcuSubaruHitachiM32rKline` leaves.

* `EcuSubaruHitachiM32rCan.m32rCan_checksums_hold` : the five checksums that are written hold at once.
* `EcuSubaruHitachiM32rKline.m32rKline_checksums_hold_iff` : the three checksums hold at once when the new balance has
  the byte sum and the byte XOR of the old one.
-/

namespace FastEcu.Checksum

open Data

/-! ### CAN -/

namespace EcuSubaruHitachiM32rCan

/-- The words of checksums 1 and 2. -/
def window12 : List ℕ := wordPlaces 0x6000 0x8000

/-- The words of checksums 3 and 4. -/
def window34 : List ℕ := wordPlaces 0 0x10000 ++ wordPlaces 0x10004 0x7fff0

/-- The words of checksum 5. -/
def window5 : List ℕ := wordPlaces 0x4000 0x10000 ++ wordPlaces 0x10004 0x80000

/-- Checksums 1 to 5 of a ROM are right. -/
structure Holds (rom : Bytes) : Prop where
  checksum1 : readU32Be rom 0x7ffe8 = sumOf rom window12
  checksum2 : readU32Be rom 0x7ffec = xorOf rom window12
  checksum3 : readU32Be rom 0x7fff0 = sumOf rom window34
  checksum4 : readU32Be rom 0x7fff4 = xorOf rom window34
  checksum5 : (sumOf rom window5).toUInt16 = 0x5aa5

/-- The bytes that a run may change. -/
def slots : Set ℕ := Set.Ico 0x7ffe8 0x7fff8 ∪ Set.Ico 0x7fffa 0x7fffc

section Run

variable {rom : Bytes} {state : Bytes × Bool}

theorem mem_window12 {p : ℕ} (h : p ∈ window12) : p + 4 ≤ 0x7ffe8 := by
  have hbounds := mem_wordPlaces h
  omega

theorem mem_window34 {p : ℕ} (h : p ∈ window34) : p + 4 ≤ 0x7fff0 := by
  rcases List.mem_append.1 h with h | h
  · have hbounds := mem_wordPlaces h
    omega
  · exact (mem_wordPlaces h).2

theorem correct12_eq (h : rom.length = romSize) : correct12 rom =
    storeU32Be (storeU32Be (rom, true) 0x7ffe8 (sumOf rom window12) (readU32Be rom 0x7ffe8)) 0x7ffec
      (xorOf rom window12) (readU32Be rom 0x7ffec) := by
  have hfold : foldU32Be [subspan rom 0x6000 0x2000] = ⟨sumOf rom window12, xorOf rom window12⟩ :=
    @foldU32Be_one rom 0x6000 0x8000 (by decide) (by rw [h]; decide)
  simp only [correct12, hfold]

theorem correct34_eq (h : state.1.length = romSize) : correct34 state =
    storeU32Be (storeU32Be state 0x7fff0 (sumOf state.1 window34) (readU32Be state.1 0x7fff0)) 0x7fff4
      (xorOf state.1 window34) (readU32Be state.1 0x7fff4) := by
  have hfold : foldU32Be [state.1.take 0x10000, subspan state.1 0x10004 0x6ffec] =
      ⟨sumOf state.1 window34, xorOf state.1 window34⟩ :=
    @foldU32Be_two state.1 0 0x10000 0x10004 0x7fff0 (by decide) (by rw [h]; decide) (by decide)
      (by rw [h]; decide)
  simp only [correct34, hfold]

theorem correct5_eq (h : state.1.length = romSize) : correct5 state =
    balanceU16Be state 0x7fffa (sumOf state.1 window5).toUInt16 0x5aa5 := by
  have hfold : foldU32Be [subspan state.1 0x4000 0xc000, subspan state.1 0x10004 (0x80000 - 0x10004)] =
      ⟨sumOf state.1 window5, xorOf state.1 window5⟩ :=
    @foldU32Be_two state.1 0x4000 0x10000 0x10004 0x80000 (by decide) (by rw [h]; decide) (by decide)
      (by rw [h]; decide)
  simp only [correct5, drop_eq_subspan h, romSize, hfold]

/-- Checksums 1 and 2 are right after their repair. -/
theorem correct12_spec (h : rom.length = romSize) :
    ChangesOnly (Set.Ico 0x7ffe8 0x7fff0) rom (correct12 rom).1 ∧
      readU32Be (correct12 rom).1 0x7ffe8 = sumOf rom window12 ∧
      readU32Be (correct12 rom).1 0x7ffec = xorOf rom window12 := by
  rw [correct12_eq h]
  exact @storePair_spec 0x7ffe8 (rom, true) _ _ (by rw [h]; decide)

/-- Checksums 3 and 4 are right after their repair. -/
theorem correct34_spec (h : state.1.length = romSize) :
    ChangesOnly (Set.Ico 0x7fff0 0x7fff8) state.1 (correct34 state).1 ∧
      readU32Be (correct34 state).1 0x7fff0 = sumOf state.1 window34 ∧
      readU32Be (correct34 state).1 0x7fff4 = xorOf state.1 window34 := by
  rw [correct34_eq h]
  exact @storePair_spec 0x7fff0 state _ _ (by rw [h]; decide)

/-- Checksum 5 is right after its repair. -/
theorem correct5_spec (h : state.1.length = romSize) :
    ChangesOnly (Set.Ico 0x7fffa 0x7fffc) state.1 (correct5 state).1 ∧
      (sumOf (correct5 state).1 window5).toUInt16 = 0x5aa5 := by
  rw [correct5_eq h]
  unfold balanceU16Be
  by_cases hsum : (sumOf state.1 window5).toUInt16 = 0x5aa5
  · rw [if_neg (not_not.2 hsum)]
    exact ⟨.refl _ _, hsum⟩
  · rw [if_pos hsum]
    refine ⟨writeU16Be_changesOnly _ _ _, ?_⟩
    -- the balance is the lower half of the word at `0x7fff8`
    exact @sumOf_rebalanceU16Be state.1 window5 0x7fff8 (spaced_append (by decide))
      (List.mem_append_right _ (mem_wordPlaces_of (by decide) (by decide) (by decide)))
      (by rw [h]; decide) 0x5aa5

theorem check6_fst (state : Bytes × Bool) : (check6 state).1 = state.1 := by
  unfold check6
  split_ifs <;> rfl

/-- The bytes that a run gives. -/
theorem romData_eq (rom : Bytes) :
    (calculateChecksumResult rom).romData = (correct5 (correct34 (correct12 rom))).1 := by
  rw [calculateChecksumResult, romData_finish, check6_fst]

/-- **One run makes checksums 1 to 5 right at once.** -/
theorem run_holds (h : rom.length = romSize) :
    Holds (calculateChecksumResult rom).romData ∧
      ChangesOnly slots rom (calculateChecksumResult rom).romData := by
  obtain ⟨hchange12, hread1, hread2⟩ := correct12_spec h
  have hlength12 : (correct12 rom).1.length = romSize := hchange12.length.trans h
  obtain ⟨hchange34, hread3, hread4⟩ := correct34_spec hlength12
  have hlength34 : (correct34 (correct12 rom)).1.length = romSize := hchange34.length.trans hlength12
  obtain ⟨hchange5, hsum5⟩ := correct5_spec hlength34
  rw [romData_eq]
  -- each repair is outside the windows of the earlier ones
  have hkept : ∀ p, p + 4 ≤ 0x7fff0 →
      readU32Be (correct5 (correct34 (correct12 rom))).1 p = readU32Be (correct12 rom).1 p := by
    intro p hp
    rw [hchange5.readU32Be fun i hi hmem => by have := Set.mem_Ico.1 hmem; omega,
      hchange34.readU32Be fun i hi hmem => by have := Set.mem_Ico.1 hmem; omega]
  have hkept34 : ∀ p, p + 4 ≤ 0x7fffa → readU32Be (correct5 (correct34 (correct12 rom))).1 p =
      readU32Be (correct34 (correct12 rom)).1 p :=
    fun p hp => hchange5.readU32Be fun i hi hmem => by have := Set.mem_Ico.1 hmem; omega
  have hwindow12 : ∀ p ∈ window12, readU32Be (correct5 (correct34 (correct12 rom))).1 p =
      readU32Be rom p := by
    intro p hp
    have hbound := mem_window12 hp
    rw [hkept p (by omega), hchange12.readU32Be fun i hi hmem => by have := Set.mem_Ico.1 hmem; omega]
  have hwindow34 : ∀ p ∈ window34, readU32Be (correct5 (correct34 (correct12 rom))).1 p =
      readU32Be (correct12 rom).1 p := fun p hp => hkept p (mem_window34 hp)
  refine ⟨⟨?_, ?_, ?_, ?_, hsum5⟩, ?_⟩
  · rw [hkept _ (by decide), hread1]
    exact (tally_congr hwindow12).symm
  · rw [hkept _ (by decide), hread2]
    exact (tally_congr hwindow12).symm
  · rw [hkept34 _ (by decide), hread3]
    exact (tally_congr hwindow34).symm
  · rw [hkept34 _ (by decide), hread4]
    exact (tally_congr hwindow34).symm
  · refine ((hchange12.trans hchange34).trans hchange5).mono ?_
    rintro i ((hi | hi) | hi)
    · exact .inl ⟨hi.1, hi.2.trans (by decide)⟩
    · exact .inl ⟨(by decide : 0x7ffe8 ≤ 0x7fff0).trans hi.1, hi.2⟩
    · exact .inr hi

/-- A ROM whose checksums are right is kept. -/
theorem Holds.romData_eq (hholds : Holds rom) (h : rom.length = romSize) :
    (calculateChecksumResult rom).romData = rom := by
  have h12 : correct12 rom = (rom, true) := by
    rw [correct12_eq h, storePair_of_eq hholds.checksum1.symm hholds.checksum2.symm]
  have h34 : correct34 (rom, true) = (rom, true) := by
    rw [correct34_eq h, storePair_of_eq hholds.checksum3.symm hholds.checksum4.symm]
  have h5 : correct5 (rom, true) = (rom, true) := by
    rw [correct5_eq h]
    exact if_neg (not_not.2 hholds.checksum5)
  rw [EcuSubaruHitachiM32rCan.romData_eq, h12, h34, h5]

end Run

/-- **One run makes checksums 1 to 5 right at once, changes nothing but their slots, and a second run
gives the same bytes.** -/
theorem m32rCan_checksums_hold (rom : Bytes) (h : rom.length = romSize) :
    Holds (calculateChecksumResult rom).romData ∧
      (∀ i, ¬ (0x7ffe8 ≤ i ∧ i ≤ 0x7fff7) → ¬ (0x7fffa ≤ i ∧ i ≤ 0x7fffb) →
        (calculateChecksumResult rom).romData[i]? = rom[i]?) ∧
      (calculateChecksumResult (calculateChecksumResult rom).romData).romData =
        (calculateChecksumResult rom).romData := by
  obtain ⟨hholds, hchanges⟩ := run_holds h
  refine ⟨hholds, fun i hfirst hsecond => hchanges.kept i ?_, hholds.romData_eq (hchanges.length.trans h)⟩
  rintro (hi | hi)
  · exact hfirst ⟨hi.1, Nat.le_of_lt_succ hi.2⟩
  · exact hsecond ⟨hi.1, Nat.le_of_lt_succ hi.2⟩

theorem m32rCan_checksums_hold_zeros : Holds (calculateChecksumResult (List.replicate 0x80000 0)).romData :=
  (m32rCan_checksums_hold (List.replicate 0x80000 0) List.length_replicate).1

end EcuSubaruHitachiM32rCan

/-! ### K-Line -/

namespace EcuSubaruHitachiM32rKline

/-- The bytes of checksums 1 and 2. -/
def window12 : List ℕ := (List.range romSize).filter fun i => i < 0x8100 || i > 0x8101

/-- The words of checksum 3. -/
def window3 : List ℕ := wordPlaces 0x4000 0x8100 ++ wordPlaces 0x8104 0x80000

/-- The 8-bit sum of the bytes at places. -/
def byteSum (rom : Bytes) (places : List ℕ) : Byte := tally (· + ·) 0 (byteAt rom) places

/-- The 8-bit XOR of the bytes at places. -/
def byteXor (rom : Bytes) (places : List ℕ) : Byte := tally (· ^^^ ·) 0 (byteAt rom) places

/-- The three checksums of a ROM are right. -/
structure Holds (rom : Bytes) : Prop where
  checksum1 : byteAt rom 0x8100 = byteSum rom window12
  checksum2 : byteAt rom 0x8101 = byteXor rom window12
  checksum3 : (sumOf rom window3).toUInt16 = 0x5aa5

/-- The balance of a ROM. -/
def balance (rom : Bytes) : UInt16 := readU16Be rom 0x7fffa

/-- The balance that makes checksum 3 right. -/
def newBalance (rom : Bytes) : UInt16 := balance rom + 0x5aa5 - (sumOf rom window3).toUInt16

/-- The new balance has the byte sum and the byte XOR of the old one. -/
def KeepsBytes (rom : Bytes) : Prop :=
  byteOf (newBalance rom).toUInt32 8 + byteOf (newBalance rom).toUInt32 0 =
      byteOf (balance rom).toUInt32 8 + byteOf (balance rom).toUInt32 0 ∧
    byteOf (newBalance rom).toUInt32 8 ^^^ byteOf (newBalance rom).toUInt32 0 =
      byteOf (balance rom).toUInt32 8 ^^^ byteOf (balance rom).toUInt32 0

section Run

variable {rom rom' : Bytes} {state : Bytes × Bool}

theorem foldBytesOutside_eq (h : rom.length = romSize) :
    foldBytesOutside rom 0x8100 0x8101 = (byteSum rom window12, byteXor rom window12) := by
  have hfold : ∀ (l : List ℕ) (a b : Byte), l.foldl (fun fold i =>
      if i < 0x8100 || i > 0x8101 then (fold.1 + byteAt rom i, fold.2 ^^^ byteAt rom i) else fold) (a, b) =
      (a + tally (· + ·) 0 (byteAt rom) (l.filter fun i => i < 0x8100 || i > 0x8101),
        b ^^^ tally (· ^^^ ·) 0 (byteAt rom) (l.filter fun i => i < 0x8100 || i > 0x8101)) := by
    intro l
    induction l with
    | nil => simp
    | cons i l ih =>
      intro a b
      rw [List.foldl_cons]
      by_cases hi : (decide (i < 0x8100) || decide (i > 0x8101)) = true
      · rw [if_pos hi, ih, List.filter_cons, if_pos hi, tally_cons, tally_cons, UInt8.add_assoc,
          UInt8.xor_assoc]
      · rw [if_neg hi, ih, List.filter_cons, if_neg hi]
  rw [foldBytesOutside, h, hfold, byteSum, byteXor, window12, UInt8.zero_add, UInt8.zero_xor]

theorem mem_window12 {p : ℕ} : p ∈ window12 ↔ p < romSize ∧ (p < 0x8100 ∨ 0x8101 < p) := by
  rw [window12, List.mem_filter, List.mem_range]
  simp

theorem mem_window3 {p : ℕ} (h : p ∈ window3) : p + 4 ≤ 0x8100 ∨ 0x8102 ≤ p := by
  rcases List.mem_append.1 h with h | h
  · exact .inl (mem_wordPlaces h).2
  · exact .inr ((by decide : 0x8102 ≤ 0x8104).trans (mem_wordPlaces h).1)

theorem storeByte_spec {o : ℕ} {c s : Byte} (h : o < state.1.length) (hs : byteAt state.1 o = s) :
    ChangesOnly {o} state.1 (storeByte state o c s).1 ∧ byteAt (storeByte state o c s).1 o = c := by
  unfold storeByte
  by_cases hc : c = s
  · rw [if_neg (not_not.2 hc)]
    exact ⟨.refl _ _, hs.trans hc.symm⟩
  · rw [if_pos hc]
    refine ⟨⟨List.length_set, fun i hi => List.getElem?_set_ne fun heq => hi heq.symm⟩, ?_⟩
    rw [byteAt_eq_iff (by rw [List.length_set]; exact h), List.getElem?_set_self h]

theorem storeByte_of_eq {o : ℕ} {c s : Byte} (h : c = s) : storeByte state o c s = state :=
  if_neg (not_not.2 h)

/-- Checksums 1 and 2 are right after their repair. -/
theorem correct12_spec (h : rom.length = romSize) :
    ChangesOnly (Set.Ico 0x8100 0x8102) rom (correct12 rom).1 ∧
      byteAt (correct12 rom).1 0x8100 = byteSum rom window12 ∧
      byteAt (correct12 rom).1 0x8101 = byteXor rom window12 := by
  simp only [correct12, foldBytesOutside_eq h]
  obtain ⟨hfirst, hread⟩ := @storeByte_spec (rom, true) 0x8100 (byteSum rom window12) _
    (by rw [h]; decide) rfl
  obtain ⟨hsecond, hread'⟩ := @storeByte_spec _ 0x8101 (byteXor rom window12) (byteAt rom 0x8101)
    (by rw [hfirst.length, h]; decide) (byteAt_congr (hfirst.kept _ (by decide)))
  refine ⟨(hfirst.trans hsecond).mono ?_, ?_, hread'⟩
  · rintro i (rfl | rfl)
    · exact ⟨le_rfl, by decide⟩
    · exact ⟨by decide, by decide⟩
  · exact (byteAt_congr (hsecond.kept _ (by decide))).trans hread

/-- The repair of checksum 3 stores the new balance, which may be the old one. -/
theorem correct3_fst (h : state.1.length = romSize) :
    (correct3 state).1 = writeU16Be state.1 0x7fffa (newBalance state.1) := by
  have hfold : foldU32Be [subspan state.1 0x4000 0x4100, subspan state.1 0x8104 (0x80000 - 0x8104)] =
      ⟨sumOf state.1 window3, xorOf state.1 window3⟩ :=
    @foldU32Be_two state.1 0x4000 0x8100 0x8104 0x80000 (by decide) (by rw [h]; decide) (by decide)
      (by rw [h]; decide)
  simp only [correct3, drop_eq_subspan h, romSize, hfold, balanceU16Be]
  by_cases hsum : (sumOf state.1 window3).toUInt16 = 0x5aa5
  · rw [if_neg (not_not.2 hsum), newBalance, hsum]
    have hsame : balance state.1 + 0x5aa5 - 0x5aa5 = balance state.1 := by grind
    rw [hsame, balance, writeU16Be_readU16Be (by rw [h]; decide)]
  · rw [if_pos hsum]
    rfl

theorem correct3_snd (h : state.1.length = romSize) :
    (correct3 state).2 = (state.2 && decide ((sumOf state.1 window3).toUInt16 = 0x5aa5)) := by
  have hfold : foldU32Be [subspan state.1 0x4000 0x4100, subspan state.1 0x8104 (0x80000 - 0x8104)] =
      ⟨sumOf state.1 window3, xorOf state.1 window3⟩ :=
    @foldU32Be_two state.1 0x4000 0x8100 0x8104 0x80000 (by decide) (by rw [h]; decide) (by decide)
      (by rw [h]; decide)
  simp only [correct3, drop_eq_subspan h, romSize, hfold, balanceU16Be]
  by_cases hsum : (sumOf state.1 window3).toUInt16 = 0x5aa5
  · rw [if_neg (not_not.2 hsum), decide_eq_true hsum, Bool.and_true]
  · rw [if_pos hsum, decide_eq_false hsum, Bool.and_false]

theorem correct12_of_holds (hholds : Holds rom) (h : rom.length = romSize) :
    correct12 rom = (rom, true) := by
  simp only [correct12, foldBytesOutside_eq h]
  rw [storeByte_of_eq hholds.checksum1.symm, storeByte_of_eq hholds.checksum2.symm]

/-- A ROM whose checksums are right is kept, and reported as unchanged. -/
theorem Holds.unchanged (hholds : Holds rom) (h : rom.length = romSize) :
    (calculateChecksumResult rom).status = .unchanged ∧ (calculateChecksumResult rom).romData = rom := by
  have hfirst : (correct3 (rom, true)).1 = rom := by
    have hsame : newBalance rom = balance rom := by
      rw [newBalance, hholds.checksum3]
      grind
    rw [correct3_fst h]
    show writeU16Be rom 0x7fffa (newBalance rom) = rom
    rw [hsame]
    exact writeU16Be_readU16Be (by rw [h]; decide)
  have hflag : (correct3 (rom, true)).2 = true := by
    rw [correct3_snd h, Bool.true_and]
    exact decide_eq_true hholds.checksum3
  rw [calculateChecksumResult, correct12_of_holds hholds h]
  refine ⟨?_, (romData_finish _ _).trans hfirst⟩
  rw [status_finish, hflag, if_pos rfl]

/-- A halfword in the window of checksums 1 and 2 changes them by its bytes. -/
theorem tally_writeU16Be {op : Byte → Byte → Byte} [Std.Commutative op] [Std.Associative op]
    (h : rom.length = romSize) (v : UInt16) :
    op (byteOf (balance rom).toUInt32 8) (op (byteOf (balance rom).toUInt32 0)
        (tally op 0 (byteAt (writeU16Be rom 0x7fffa v)) window12)) =
      op (byteOf v.toUInt32 8) (op (byteOf v.toUInt32 0) (tally op 0 (byteAt rom) window12)) := by
  have hchanges := writeU16Be_changesOnly rom 0x7fffa v
  have hnodup : window12.Nodup := List.nodup_range.filter _
  have hold := @byteOf_readU16Be rom 0x7fffa (by rw [h]; decide)
  have hnew := @byteOf_readU16Be (writeU16Be rom 0x7fffa v) 0x7fffa
    (by rw [hchanges.length, h]; decide)
  rw [readU16Be_writeU16Be (by rw [h]; decide)] at hnew
  rw [balance, hold.1, hold.2, hnew.1, hnew.2]
  refine tally_update_two hnodup (mem_window12.2 (by decide)) (mem_window12.2 (by decide)) (by decide) ?_
  intro p _ hfirst hsecond
  refine byteAt_congr (hchanges.kept p fun hmem => ?_)
  have hbounds := Set.mem_Ico.1 hmem
  omega

/-- The sum and the XOR are kept exactly when those of the bytes of the halfword are. -/
theorem byteSum_writeU16Be_iff (h : rom.length = romSize) (v : UInt16) :
    byteSum (writeU16Be rom 0x7fffa v) window12 = byteSum rom window12 ↔
      byteOf v.toUInt32 8 + byteOf v.toUInt32 0 =
        byteOf (balance rom).toUInt32 8 + byteOf (balance rom).toUInt32 0 := by
  have htally : byteOf (balance rom).toUInt32 8 + (byteOf (balance rom).toUInt32 0 +
      byteSum (writeU16Be rom 0x7fffa v) window12) =
      byteOf v.toUInt32 8 + (byteOf v.toUInt32 0 + byteSum rom window12) := tally_writeU16Be h v
  constructor
  · intro hsame
    rw [hsame] at htally
    grind
  · intro hbytes
    grind

theorem byteXor_writeU16Be_iff (h : rom.length = romSize) (v : UInt16) :
    byteXor (writeU16Be rom 0x7fffa v) window12 = byteXor rom window12 ↔
      byteOf v.toUInt32 8 ^^^ byteOf v.toUInt32 0 =
        byteOf (balance rom).toUInt32 8 ^^^ byteOf (balance rom).toUInt32 0 := by
  have htally : byteOf (balance rom).toUInt32 8 ^^^ (byteOf (balance rom).toUInt32 0 ^^^
      byteXor (writeU16Be rom 0x7fffa v) window12) =
      byteOf v.toUInt32 8 ^^^ (byteOf v.toUInt32 0 ^^^ byteXor rom window12) := tally_writeU16Be h v
  rw [← UInt8.xor_assoc, ← UInt8.xor_assoc] at htally
  constructor
  · intro hsame
    rw [hsame] at htally
    exact ((UInt8.xor_left_inj _).1 htally).symm
  · intro hbytes
    rw [hbytes] at htally
    exact (UInt8.xor_right_inj _).1 htally

/-- **The checksums after one run are right at once exactly when the balance keeps its bytes' sum and
XOR.** -/
theorem run_holds_iff (h : rom.length = romSize) :
    Holds (calculateChecksumResult rom).romData ↔ KeepsBytes rom := by
  obtain ⟨hchanges, hread1, hread2⟩ := correct12_spec h
  have hlength : (correct12 rom).1.length = romSize := hchanges.length.trans h
  -- what checksum 3 and its balance see is kept by the repair of checksums 1 and 2
  have hsum3 : sumOf (correct12 rom).1 window3 = sumOf rom window3 :=
    hchanges.sumOf fun p hp => mem_window3 hp
  have hbalance : balance (correct12 rom).1 = balance rom :=
    hchanges.readU16Be (fun hmem => absurd hmem.2 (by decide)) fun hmem => absurd hmem.2 (by decide)
  have hnew : newBalance (correct12 rom).1 = newBalance rom := by rw [newBalance, hsum3, hbalance, newBalance]
  have hbytes : ∀ p ∈ window12, byteAt (correct12 rom).1 p = byteAt rom p := by
    intro p hp
    have hbounds := (mem_window12.1 hp).2
    refine byteAt_congr (hchanges.kept p fun hmem => ?_)
    have hin := Set.mem_Ico.1 hmem
    omega
  have hsum : byteSum (correct12 rom).1 window12 = byteSum rom window12 := tally_congr hbytes
  have hxor : byteXor (correct12 rom).1 window12 = byteXor rom window12 := tally_congr hbytes
  have hresult : (calculateChecksumResult rom).romData =
      writeU16Be (correct12 rom).1 0x7fffa (newBalance rom) := by
    rw [calculateChecksumResult, romData_finish, correct3_fst hlength, hnew]
  have hwrite := writeU16Be_changesOnly (correct12 rom).1 0x7fffa (newBalance rom)
  have hkept : ∀ p < 0x7fffa, byteAt (writeU16Be (correct12 rom).1 0x7fffa (newBalance rom)) p =
      byteAt (correct12 rom).1 p :=
    fun p hp => byteAt_congr (hwrite.kept p fun hmem => absurd hmem.1 (by omega))
  have hsumiff := byteSum_writeU16Be_iff hlength (newBalance rom)
  have hxoriff := byteXor_writeU16Be_iff hlength (newBalance rom)
  rw [hbalance] at hsumiff hxoriff
  rw [hresult, KeepsBytes, ← hsumiff, ← hxoriff, hsum, hxor]
  constructor
  · rintro ⟨hchecksum1, hchecksum2, -⟩
    rw [hkept _ (by decide), hread1] at hchecksum1
    rw [hkept _ (by decide), hread2] at hchecksum2
    exact ⟨hchecksum1.symm, hchecksum2.symm⟩
  · rintro ⟨hchecksum1, hchecksum2⟩
    refine ⟨?_, ?_, ?_⟩
    · rw [hkept _ (by decide), hread1, hchecksum1]
    · rw [hkept _ (by decide), hread2, hchecksum2]
    · have hrebalanced := @sumOf_rebalanceU16Be (correct12 rom).1 window3 0x7fff8
        (spaced_append (by decide))
        (List.mem_append_right _ (mem_wordPlaces_of (by decide) (by decide) (by decide)))
        (by rw [hlength]; decide) 0x5aa5
      rw [← hnew]
      exact hrebalanced

end Run

/-- **One run makes the three checksums right at once, so that a second run finds nothing to do, exactly
when the balance that it stores has the byte sum and the byte XOR of the one that it replaces.** -/
theorem m32rKline_checksums_hold_iff (rom : Bytes) (h : rom.length = romSize) :
    (Holds (calculateChecksumResult rom).romData ∧
      (calculateChecksumResult (calculateChecksumResult rom).romData).status = .unchanged ∧
      (calculateChecksumResult (calculateChecksumResult rom).romData).romData =
        (calculateChecksumResult rom).romData) ↔ KeepsBytes rom := by
  rw [← run_holds_iff h]
  constructor
  · exact fun hrun => hrun.1
  · intro hholds
    have hlength := (length_calculateChecksumResult rom).trans h
    exact ⟨hholds, hholds.unchanged hlength⟩

theorem newBalance_zeros : newBalance (List.replicate 0x80000 0) = 0x5aa5 := by
  have hbalance : balance (List.replicate 0x80000 0) = 0 := by
    rw [balance, readU16Be, byteAt_zeros, byteAt_zeros]
    split_ifs <;> rfl
  rw [newBalance, sumOf_zeros, hbalance]
  rfl

theorem not_keepsBytes_zeros : ¬ KeepsBytes (List.replicate 0x80000 0) := by
  have hbalance : balance (List.replicate 0x80000 0) = 0 := by
    rw [balance, readU16Be, byteAt_zeros, byteAt_zeros]
    split_ifs <;> rfl
  rw [KeepsBytes, newBalance_zeros, hbalance]
  decide

/-- A ROM of zeros is not right after one run. -/
theorem m32rKline_zeros_not_right :
    ¬ (∀ rom : Bytes, rom.length = romSize → Holds (calculateChecksumResult rom).romData ∧
      (calculateChecksumResult (calculateChecksumResult rom).romData).status = .unchanged ∧
      (calculateChecksumResult (calculateChecksumResult rom).romData).romData =
        (calculateChecksumResult rom).romData) := by
  intro hall
  have hholds := (hall (List.replicate 0x80000 0) List.length_replicate).1
  exact not_keepsBytes_zeros ((run_holds_iff List.length_replicate).1 hholds)

theorem m32rKline_checksums_hold_iff_zeros :
    ¬ Holds (calculateChecksumResult (List.replicate 0x80000 0)).romData := by
  intro hholds
  have hlength : (List.replicate 0x80000 (0 : Byte)).length = romSize := List.length_replicate
  have hunchanged := hholds.unchanged ((length_calculateChecksumResult _).trans hlength)
  exact not_keepsBytes_zeros ((m32rKline_checksums_hold_iff _ hlength).1 ⟨hholds, hunchanged⟩)

end EcuSubaruHitachiM32rKline

end FastEcu.Checksum
