import FastEcu.Checksum.Windows

/-!
# The Mitsubishi M32R family and the ECU's own checker

The ECU sums its flash page by page and takes six correction words out of the sum
(`RunEcuRomCrcChecker` in `checksum_ecu_mitsu_m32r_can_test.cpp`, read out of the disassembly);
`ChecksumEcuMitsuM32rCan` folds the whole area at once.

* `EcuMitsuM32rCan.runEcuRomCrcChecker` : the ECU's two passes.
* `EcuMitsuM32rCan.finalized_eq_checksumOf` : the page walk ends with the sum of the tool.
* `EcuMitsuM32rCan.calculateChecksumResult_satisfies_ecu` : the ECU accepts what a run gives back.
-/

namespace FastEcu.Checksum

open Data

namespace EcuMitsuM32rCan

/-! ### The ECU's checker -/

/-- `kPageSize`. -/
def pageSize : ℕ := 512

/-- `kExclusionFlag`. -/
def exclusionFlag : ℕ := 0x5013E

/-- `EcuBlockSum`: the sum of the words of a page. -/
def ecuBlockSum (rom : Bytes) (page : ℕ) : UInt32 :=
  (List.range (pageSize / 4)).foldl (fun sum k => sum + readU32Be rom (page + 4 * k)) 0

/-- The pages that a walk from `start` visits before it reaches `stop`. -/
def pages (start stop : ℕ) : List ℕ :=
  (List.range ((stop - start + (pageSize - 1)) / pageSize)).map (start + pageSize * ·)

/-- `EcuCheckerPasses`. -/
structure EcuCheckerPasses where
  /-- The sum of pass 1 without the correction words. -/
  finalized : UInt32 := 0
  /-- What pass 1 latched for the special pages. -/
  specialPagesCrc : UInt32 := 0
  /-- The sum of pass 2. -/
  secondPassCrc : UInt32 := 0
deriving DecidableEq

/-- A page of pass 1: the sum of the special pages and the sum of all pages so far. -/
def checkBlock (rom : Bytes) (sumEveryPage : Bool) (crcs : UInt32 × UInt32) (page : ℕ) :
    UInt32 × UInt32 :=
  let excluded := !sumEveryPage && decide (page ≥ 0x50000) && decide (page < 0x5A000)
  let blockSum := if excluded then 0 else ecuBlockSum rom page
  (if page ≥ 0x56000 ∧ page < 0x5F0D0 then crcs.1 + blockSum else crcs.1, crcs.2 + blockSum)

/-- `rom_crc_finalize`: takes the six correction words out of the sum. -/
def romCrcFinalize (rom : Bytes) (crc : UInt32) : UInt32 :=
  (List.range 5).foldl (fun finalized index =>
      finalized - readU32Be rom (correctionWords + 2 + index * 4))
    (crc - (readU16Be rom correctionWords).toUInt32) + 0xFFFF - 5

/-- `RunEcuRomCrcChecker`. -/
def runEcuRomCrcChecker (rom : Bytes) (areaEnd : ℕ) : EcuCheckerPasses :=
  let sumEveryPage := byteAt rom exclusionFlag != 0
  let crcs := (pages 0 areaEnd).foldl (checkBlock rom sumEveryPage) (0, 0)
  { finalized := romCrcFinalize rom crcs.2
    specialPagesCrc := crcs.1
    secondPassCrc := (pages 0x56000 0x5F0D0).foldl (fun crc page => crc + ecuBlockSum rom page) 0 }

/-- Pass 1 leaves no page of the area out. -/
def SumsEveryPage (rom : Bytes) (areaEnd : ℕ) : Prop :=
  byteAt rom exclusionFlag ≠ 0 ∨ areaEnd ≤ 0x50000

/-! ### The walk and the fold -/

section Walk

variable {rom : Bytes} {areaEnd : ℕ}

theorem ecuBlockSum_eq (rom : Bytes) (page : ℕ) :
    ecuBlockSum rom page = sumOf rom (wordPlaces page (page + pageSize)) := by
  have hcount : (page + pageSize - page) / 4 = pageSize / 4 := by rw [Nat.add_sub_cancel_left]
  rw [sumOf, wordPlaces, hcount, tally, List.foldr_map]
  exact (foldl_eq_op_tally _ _).trans (UInt32.zero_add _)

/-- Pages of an area that is whole pages. -/
theorem pages_eq (count : ℕ) :
    pages 0 (pageSize * count) = (List.range count).map (pageSize * ·) := by
  have hcount : (pageSize * count - 0 + (pageSize - 1)) / pageSize = count := by
    simp only [pageSize]
    omega
  simp only [pages, hcount, Nat.zero_add]

/-- The words of the pages are the words of the area. -/
theorem flatMap_pages (count : ℕ) :
    (pages 0 (pageSize * count)).flatMap (fun page => wordPlaces page (page + pageSize)) =
      wordPlaces 0 (pageSize * count) := by
  induction count with
  | zero => rfl
  | succ count ih =>
    rw [pages_eq] at ih ⊢
    rw [List.range_succ, List.map_append, List.flatMap_append, ih, List.map_singleton,
      List.flatMap_singleton, Nat.mul_succ]
    exact wordPlaces_append (Nat.zero_le _) (Nat.le_add_right _ _) (by simp only [pageSize]; omega)

/-- A page that is not left out adds its words to the sum. -/
theorem checkBlock_snd {sumEveryPage : Bool} {page : ℕ} (h : sumEveryPage = true ∨ page < 0x50000)
    (crcs : UInt32 × UInt32) :
    (checkBlock rom sumEveryPage crcs page).2 = crcs.2 + ecuBlockSum rom page := by
  have hexcluded :
      (!sumEveryPage && decide (page ≥ 0x50000) && decide (page < 0x5A000)) = false := by
    rcases h with h | h
    · simp [h]
    · simp [Nat.not_le.2 h]
  simp only [checkBlock, hexcluded, Bool.false_eq_true, if_false]

/-- A walk that leaves no page out adds the words of all its pages. -/
theorem foldl_checkBlock_snd {sumEveryPage : Bool} {walk : List ℕ}
    (h : ∀ page ∈ walk, sumEveryPage = true ∨ page < 0x50000) (crcs : UInt32 × UInt32) :
    (walk.foldl (checkBlock rom sumEveryPage) crcs).2 =
      crcs.2 + tally (· + ·) 0 (ecuBlockSum rom) walk := by
  induction walk generalizing crcs with
  | nil => simp
  | cons page walk ih =>
    have hpage := h page (List.mem_cons_self ..)
    rw [List.foldl_cons, ih fun p hp => h p (List.mem_cons_of_mem _ hp), checkBlock_snd hpage,
      tally_cons, UInt32.add_assoc]

theorem checksumOf_eq (hfits : areaEnd ≤ rom.length) :
    checksumOf rom areaEnd = romCrcFinalize rom (sumOf rom (wordPlaces 0 areaEnd)) := by
  have hfold : (foldU32Be [rom.take areaEnd]).sum = sumOf rom (wordPlaces 0 areaEnd) :=
    congrArg WordFold.sum (foldU32Be_one (Nat.zero_le _) hfits)
  simp only [checksumOf, romCrcFinalize, hfold, correctionWordCount]

/-- **The page walk of the ECU ends with the sum of the tool.** -/
theorem finalized_eq_checksumOf (hpages : areaEnd % pageSize = 0) (hfits : areaEnd ≤ rom.length)
    (hevery : SumsEveryPage rom areaEnd) :
    (runEcuRomCrcChecker rom areaEnd).finalized = checksumOf rom areaEnd := by
  obtain ⟨count, rfl⟩ : ∃ count, areaEnd = pageSize * count :=
    ⟨areaEnd / pageSize, (Nat.mul_div_cancel' (Nat.dvd_of_mod_eq_zero hpages)).symm⟩
  have hwalk : ∀ page ∈ pages 0 (pageSize * count),
      (byteAt rom exclusionFlag != 0) = true ∨ page < 0x50000 := by
    intro page hpage
    refine hevery.imp (fun hflag => bne_iff_ne.2 hflag) fun hend => ?_
    rw [pages_eq] at hpage
    obtain ⟨k, hk, rfl⟩ := List.mem_map.1 hpage
    have hlt := List.mem_range.1 hk
    simp only [pageSize] at hend ⊢
    omega
  have hsum : tally (· + ·) 0 (ecuBlockSum rom) (pages 0 (pageSize * count)) =
      sumOf rom (wordPlaces 0 (pageSize * count)) := by
    rw [sumOf, ← flatMap_pages, tally_flatMap]
    exact congrFun (congrArg _ (funext fun page => ecuBlockSum_eq rom page)) _
  rw [checksumOf_eq hfits]
  simp only [runEcuRomCrcChecker, foldl_checkBlock_snd hwalk, hsum, UInt32.zero_add]

end Walk

/-! ### The balance -/

section Balance

variable {rom rom' : Bytes} {areaEnd : ℕ}

/-- Every area is whole pages, and the balance and the correction words lie in it. -/
theorem areaEndFor_eq_some {code : Byte} (h : areaEndFor code = some areaEnd) :
    areaEnd % pageSize = 0 ∧ 0x40000 ≤ areaEnd := by
  obtain ⟨area, harea, rfl⟩ := Option.map_eq_some_iff.1 h
  have hall : ∀ area ∈ areaCodes, area.2 % pageSize = 0 ∧ 0x40000 ≤ area.2 := by decide
  exact hall area (List.mem_of_find?_eq_some harea)

theorem romCrcFinalize_eq (rom : Bytes) (crc : UInt32) : romCrcFinalize rom crc =
    crc - (readU16Be rom 0x3FFCE).toUInt32 - readU32Be rom 0x3FFD0 - readU32Be rom 0x3FFD4 -
      readU32Be rom 0x3FFD8 - readU32Be rom 0x3FFDC - readU32Be rom 0x3FFE0 + 0xFFFF - 5 := rfl

/-- What is added to the sum of the area is added to the finalized sum. -/
theorem romCrcFinalize_add (rom : Bytes) (crc difference : UInt32) :
    romCrcFinalize rom (crc + difference) = romCrcFinalize rom crc + difference := by
  rw [romCrcFinalize_eq, romCrcFinalize_eq]
  grind

/-- The balance is none of the correction words. -/
theorem romCrcFinalize_of_changesOnly
    (h : ChangesOnly (Set.Ico balanceSlot (balanceSlot + 4)) rom rom') (crc : UInt32) :
    romCrcFinalize rom' crc = romCrcFinalize rom crc := by
  have hword : ∀ p, 0x3FFC4 ≤ p → readU32Be rom' p = readU32Be rom p := by
    intro p hp
    refine h.readU32Be fun i _ hmem => ?_
    have hlt : p + i < balanceSlot + 4 := (Set.mem_Ico.1 hmem).2
    simp only [balanceSlot] at hlt
    omega
  have hhalf : readU16Be rom' 0x3FFCE = readU16Be rom 0x3FFCE :=
    h.readU16Be (fun hmem => absurd hmem.2 (by decide)) fun hmem => absurd hmem.2 (by decide)
  rw [romCrcFinalize_eq, romCrcFinalize_eq, hhalf, hword _ (by decide), hword _ (by decide),
    hword _ (by decide), hword _ (by decide), hword _ (by decide)]

/-- **The rebalanced area has the target as its checksum.** -/
theorem checksumOf_rebalanceU32Be (hend : 0x40000 ≤ areaEnd) (hfits : areaEnd ≤ rom.length)
    (target : UInt32) :
    checksumOf (rebalanceU32Be rom balanceSlot (checksumOf rom areaEnd) target) areaEnd = target := by
  have hslot : balanceSlot + 4 ≤ areaEnd := (by decide : balanceSlot + 4 ≤ 0x40000).trans hend
  have hchanges := writeU32Be_changesOnly rom balanceSlot
    (readU32Be rom balanceSlot + target - checksumOf rom areaEnd)
  have hsum := sumOf_writeU32Be (spaced_wordPlaces 0 areaEnd)
    (mem_wordPlaces_of (Nat.zero_le _) hslot (by decide)) (hslot.trans hfits)
    (readU32Be rom balanceSlot + target - checksumOf rom areaEnd)
  have hshift : sumOf (rebalanceU32Be rom balanceSlot (checksumOf rom areaEnd) target)
      (wordPlaces 0 areaEnd) = sumOf rom (wordPlaces 0 areaEnd) + (target - checksumOf rom areaEnd) := by
    rw [rebalanceU32Be, hsum]
    grind
  rw [checksumOf_eq (by rw [rebalanceU32Be, hchanges.length]; exact hfits), hshift,
    romCrcFinalize_add, rebalanceU32Be, romCrcFinalize_of_changesOnly hchanges, ← checksumOf_eq hfits]
  grind

end Balance

/-! ### Runs -/

section Run

variable {rom : Bytes} {areaEnd : ℕ}

/-- A ROM whose area code is recognised and whose area fits. -/
structure HasArea (rom : Bytes) (areaEnd : ℕ) : Prop where
  /-- The code of the area. -/
  code : areaEndFor (byteAt rom areaCodeOffset) = some areaEnd
  /-- The area fits. -/
  fits : areaEnd ≤ rom.length

/-- A run on such a ROM. -/
theorem HasArea.calculateChecksumResult_eq (h : HasArea rom areaEnd) :
    calculateChecksumResult rom =
      if checksumOf rom areaEnd = targetChecksum then { status := .unchanged, romData := rom }
      else
        { status := .corrected
          romData := rebalanceU32Be rom balanceSlot (checksumOf rom areaEnd) targetChecksum
          message := "Mitsubishi M32R CAN ECU Checksum" } := by
  have hlayout : ¬ rom.length < layoutEnd := by
    have hend := (areaEndFor_eq_some h.code).2.trans h.fits
    simp only [layoutEnd, correctionWords, correctionWordCount]
    omega
  unfold calculateChecksumResult
  rw [if_neg hlayout, h.code]
  exact if_neg (Nat.not_lt.2 h.fits)

/-- A ROM of any other kind. -/
theorem calculateChecksumResult_of_not_hasArea (h : ∀ areaEnd, ¬ HasArea rom areaEnd) :
    (calculateChecksumResult rom).romData = rom ∧
      (calculateChecksumResult rom).status ≠ .corrected := by
  unfold calculateChecksumResult
  by_cases hlayout : rom.length < layoutEnd
  · rw [if_pos hlayout]
    exact ⟨rfl, fun h => nomatch h⟩
  · rw [if_neg hlayout]
    cases hcode : areaEndFor (byteAt rom areaCodeOffset) with
    | none => exact ⟨rfl, fun h => nomatch h⟩
    | some areaEnd =>
      have hpast : areaEnd > rom.length := Nat.lt_of_not_le fun hfits => h areaEnd ⟨hcode, hfits⟩
      dsimp only
      rw [if_pos hpast]
      exact ⟨rfl, fun h => nomatch h⟩

/-- A run changes the balance at most. -/
theorem HasArea.changesOnly (h : HasArea rom areaEnd) :
    ChangesOnly (Set.Ico balanceSlot (balanceSlot + 4)) rom (calculateChecksumResult rom).romData := by
  rw [h.calculateChecksumResult_eq]
  split_ifs
  · exact .refl _ _
  · exact writeU32Be_changesOnly _ _ _

theorem HasArea.checksumOf_romData (h : HasArea rom areaEnd) :
    checksumOf (calculateChecksumResult rom).romData areaEnd = targetChecksum := by
  rw [h.calculateChecksumResult_eq]
  split_ifs with hsum
  · exact hsum
  · exact checksumOf_rebalanceU32Be (areaEndFor_eq_some h.code).2 h.fits targetChecksum

theorem HasArea.status_eq_unchanged_iff (h : HasArea rom areaEnd) :
    (calculateChecksumResult rom).status = .unchanged ↔ checksumOf rom areaEnd = targetChecksum := by
  rw [h.calculateChecksumResult_eq]
  split_ifs with hsum
  · exact iff_of_true rfl hsum
  · exact iff_of_false (fun heq => nomatch heq) hsum

/-- The area code and the exclusion flag are outside the balance. -/
theorem HasArea.byteAt_romData (h : HasArea rom areaEnd) {offset : ℕ} (hoffset : 0x3FFC4 ≤ offset) :
    byteAt (calculateChecksumResult rom).romData offset = byteAt rom offset :=
  byteAt_congr (h.changesOnly.kept offset fun hmem =>
    absurd hmem.2 (Nat.not_lt.2 hoffset))

theorem HasArea.romData (h : HasArea rom areaEnd) :
    HasArea (calculateChecksumResult rom).romData areaEnd :=
  ⟨by rw [h.byteAt_romData (by decide), h.code], by rw [h.changesOnly.length]; exact h.fits⟩

end Run

/-- **The ECU's page walk accepts what a run gives back.** Only the balance changes, the status says
whether the ECU accepted the ROM before, and a second run finds nothing to do.  A ROM without a
recognised area that fits is given back as it is. -/
theorem calculateChecksumResult_satisfies_ecu (rom : Bytes) :
    (∀ areaEnd, HasArea rom areaEnd → SumsEveryPage rom areaEnd →
      (runEcuRomCrcChecker (calculateChecksumResult rom).romData areaEnd).finalized = 0x5AA55AA5 ∧
      (calculateChecksumResult rom).romData.length = rom.length ∧
      (∀ i, ¬ (0x3FFC0 ≤ i ∧ i < 0x3FFC0 + 4) →
        (calculateChecksumResult rom).romData[i]? = rom[i]?) ∧
      ((calculateChecksumResult rom).status = .unchanged ↔
        (runEcuRomCrcChecker rom areaEnd).finalized = 0x5AA55AA5) ∧
      (calculateChecksumResult (calculateChecksumResult rom).romData).status = .unchanged) ∧
    ((∀ areaEnd, ¬ HasArea rom areaEnd) →
      (calculateChecksumResult rom).romData = rom ∧
        (calculateChecksumResult rom).status ≠ .corrected) := by
  refine ⟨fun areaEnd h hevery => ?_, calculateChecksumResult_of_not_hasArea⟩
  have hpages := (areaEndFor_eq_some h.code).1
  have hevery' : SumsEveryPage (calculateChecksumResult rom).romData areaEnd := by
    rw [SumsEveryPage, h.byteAt_romData (by decide)]
    exact hevery
  rw [finalized_eq_checksumOf hpages h.romData.fits hevery', finalized_eq_checksumOf hpages h.fits hevery]
  exact ⟨h.checksumOf_romData, h.changesOnly.length, h.changesOnly.kept, h.status_eq_unchanged_iff,
    h.romData.status_eq_unchanged_iff.2 h.checksumOf_romData⟩

/-- A ROM of zeros with an area code. -/
theorem hasArea_set {size : ℕ} {code : Byte} {areaEnd : ℕ} (hcode : areaEndFor code = some areaEnd)
    (hfits : areaEnd ≤ size) : HasArea ((List.replicate size 0).set areaCodeOffset code) areaEnd := by
  have hlength : ((List.replicate size (0 : Byte)).set areaCodeOffset code).length = size := by
    rw [List.length_set, List.length_replicate]
  have hend := (areaEndFor_eq_some hcode).2.trans hfits
  have hoffset : areaCodeOffset < size := lt_of_lt_of_le (by decide) hend
  refine ⟨?_, by rw [hlength]; exact hfits⟩
  rw [(byteAt_eq_iff (by rw [hlength]; exact hoffset)).2, hcode]
  rw [List.getElem?_set_self (by rw [List.length_replicate]; exact hoffset)]

theorem calculateChecksumResult_satisfies_ecu_zeros :
    (runEcuRomCrcChecker
      (calculateChecksumResult ((List.replicate 0x60000 0).set areaCodeOffset 0x40)).romData
      0x40000).finalized = 0x5AA55AA5 ∧ (calculateChecksumResult []).romData = [] :=
  ⟨((calculateChecksumResult_satisfies_ecu _).1 0x40000 (hasArea_set rfl (by decide))
      (.inr (by decide))).1,
    ((calculateChecksumResult_satisfies_ecu []).2 fun areaEnd h =>
      absurd ((areaEndFor_eq_some h.code).2.trans h.fits) (by decide)).1⟩

end EcuMitsuM32rCan

end FastEcu.Checksum
