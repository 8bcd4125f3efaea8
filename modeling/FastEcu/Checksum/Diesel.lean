import FastEcu.Checksum.DensoTable
import FastEcu.Memory.Image

/-!
# The Denso SH705x diesel family

`ChecksumEcuSubaruDensoSH705xDiesel::CalculateChecksumResult`
(`src/algorithms/checksum/checksum_ecu_subaru_denso_sh705x_diesel.cpp`).  The table at `0x1FF800` is
followed by a second one at `0x1FF8E8`: both are corrected on the same buffer, and a failure of the
second takes the corrections of the first back.

* `primary_ends_before_secondary` : a first table long enough to run into the second one leaves
  there a record that the ECU does not accept, so two tables that are both corrected are apart.
* `TableVerifies.congr` : a table verifies on any ROM that agrees on it and on its blocks.
-/

namespace FastEcu.Checksum.EcuSubaruDensoSH705xDiesel

open Memory

/-- The word that each of the two checksum areas leaves out of its sums. -/
def activeOverrides (checksumAreaStart : ℕ) : List DensoWordOverride :=
  if checksumAreaStart = 0x0FFB80 then [⟨0x0FFAFC, 0xFFFFFFFF⟩]
  else if checksumAreaStart = 0x17FB80 then [⟨0x17FAFC, 0xFFFFFFFF⟩]
  else []

/-- The table of the definition. -/
def primary (tableAddress : FlashAddress) (tableLength : UInt32) : DensoTableSpec where
  tableAddress := tableAddress
  tableLength := tableLength
  overrides := activeOverrides tableAddress.value

/-- The second table. -/
def secondary : DensoTableSpec where
  tableAddress := ⟨0x1FF8E8, by decide⟩
  tableLength := 24
  detectDisabled := false

/-- The second correction, on the ROM that the first one left. -/
def correctSecondary (base tableAddress : FlashAddress) (romData : Bytes) :
    DensoTableOutcome × Bytes :=
  if tableAddress.value = 0x1FF800 then correctDensoTable base romData secondary
  else (.unchanged, romData)

/-- `CalculateChecksumResult`. -/
def calculateChecksumResult (rom : MemoryView) (tableAddress : FlashAddress)
    (tableLength : UInt32) : ChecksumResult :=
  let base := rom.range.start
  let first := correctDensoTable base rom.data (primary tableAddress tableLength)
  if first.1 = .disabled then
    { status := .disabled, romData := first.2, message := "ROM has all checksums disabled" }
  else
    match failureOf first.1 with
    | some (status, message) => { status := status, romData := first.2, message := message }
    | none =>
      let second := correctSecondary base tableAddress first.2
      match failureOf second.1 with
      | some (status, message) => { status := status, romData := rom.data, message := message }
      | none =>
        if first.1 = .corrected || second.1 = .corrected then
          { status := .corrected, romData := second.2, message := "Subaru Denso SH705x Checksum" }
        else { status := .unchanged, romData := second.2 }

/-- The tables that a run corrects. -/
def tables (tableAddress : FlashAddress) (tableLength : UInt32) : List DensoTableSpec :=
  if tableAddress.value = 0x1FF800 then [primary tableAddress tableLength, secondary]
  else [primary tableAddress tableLength]

/-- No block of any of the tables covers a byte of a stored word of any of them. -/
def StoredUncoveredBy (base : FlashAddress) (rom : Bytes) (specs : List DensoTableSpec) : Prop :=
  ∀ s ∈ specs, ∀ t ∈ specs, ∀ i < s.records, ∀ k, StoredByte base t k →
    ¬ (tableRecord base rom s i).Covers base k

/-! ### Tables on ROMs that agree -/

section Agreement

variable {base : FlashAddress} {rom rom' : Bytes} {spec other : DensoTableSpec}

theorem storedByte_mem_table {size k : ℕ} (hin : TableInRom base size spec)
    (h : StoredByte base spec k) :
    tableStart base spec ≤ k ∧ k < tableStart base spec + spec.tableLength.toNat := by
  obtain ⟨i, hi, hle, hlt⟩ := h
  have hpos := (recordPosition_add_le hin hi).1
  have hstart : tableStart base spec ≤ recordPosition (tableStart base spec) i :=
    Nat.le_add_right _ _
  omega

theorem tableRecord_congr (hin : TableInRom base rom.length spec) (hlen : rom.length = rom'.length)
    (h : ∀ k, tableStart base spec ≤ k → k < tableStart base spec + spec.tableLength.toNat →
      rom[k]? = rom'[k]?) {i : ℕ} (hi : i < spec.records) :
    tableRecord base rom spec i = tableRecord base rom' spec i := by
  have hpos := (recordPosition_add_le hin hi).1
  have hstart : tableStart base spec ≤ recordPosition (tableStart base spec) i :=
    Nat.le_add_right _ _
  rw [recordLength] at hpos
  have hword : ∀ c ≤ 8, readU32Be rom (recordPosition (tableStart base spec) i + c) =
      readU32Be rom' (recordPosition (tableStart base spec) i + c) := fun c hc =>
    readU32Be_congr hlen fun b hb => h _ (by omega) (by omega)
  simp only [tableRecord, readRecord, DensoRecord.mk.injEq]
  exact ⟨hword 0 (by decide), hword 4 (by decide), hword 8 le_rfl⟩

/-- Two tables with no byte in common. -/
def Apart (base : FlashAddress) (s t : DensoTableSpec) : Prop :=
  tableStart base s + s.tableLength.toNat ≤ tableStart base t ∨
    tableStart base t + t.tableLength.toNat ≤ tableStart base s

/-- Correcting a table leaves the records of another one as they are. -/
theorem tableRecord_of_corrects_other (hcorr : Corrects base other rom rom')
    (hin : TableInRom base rom.length spec) (hother : TableInRom base rom.length other)
    (hapart : Apart base other spec) {i : ℕ} (hi : i < spec.records) :
    tableRecord base rom spec i = tableRecord base rom' spec i := by
  refine tableRecord_congr hin hcorr.length_eq.symm (fun k hk hlt => ?_) hi
  refine (hcorr.frame k fun hs => ?_).symm
  have hmem := storedByte_mem_table hother hs
  obtain h | h := hapart
  · omega
  · omega

/-- Correcting a table keeps another one right, when no block of the other covers a stored word of
the one that is corrected. -/
theorem verifies_of_corrects_other (hcorr : Corrects base other rom rom')
    (hin : TableInRom base rom.length spec) (hother : TableInRom base rom.length other)
    (hapart : Apart base other spec) (hunc : ∀ i < spec.records, ∀ k, StoredByte base other k →
      ¬ (tableRecord base rom spec i).Covers base k) (hv : TableVerifies base rom spec) :
    TableVerifies base rom' spec := by
  intro i hi
  exact verifies_congr hcorr.length_eq.symm (tableRecord_of_corrects_other hcorr hin hother hapart hi)
    (fun k hk => (hcorr.frame k fun hs => hunc i hi k hs hk).symm) (hv i hi)

end Agreement

/-! ### The two tables -/

section TwoTables

variable {base tableAddress : FlashAddress} {tableLength : UInt32} {rom rom₁ : Bytes}

/-- A first table that ran into the second one would leave there a record that the ECU does not
accept: the end of its twentieth record would be the start of a block, so that the block of the
twentieth record is empty, and its stored word, the target, would be the end of one. -/
theorem primary_ends_before_secondary (haddress : tableAddress.value = 0x1FF800)
    (hin : TableInRom base rom.length (primary tableAddress tableLength))
    (hblocks : BlocksInRom base rom (primary tableAddress tableLength))
    (hcorr : Corrects base (primary tableAddress tableLength) rom rom₁)
    (hblocks₂ : BlocksInRom base rom₁ secondary) :
    Apart base (primary tableAddress tableLength) secondary := by
  have hle := hin.base_le
  have hmod := hin.length_mod
  have hstart : tableStart base (primary tableAddress tableLength) = 0x1FF800 - base.value := by
    rw [← haddress]; rfl
  have hsecond : tableStart base secondary = 0x1FF8E8 - base.value := rfl
  have hle' : base.value ≤ 0x1FF800 := haddress ▸ hle
  refine .inl ?_
  by_contra hlong
  have h19 : 19 < (primary tableAddress tableLength).records := by
    rw [DensoTableSpec.records, recordLength] at *
    omega
  have hrec := hcorr.tableRecord_eq h19
  have hposition : recordPosition (tableStart base secondary) 0 =
      recordPosition (tableStart base (primary tableAddress tableLength)) 19 + 4 := by
    rw [hstart, hsecond, recordPosition, recordPosition, recordLength]
    omega
  have hstart₂ : (tableRecord base rom₁ secondary 0).start =
      (tableRecord base rom (primary tableAddress tableLength) 19).stop := by
    calc (tableRecord base rom₁ secondary 0).start
        = (tableRecord base rom₁ (primary tableAddress tableLength) 19).stop := by
          rw [tableRecord, hposition]; rfl
      _ = (tableRecord base rom (primary tableAddress tableLength) 19).stop := by rw [hrec]; rfl
  have hstop₂ : (tableRecord base rom₁ secondary 0).stop =
      (tableRecord base rom (primary tableAddress tableLength) 19).expected base rom
        (activeOverrides tableAddress.value) := by
    calc (tableRecord base rom₁ secondary 0).stop
        = (tableRecord base rom₁ (primary tableAddress tableLength) 19).stored := by
          rw [tableRecord, hposition]; rfl
      _ = _ := by rw [hrec]; rfl
  obtain ⟨-, -, h⟩ := ecuAcceptsBlock_iff.1 (hblocks 19 h19).accepted
  obtain ⟨hmod₂, -, h₂⟩ := ecuAcceptsBlock_iff.1 (hblocks₂ 0 (by decide)).accepted
  rw [hstart₂] at hmod₂ h₂
  have hempty := h.resolve_right (by omega)
  have htarget : (tableRecord base rom₁ secondary 0).stop = checksumTarget := by
    rw [hstop₂, DensoRecord.expected, blockSum, if_pos hempty, UInt32.sub_zero]
  rw [htarget] at h₂
  obtain h₂ | h₂ := h₂
  · rw [h₂] at hmod₂
    exact absurd hmod₂ (by decide)
  · exact absurd h₂ (by decide)

/-- The outcomes of the second correction: the second table is never switched off. -/
theorem correctSecondary_cases (base tableAddress : FlashAddress) (hsize : rom₁.length < 2 ^ 32) :
    failureOf (correctSecondary base tableAddress rom₁).1 ≠ none ∨
    ∃ rom₂, (tableAddress.value = 0x1FF800 → TableInRom base rom₁.length secondary ∧
        BlocksInRom base rom₁ secondary ∧ Corrects base secondary rom₁ rom₂) ∧
      (tableAddress.value ≠ 0x1FF800 → rom₂ = rom₁) ∧
      correctSecondary base tableAddress rom₁ =
        (if rom₂ = rom₁ then .unchanged else .corrected, rom₂) := by
  unfold correctSecondary
  split_ifs with haddress
  · obtain ⟨-, o, ho, hrun⟩ | ⟨-, hoff, -⟩ | ⟨hin, hblocks, -, rom₂, hcorr, hrun⟩ :=
      correctDensoTable_cases base secondary hsize
    · rw [hrun]
      exact .inl ho
    · exact absurd hoff.1 (by decide)
    · exact .inr ⟨rom₂, fun _ => ⟨hin, hblocks, hcorr⟩, fun h => absurd haddress h, hrun⟩
  · exact .inr ⟨rom₁, fun h => absurd h haddress, fun _ => rfl, by rw [if_pos rfl]⟩

theorem failureOf_status {o : DensoTableOutcome} {status : Status} {message : String}
    (h : failureOf o = some (status, message)) : status ≠ .corrected ∧ status ≠ .unchanged := by
  cases o <;> simp only [failureOf, Option.some.injEq, Prod.mk.injEq, reduceCtorEq] at h <;>
    rw [← h.1] <;> decide

/-- The two corrections, one after the other. -/
theorem calculateChecksumResult_cases (rom : MemoryView) (tableAddress : FlashAddress)
    (tableLength : UInt32) :
    ((calculateChecksumResult rom tableAddress tableLength).status ≠ .corrected ∧
      (calculateChecksumResult rom tableAddress tableLength).status ≠ .unchanged ∧
      (calculateChecksumResult rom tableAddress tableLength).romData = rom.data) ∨
    (TableInRom rom.range.start rom.data.length (primary tableAddress tableLength) ∧
      BlocksInRom rom.range.start rom.data (primary tableAddress tableLength) ∧
      ∃ rom₁ rom₂,
        Corrects rom.range.start (primary tableAddress tableLength) rom.data rom₁ ∧
        (tableAddress.value = 0x1FF800 → TableInRom rom.range.start rom₁.length secondary ∧
          BlocksInRom rom.range.start rom₁ secondary ∧
          Corrects rom.range.start secondary rom₁ rom₂) ∧
        (tableAddress.value ≠ 0x1FF800 → rom₂ = rom₁) ∧
        (calculateChecksumResult rom tableAddress tableLength).romData = rom₂ ∧
        (calculateChecksumResult rom tableAddress tableLength).status =
          if rom₁ = rom.data ∧ rom₂ = rom₁ then .unchanged else .corrected) := by
  have hsize : rom.data.length < 2 ^ 32 := by
    rw [rom.length_data]
    exact rom.range.size.lt
  unfold calculateChecksumResult
  obtain ⟨-, o, ho, hrun⟩ | ⟨-, -, hrun⟩ | ⟨hin, hblocks, -, rom₁, hcorr, hrun⟩ :=
    correctDensoTable_cases rom.range.start (primary tableAddress tableLength) hsize
  · left
    obtain ⟨⟨status, message⟩, hfail⟩ := Option.ne_none_iff_exists'.1 ho
    have hne : o ≠ .disabled := fun h => by rw [h] at ho; exact ho rfl
    simp only [hrun, hne, if_false, hfail]
    exact ⟨(failureOf_status hfail).1, (failureOf_status hfail).2, trivial⟩
  · left
    simp only [hrun, if_true]
    exact ⟨by decide, by decide, trivial⟩
  · have hfirst : (if rom₁ = rom.data then DensoTableOutcome.unchanged else .corrected) ≠
        .disabled ∧ failureOf (if rom₁ = rom.data then .unchanged else .corrected) = none := by
      split_ifs <;> decide
    simp only [hrun, hfirst.1, if_false, hfirst.2]
    obtain hfail | ⟨rom₂, hsecond, hother, hrun₂⟩ :=
      correctSecondary_cases rom.range.start tableAddress (hcorr.length_eq ▸ hsize)
    · left
      obtain ⟨⟨status, message⟩, hfail⟩ := Option.ne_none_iff_exists'.1 hfail
      simp only [hfail]
      exact ⟨(failureOf_status hfail).1, (failureOf_status hfail).2, trivial⟩
    · have hnone : failureOf (if rom₂ = rom₁ then .unchanged else .corrected) = none := by
        split_ifs <;> rfl
      refine .inr ⟨hin, hblocks, rom₁, rom₂, hcorr, hsecond, hother, ?_⟩
      simp only [hrun₂, hnone]
      by_cases h₁ : rom₁ = rom.data
      · subst h₁
        by_cases h₂ : rom₂ = rom.data <;> simp [h₂]
      · simp [h₁]

/-- Two tables that are apart are corrected to the input only when neither needed it. -/
theorem eq_of_corrects_twice {s t : DensoTableSpec} {rom rom₁ rom₂ : Bytes}
    (hs : TableInRom base rom.length s) (ht : TableInRom base rom₁.length t)
    (hapart : Apart base s t) (h₁ : Corrects base s rom rom₁) (h₂ : Corrects base t rom₁ rom₂)
    (h : rom₂ = rom) : rom₁ = rom := by
  apply List.ext_getElem?
  intro k
  by_cases hk : StoredByte base s k
  · -- a stored byte of the first table is none of the second one
    have hmem := storedByte_mem_table hs hk
    have hnot : ¬ StoredByte base t k := fun hk' => by
      have hmem' := storedByte_mem_table ht hk'
      obtain hle | hle := hapart
      · omega
      · omega
    rw [← h₂.frame k hnot, h]
  · exact h₁.frame k hk

/-- **The combined correction.**  Any status but `corrected` comes with the input, `corrected` comes
with a changed byte, and a successful run leaves every table right that no block covers. -/
theorem calculateChecksumResult_rolls_back_and_verifies (rom : MemoryView)
    (tableAddress : FlashAddress) (tableLength : UInt32) :
    ((calculateChecksumResult rom tableAddress tableLength).status ≠ .corrected →
      (calculateChecksumResult rom tableAddress tableLength).romData = rom.data) ∧
    ((calculateChecksumResult rom tableAddress tableLength).status = .corrected ↔
      ∃ k < rom.data.length,
        (calculateChecksumResult rom tableAddress tableLength).romData[k]? ≠ rom.data[k]?) ∧
    ((calculateChecksumResult rom tableAddress tableLength).status = .corrected ∨
        (calculateChecksumResult rom tableAddress tableLength).status = .unchanged →
      StoredUncoveredBy rom.range.start rom.data (tables tableAddress tableLength) →
      ∀ t ∈ tables tableAddress tableLength, TableVerifies rom.range.start
        (calculateChecksumResult rom tableAddress tableLength).romData t) := by
  obtain ⟨hne, hne', hdata⟩ | ⟨hin, hblocks, rom₁, rom₂, hcorr, hsecond, hother, hdata, hstatus⟩ :=
    calculateChecksumResult_cases rom tableAddress tableLength
  · refine ⟨fun _ => hdata, ⟨fun h => absurd h hne, ?_⟩, fun h => absurd h (not_or.2 ⟨hne, hne'⟩)⟩
    rintro ⟨k, -, hk⟩
    exact absurd (by rw [hdata]) hk
  · rw [hdata, hstatus]
    have hapart : tableAddress.value = 0x1FF800 →
        Apart rom.range.start (primary tableAddress tableLength) secondary := fun haddress =>
      primary_ends_before_secondary haddress hin hblocks hcorr (hsecond haddress).2.1
    have hlen : rom₂.length = rom.data.length := by
      by_cases haddress : tableAddress.value = 0x1FF800
      · exact (hsecond haddress).2.2.length_eq.trans hcorr.length_eq
      · rw [hother haddress]
        exact hcorr.length_eq
    have hsame : rom₁ = rom.data ∧ rom₂ = rom₁ ↔ rom₂ = rom.data := by
      refine ⟨fun h => h.2.trans h.1, fun h => ?_⟩
      have h₁ : rom₁ = rom.data := by
        by_cases haddress : tableAddress.value = 0x1FF800
        · obtain ⟨hin₂, -, hcorr₂⟩ := hsecond haddress
          exact eq_of_corrects_twice hin hin₂ (hapart haddress) hcorr hcorr₂ h
        · exact (hother haddress).symm.trans h
      exact ⟨h₁, h.trans h₁.symm⟩
    refine ⟨fun h => ?_, ?_, fun _ hunc t ht => ?_⟩
    · by_contra hdiff
      exact h (if_neg fun hs => hdiff (hsame.1 hs))
    · constructor
      · intro h
        have hdiff : rom₂ ≠ rom.data := fun he => by
          rw [if_pos (hsame.2 he)] at h
          cases h
        by_contra hall
        refine hdiff (List.ext_getElem? fun k => ?_)
        by_cases hk : k < rom.data.length
        · by_contra hne
          exact hall ⟨k, hk, hne⟩
        · rw [List.getElem?_eq_none (by omega), List.getElem?_eq_none (by omega)]
      · rintro ⟨k, -, hk⟩
        exact if_neg fun hs => hk (by rw [hsame.1 hs])
    · by_cases haddress : tableAddress.value = 0x1FF800
      · obtain ⟨hin₂, hblocks₂, hcorr₂⟩ := hsecond haddress
        have hsecondary : secondary ∈ tables tableAddress tableLength := by
          rw [tables, if_pos haddress]; simp
        have hprimary : primary tableAddress tableLength ∈ tables tableAddress tableLength := by
          rw [tables, if_pos haddress]; simp
        have hin₂' : TableInRom rom.range.start rom.data.length secondary :=
          hcorr.length_eq ▸ hin₂
        have hin₁ : TableInRom rom.range.start rom₁.length (primary tableAddress tableLength) :=
          hcorr.length_eq ▸ hin
        rw [tables, if_pos haddress, List.mem_cons, List.mem_singleton] at ht
        obtain rfl | rfl := ht
        · -- the first table, right after its own correction, is not touched by the second
          refine verifies_of_corrects_other hcorr₂ hin₁ hin₂ (hapart haddress).symm ?_
            (hcorr.verifies hblocks (hunc _ hprimary _ hprimary))
          intro i hi k hk
          rw [hcorr.tableRecord_eq hi, withStored_covers]
          exact hunc _ hprimary _ hsecondary i hi k hk
        · refine hcorr₂.verifies hblocks₂ fun i hi k hk => ?_
          rw [← tableRecord_of_corrects_other hcorr hin₂' hin (hapart haddress) hi]
          exact hunc _ hsecondary _ hsecondary i hi k hk
      · rw [tables, if_neg haddress, List.mem_singleton] at ht
        subst ht
        rw [hother haddress]
        have hprimary : primary tableAddress tableLength ∈ tables tableAddress tableLength := by
          rw [tables, if_neg haddress]; simp
        exact hcorr.verifies hblocks (hunc _ hprimary _ hprimary)

end TwoTables

end FastEcu.Checksum.EcuSubaruDensoSH705xDiesel
