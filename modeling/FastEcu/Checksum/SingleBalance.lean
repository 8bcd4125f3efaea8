import FastEcu.Checksum.Windows

/-!
# The families with one balance

A family that sums its windows once and puts the difference to its target into one balance word.

* `halfPlaces`, `halfSumOf` : windows of halfwords.
* `Balanced` : what one run of such a family does.
* `balanced_of_repair` : it follows from what the repair does to the sum.
* `singleBalance_spec` : the three families of this kind.
-/

namespace FastEcu.Checksum

open Data Memory

/-! ### Halfwords -/

/-- The places of the halfwords from `start` to `stop`. -/
def halfPlaces (start stop : ℕ) : List ℕ := (List.range ((stop - start) / 2)).map (start + 2 * ·)

/-- The sum of the halfwords at places. -/
def halfSumOf (rom : Bytes) (places : List ℕ) : UInt16 := tally (· + ·) 0 (readU16Be rom) places

/-- The halfwords at the places follow one another. -/
def HalfSpaced (places : List ℕ) : Prop := places.Pairwise fun p q => p + 2 ≤ q

section Halfwords

variable {rom : Bytes}

theorem mem_halfPlaces {start stop p : ℕ} (h : p ∈ halfPlaces start stop) : start ≤ p ∧ p + 2 ≤ stop := by
  obtain ⟨k, hk, rfl⟩ := List.mem_map.1 h
  have hlt := List.mem_range.1 hk
  omega

theorem mem_halfPlaces_of {start stop p : ℕ} (hstart : start ≤ p) (hstop : p + 2 ≤ stop)
    (haligned : (p - start) % 2 = 0) : p ∈ halfPlaces start stop :=
  List.mem_map.2 ⟨(p - start) / 2, List.mem_range.2 (by omega), by omega⟩

theorem halfSpaced_halfPlaces (start stop : ℕ) : HalfSpaced (halfPlaces start stop) := by
  refine List.pairwise_map.2 (List.pairwise_lt_range.imp fun h => ?_)
  omega

/-- Windows that follow one another. -/
theorem halfSpaced_flatMap {areas : List (ℕ × ℕ)} (h : areas.Pairwise fun a b => a.2 ≤ b.1) :
    HalfSpaced (areas.flatMap fun area => halfPlaces area.1 area.2) := by
  refine List.pairwise_flatMap.2 ⟨fun area _ => halfSpaced_halfPlaces _ _, h.imp fun hle p hp q hq => ?_⟩
  have hp := mem_halfPlaces hp
  have hq := mem_halfPlaces hq
  omega

theorem sumPieceU16Be_subspan {start stop : ℕ} (hle : start ≤ stop) (hfits : stop ≤ rom.length) (sum : UInt16) :
    sumPieceU16Be sum (subspan rom start (stop - start)) = sum + halfSumOf rom (halfPlaces start stop) := by
  have hlength : (subspan rom start (stop - start)).length = stop - start := length_subspan (by omega)
  have hfold : ∀ value : ℕ → UInt16, ∀ places : List ℕ, places.foldl (fun sum k => sum + value k) sum =
      sum + tally (· + ·) 0 value places := fun value places => foldl_eq_op_tally places sum
  rw [sumPieceU16Be, hlength, hfold, halfSumOf, halfPlaces, tally, tally, List.foldr_map]
  refine congrArg (sum + ·) (tally_congr fun k hk => ?_)
  have hlt := List.mem_range.1 hk
  exact readU16Be_subspan (by omega) (by omega)

/-- The windows of a sum, one after the other. -/
theorem sumU16Be_areas {areas : List (ℕ × ℕ)} (h : ∀ area ∈ areas, area.1 ≤ area.2 ∧ area.2 ≤ rom.length) :
    sumU16Be (areas.map fun area => subspan rom area.1 (area.2 - area.1)) =
      halfSumOf rom (areas.flatMap fun area => halfPlaces area.1 area.2) := by
  have hfold : ∀ sum, (areas.map fun area => subspan rom area.1 (area.2 - area.1)).foldl sumPieceU16Be sum =
      sum + halfSumOf rom (areas.flatMap fun area => halfPlaces area.1 area.2) := by
    induction areas with
    | nil => exact fun sum => (UInt16.add_zero sum).symm
    | cons area areas ih =>
      intro sum
      obtain ⟨hle, hfits⟩ := h area (List.mem_cons_self ..)
      rw [List.map_cons, List.foldl_cons, sumPieceU16Be_subspan hle hfits,
        ih fun area' harea' => h area' (List.mem_cons_of_mem _ harea'), List.flatMap_cons, halfSumOf, halfSumOf,
        halfSumOf, tally_append, UInt16.add_assoc]
  rw [sumU16Be, hfold, UInt16.zero_add]

/-- A rebalanced window of halfwords has the target as its sum. -/
theorem halfSumOf_rebalanceU16Be {window : List ℕ} {o : ℕ} (hspaced : HalfSpaced window) (ho : o ∈ window)
    (h : o + 2 ≤ rom.length) (target : UInt16) :
    halfSumOf (rebalanceU16Be rom o (halfSumOf rom window) target) window = target := by
  obtain ⟨v, hv⟩ : ∃ v, v = readU16Be rom o + target - halfSumOf rom window := ⟨_, rfl⟩
  have hchanges := writeU16Be_changesOnly rom o v
  have hkept : ∀ q ∈ window, q ≠ o → readU16Be (writeU16Be rom o v) q = readU16Be rom q := by
    intro q hq hne
    have hapart := apart_of_pairwise hspaced ho hq hne
    refine hchanges.readU16Be (fun hmem => ?_) fun hmem => ?_
    all_goals
      have hbounds := Set.mem_Ico.1 hmem
      omega
  have hupdate : readU16Be rom o + halfSumOf (writeU16Be rom o v) window =
      readU16Be (writeU16Be rom o v) o + halfSumOf rom window :=
    tally_update (hspaced.imp fun hlt => by omega) ho hkept
  rw [readU16Be_writeU16Be h] at hupdate
  rw [rebalanceU16Be, ← hv]
  grind

end Halfwords

/-! ### One balance -/

/-- What a run of a family with one balance at `[start, stop)` does to a ROM. -/
structure Balanced {α : Type} (calculate : Bytes → ChecksumResult) (checksum : Bytes → α) (target : α)
    (start stop : ℕ) (rom : Bytes) : Prop where
  /-- The sum of what is given back is the target. -/
  checksum_eq : checksum (calculate rom).romData = target
  /-- Only the balance changes. -/
  frame : ChangesOnly (Set.Ico start stop) rom (calculate rom).romData
  /-- A second run finds nothing to do. -/
  again : (calculate (calculate rom).romData).status = .unchanged ∧
    (calculate (calculate rom).romData).romData = (calculate rom).romData
  /-- The status says whether the bytes have changed. -/
  unchanged_iff : (calculate rom).status = .unchanged ↔ (calculate rom).romData = rom

/-- A family that repairs a sum that is not its target, by a repair that makes it the target. -/
theorem balanced_of_repair {α : Type} [DecidableEq α] {calculate : Bytes → ChecksumResult} {checksum : Bytes → α}
    {target : α} {start stop size : ℕ} (repair : Bytes → Bytes) (message : String)
    (hcalculate : ∀ rom, rom.length = size → calculate rom =
      finish (if checksum rom ≠ target then (repair rom, false) else (rom, true)) message)
    (hrepair : ∀ rom, rom.length = size → checksum (repair rom) = target)
    (hframe : ∀ rom, ChangesOnly (Set.Ico start stop) rom (repair rom)) {rom : Bytes} (hsize : rom.length = size) :
    Balanced calculate checksum target start stop rom := by
  have hright : ∀ rom, rom.length = size → checksum rom = target →
      (calculate rom).status = .unchanged ∧ (calculate rom).romData = rom := by
    intro rom hsize hsum
    rw [hcalculate rom hsize, if_neg (not_not.2 hsum)]
    exact ⟨rfl, rfl⟩
  by_cases hsum : checksum rom = target
  · obtain ⟨hstatus, hdata⟩ := hright rom hsize hsum
    refine ⟨by rw [hdata, hsum], ?_, by rw [hdata]; exact ⟨hstatus, hdata⟩, fun _ => hdata, fun _ => hstatus⟩
    rw [hdata]
    exact .refl _ _
  · have hrun : calculate rom = finish (repair rom, false) message := by rw [hcalculate rom hsize, if_pos hsum]
    have hdata : (calculate rom).romData = repair rom := by rw [hrun, romData_finish]
    have hsize' : (repair rom).length = size := (hframe rom).length.trans hsize
    refine ⟨by rw [hdata, hrepair rom hsize], by rw [hdata]; exact hframe rom, ?_, fun hstatus => ?_, fun hsame => ?_⟩
    · rw [hdata]
      exact hright _ hsize' (hrepair rom hsize)
    · rw [hrun, status_finish] at hstatus
      cases hstatus
    · -- the repair changes the sum, so it changes the bytes
      rw [hdata] at hsame
      exact absurd (hsame ▸ hrepair rom hsize) hsum

/-! ### The families -/

theorem halfSumOf_area (rom : Bytes) (area : ℕ × ℕ) :
    halfSumOf rom ([area].flatMap fun area => halfPlaces area.1 area.2) = halfSumOf rom (halfPlaces area.1 area.2) := by
  rw [List.flatMap_singleton]

namespace EcuSubaruHitachiSh72543r

/-- The sum of the family, from `0x6000` to the end. -/
def checksum (rom : Bytes) : UInt16 := halfSumOf rom (halfPlaces 0x6000 romSize)

theorem sumU16Be_eq_checksum {rom : Bytes} (hsize : rom.length = romSize) :
    sumU16Be [rom.drop 0x6000] = checksum rom := by
  have hareas := @sumU16Be_areas rom [(0x6000, romSize)] (by simp [hsize, romSize])
  rw [halfSumOf_area] at hareas
  rw [drop_eq_subspan hsize]
  exact hareas

theorem calculateChecksumResult_balanced {rom : Bytes} (hsize : rom.length = romSize) :
    Balanced calculateChecksumResult checksum 0x5aa5 0x1ffffe 0x200000 rom := by
  refine balanced_of_repair (fun rom => rebalanceU16Be rom 0x1ffffe (checksum rom) 0x5aa5)
    "Subaru Hitachi SH72543r ECU Checksum" ?_ ?_ (fun rom => writeU16Be_changesOnly _ _ _) hsize
  · intro rom hsize
    rw [calculateChecksumResult, sumU16Be_eq_checksum hsize]
    rfl
  · intro rom hsize
    refine halfSumOf_rebalanceU16Be (halfSpaced_halfPlaces _ _) ?_ (by rw [hsize]; decide) _
    exact mem_halfPlaces_of (by decide) (by decide) (by decide)

end EcuSubaruHitachiSh72543r

namespace TcuMitsuMH8104Can

/-- The sum of the family, from `0x8000` to the end, with its adjustment. -/
def checksum (rom : Bytes) : UInt32 := sumOf rom (wordPlaces 0x8000 romSize) - 0xffff + 5

theorem calculateChecksumResult_balanced {rom : Bytes} (hsize : rom.length = romSize) :
    Balanced calculateChecksumResult checksum 0x5aa45aab 0x81fc 0x8200 rom := by
  refine balanced_of_repair (fun rom => rebalanceU32Be rom 0x81fc (checksum rom) 0x5aa45aab)
    "Subaru Hitachi M32R K-Line/CAN ECU Checksum" ?_ ?_ (fun rom => writeU32Be_changesOnly _ _ _) hsize
  · intro rom hsize
    have hfold : (foldU32Be [rom.drop 0x8000]).sum = sumOf rom (wordPlaces 0x8000 romSize) := by
      rw [drop_eq_subspan hsize, foldU32Be_one (by decide) hsize.ge]
    rw [calculateChecksumResult, hfold]
    rfl
  · intro rom hsize
    have hmem : 0x81fc ∈ wordPlaces 0x8000 romSize := mem_wordPlaces_of (by decide) (by decide) (by decide)
    rw [checksum, rebalanceU32Be, sumOf_writeU32Be (spaced_wordPlaces _ _) hmem (by rw [hsize]; decide), checksum]
    grind

end TcuMitsuMH8104Can

namespace TcuSubaruDensoSH7055

/-- The areas by where they start and end. -/
def areas : List (ℕ × ℕ) := checksumAreas.map fun area => (area.1, area.1 + 2 * area.2)

/-- The sum of the family, over its twelve areas. -/
def checksum (rom : Bytes) : UInt16 := halfSumOf rom (areas.flatMap fun area => halfPlaces area.1 area.2)

theorem sumU16Be_eq_checksum {rom : Bytes} (hsize : rom.length = romSize) :
    sumU16Be (checksumAreas.map fun area => subspan rom area.1 (2 * area.2)) = checksum rom := by
  have hbounds : ∀ area ∈ areas, area.1 ≤ area.2 ∧ area.2 ≤ romSize := by decide
  rw [checksum, ← sumU16Be_areas (by rw [hsize]; exact hbounds), areas, List.map_map]
  congr 2
  funext area
  show subspan rom area.1 (2 * area.2) = subspan rom area.1 (area.1 + 2 * area.2 - area.1)
  rw [Nat.add_sub_cancel_left]

theorem calculateChecksumResult_balanced {rom : Bytes} (hsize : rom.length = romSize) :
    Balanced calculateChecksumResult checksum 0x5aa5 0x7fff4 0x7fff6 rom := by
  have hordered : areas.Pairwise fun a b => a.2 ≤ b.1 := by decide
  refine balanced_of_repair (fun rom => rebalanceU16Be rom 0x7fff4 (checksum rom) 0x5aa5)
    "Subaru Denso SH7055 TCU Checksum" ?_ ?_ (fun rom => writeU16Be_changesOnly _ _ _) hsize
  · intro rom hsize
    rw [calculateChecksumResult, sumU16Be_eq_checksum hsize]
    rfl
  · intro rom hsize
    refine halfSumOf_rebalanceU16Be (halfSpaced_flatMap hordered) ?_ (by rw [hsize]; decide) _
    -- only the last area has the balance
    refine List.mem_flatMap.2 ⟨(0x7fb80, 0x80000), by decide, ?_⟩
    exact mem_halfPlaces_of (by decide) (by decide) (by decide)

end TcuSubaruDensoSH7055

/-- **One run of a family with one balance makes its sum the target, changes nothing else and leaves a second
run nothing to do; its status says whether it changed the ROM.** -/
theorem singleBalance_spec :
    (∀ rom, rom.length = EcuSubaruHitachiSh72543r.romSize →
      Balanced EcuSubaruHitachiSh72543r.calculateChecksumResult EcuSubaruHitachiSh72543r.checksum 0x5aa5
        0x1ffffe 0x200000 rom) ∧
    (∀ rom, rom.length = TcuMitsuMH8104Can.romSize →
      Balanced TcuMitsuMH8104Can.calculateChecksumResult TcuMitsuMH8104Can.checksum 0x5aa45aab 0x81fc 0x8200 rom) ∧
    ∀ rom, rom.length = TcuSubaruDensoSH7055.romSize →
      Balanced TcuSubaruDensoSH7055.calculateChecksumResult TcuSubaruDensoSH7055.checksum 0x5aa5
        0x7fff4 0x7fff6 rom :=
  ⟨fun _ => EcuSubaruHitachiSh72543r.calculateChecksumResult_balanced,
    fun _ => TcuMitsuMH8104Can.calculateChecksumResult_balanced,
    fun _ => TcuSubaruDensoSH7055.calculateChecksumResult_balanced⟩

theorem singleBalance_spec_zeros :
    EcuSubaruHitachiSh72543r.checksum
        (EcuSubaruHitachiSh72543r.calculateChecksumResult (List.replicate 0x200000 0)).romData = 0x5aa5 ∧
      TcuMitsuMH8104Can.checksum
        (TcuMitsuMH8104Can.calculateChecksumResult (List.replicate 0x80000 0)).romData = 0x5aa45aab ∧
      TcuSubaruDensoSH7055.checksum
        (TcuSubaruDensoSH7055.calculateChecksumResult (List.replicate 0x80000 0)).romData = 0x5aa5 :=
  ⟨(singleBalance_spec.1 _ (List.length_replicate ..)).checksum_eq,
    (singleBalance_spec.2.1 _ (List.length_replicate ..)).checksum_eq,
    (singleBalance_spec.2.2 _ (List.length_replicate ..)).checksum_eq⟩

end FastEcu.Checksum
