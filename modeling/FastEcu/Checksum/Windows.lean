import FastEcu.Checksum.Families
import FastEcu.Data.Tally

/-!
# The windows of a checksum

The sums and XORs of `checksum_primitives.cpp` as tallies over the places of words, and how they change
when a checksum family stores a word or rebalances one.

* `sumOf`, `xorOf` : the words at places.
* `ChangesOnly` : all bytes outside a set of places are kept.
* `storeU32Be_spec`, `sumOf_rebalanceU32Be`, `sumOf_rebalanceU16Be` : what the repairs do.
-/

namespace FastEcu.Checksum

open Data

/-! ### Places -/

/-- The places of the words from `start` to `stop`. -/
def wordPlaces (start stop : ℕ) : List ℕ := (List.range ((stop - start) / 4)).map (start + 4 * ·)

/-- The sum of the words at places. -/
def sumOf (rom : Bytes) (places : List ℕ) : UInt32 := tally (· + ·) 0 (readU32Be rom) places

/-- The XOR of the words at places. -/
def xorOf (rom : Bytes) (places : List ℕ) : UInt32 := tally (· ^^^ ·) 0 (readU32Be rom) places

/-- The words at the places follow one another. -/
def Spaced (places : List ℕ) : Prop := places.Pairwise fun p q => p + 4 ≤ q

theorem mem_wordPlaces {start stop p : ℕ} (h : p ∈ wordPlaces start stop) :
    start ≤ p ∧ p + 4 ≤ stop := by
  obtain ⟨k, hk, rfl⟩ := List.mem_map.1 h
  have hlt := List.mem_range.1 hk
  omega

theorem mem_wordPlaces_of {start stop p : ℕ} (hstart : start ≤ p) (hstop : p + 4 ≤ stop)
    (haligned : (p - start) % 4 = 0) : p ∈ wordPlaces start stop :=
  List.mem_map.2 ⟨(p - start) / 4, List.mem_range.2 (by omega), by omega⟩

theorem spaced_wordPlaces (start stop : ℕ) : Spaced (wordPlaces start stop) := by
  refine List.pairwise_map.2 (List.pairwise_lt_range.imp fun h => ?_)
  omega

/-- The words on both sides of what is left out. -/
theorem spaced_append {start stop start' stop' : ℕ} (h : stop ≤ start') :
    Spaced (wordPlaces start stop ++ wordPlaces start' stop') := by
  refine List.pairwise_append.2 ⟨spaced_wordPlaces _ _, spaced_wordPlaces _ _, fun p hp q hq => ?_⟩
  have hp := mem_wordPlaces hp
  have hq := mem_wordPlaces hq
  omega

/-- A window in two parts. -/
theorem wordPlaces_append {start middle stop : ℕ} (h : start ≤ middle) (h' : middle ≤ stop)
    (haligned : (middle - start) % 4 = 0) :
    wordPlaces start middle ++ wordPlaces middle stop = wordPlaces start stop := by
  have hcount : (stop - start) / 4 = (middle - start) / 4 + (stop - middle) / 4 := by omega
  have hplace : ∀ k, start + 4 * ((middle - start) / 4 + k) = middle + 4 * k := fun k => by omega
  simp only [wordPlaces, hcount, List.range_add, List.map_append, List.map_map, Function.comp_def,
    hplace]

theorem Spaced.nodup {places : List ℕ} (h : Spaced places) : places.Nodup :=
  h.imp fun hlt => by omega

/-- Two places of which each leaves room for the next are apart. -/
theorem apart_of_pairwise {places : List ℕ} {width : ℕ} (h : places.Pairwise fun p q => p + width ≤ q)
    {p q : ℕ} (hp : p ∈ places) (hq : q ∈ places) (hne : q ≠ p) : q + width ≤ p ∨ p + width ≤ q := by
  obtain ⟨i, hi, rfl⟩ := List.mem_iff_getElem.1 hp
  obtain ⟨j, hj, rfl⟩ := List.mem_iff_getElem.1 hq
  rcases Nat.lt_trichotomy i j with hlt | heq | hgt
  · exact .inr (List.pairwise_iff_getElem.1 h i j hi hj hlt)
  · exact absurd (by simp only [heq]) hne
  · exact .inl (List.pairwise_iff_getElem.1 h j i hj hi hgt)

/-- Another word of the window is apart from a word of it. -/
theorem Spaced.apart {places : List ℕ} (h : Spaced places) {p q : ℕ} (hp : p ∈ places)
    (hq : q ∈ places) (hne : q ≠ p) : q + 4 ≤ p ∨ p + 4 ≤ q :=
  apart_of_pairwise h hp hq hne

/-! ### Folds -/

section Folds

variable {rom : Bytes}

theorem foldPieceU32Be_eq (fold : WordFold) (piece : Bytes) : foldPieceU32Be fold piece =
    ⟨fold.sum + tally (· + ·) 0 (fun k => readU32Be piece (4 * k)) (List.range (piece.length / 4)),
      fold.xorAll ^^^
        tally (· ^^^ ·) 0 (fun k => readU32Be piece (4 * k)) (List.range (piece.length / 4))⟩ := by
  unfold foldPieceU32Be
  generalize List.range (piece.length / 4) = places
  induction places generalizing fold with
  | nil => simp only [List.foldl_nil, tally_nil, UInt32.add_zero, UInt32.xor_zero]
  | cons k places ih =>
    rw [List.foldl_cons, ih, tally_cons, tally_cons, ← UInt32.add_assoc, ← UInt32.xor_assoc]

theorem tally_subspan {op : UInt32 → UInt32 → UInt32} {start stop : ℕ} (hle : start ≤ stop)
    (hfits : stop ≤ rom.length) :
    tally op 0 (fun k => readU32Be (subspan rom start (stop - start)) (4 * k))
        (List.range ((subspan rom start (stop - start)).length / 4)) =
      tally op 0 (readU32Be rom) (wordPlaces start stop) := by
  have hlength : (subspan rom start (stop - start)).length = stop - start :=
    length_subspan (by omega)
  rw [hlength, wordPlaces, tally, tally, List.foldr_map]
  refine tally_congr fun k hk => ?_
  have hlt := List.mem_range.1 hk
  exact readU32Be_subspan (by omega) (by omega)

/-- A window of one piece. -/
theorem foldU32Be_one {start stop : ℕ} (hle : start ≤ stop) (hfits : stop ≤ rom.length) :
    foldU32Be [subspan rom start (stop - start)] =
      ⟨sumOf rom (wordPlaces start stop), xorOf rom (wordPlaces start stop)⟩ := by
  rw [foldU32Be, List.foldl_cons, List.foldl_nil, foldPieceU32Be_eq, tally_subspan hle hfits,
    tally_subspan hle hfits, sumOf, xorOf]
  simp only [UInt32.zero_add, UInt32.zero_xor]

/-- A window of two pieces. -/
theorem foldU32Be_two {start stop start' stop' : ℕ} (hle : start ≤ stop) (hfits : stop ≤ rom.length)
    (hle' : start' ≤ stop') (hfits' : stop' ≤ rom.length) :
    foldU32Be [subspan rom start (stop - start), subspan rom start' (stop' - start')] =
      ⟨sumOf rom (wordPlaces start stop ++ wordPlaces start' stop'),
        xorOf rom (wordPlaces start stop ++ wordPlaces start' stop')⟩ := by
  have hfirst := foldU32Be_one hle hfits
  rw [foldU32Be, List.foldl_cons, List.foldl_nil] at hfirst
  rw [foldU32Be, List.foldl_cons, List.foldl_cons, List.foldl_nil, hfirst, foldPieceU32Be_eq,
    tally_subspan hle' hfits', tally_subspan hle' hfits', sumOf, sumOf, xorOf, xorOf, tally_append,
    tally_append]

/-- The rest of a ROM as a stretch. -/
theorem drop_eq_subspan {start stop : ℕ} (h : rom.length = stop) :
    rom.drop start = subspan rom start (stop - start) := by
  rw [subspan, List.take_of_length_le (by rw [List.length_drop, h])]

end Folds

/-! ### Frames -/

/-- The bytes outside a set of places are kept. -/
structure ChangesOnly (places : Set ℕ) (rom rom' : Bytes) : Prop where
  length : rom'.length = rom.length
  kept : ∀ i ∉ places, rom'[i]? = rom[i]?

section Frames

variable {rom rom' rom'' : Bytes} {places places' : Set ℕ}

theorem ChangesOnly.refl (places : Set ℕ) (rom : Bytes) : ChangesOnly places rom rom :=
  ⟨rfl, fun _ _ => rfl⟩

theorem ChangesOnly.trans (h : ChangesOnly places rom rom') (h' : ChangesOnly places' rom' rom'') :
    ChangesOnly (places ∪ places') rom rom'' := by
  refine ⟨h'.length.trans h.length, fun i hi => ?_⟩
  rw [h'.kept i fun hmem => hi (.inr hmem), h.kept i fun hmem => hi (.inl hmem)]

theorem ChangesOnly.mono (h : ChangesOnly places rom rom') (hsubset : places ⊆ places') :
    ChangesOnly places' rom rom' :=
  ⟨h.length, fun i hi => h.kept i fun hmem => hi (hsubset hmem)⟩

/-- A word apart from the places is kept. -/
theorem ChangesOnly.readU32Be (h : ChangesOnly places rom rom') {p : ℕ}
    (hp : ∀ i < 4, p + i ∉ places) : readU32Be rom' p = readU32Be rom p :=
  readU32Be_congr h.length fun i hi => h.kept _ (hp i hi)

/-- A halfword apart from the places is kept. -/
theorem ChangesOnly.readU16Be (h : ChangesOnly places rom rom') {p : ℕ} (hp : p ∉ places)
    (hp' : p + 1 ∉ places) : readU16Be rom' p = readU16Be rom p := by
  have hfits : fitsAt rom' p 2 = fitsAt rom p 2 := by simp only [fitsAt, h.length]
  unfold FastEcu.readU16Be
  rw [hfits, byteAt_congr (h.kept p hp), byteAt_congr (h.kept (p + 1) hp')]

/-- The tally of a window apart from the places is kept. -/
theorem ChangesOnly.tally {op : UInt32 → UInt32 → UInt32} {start stop : ℕ}
    (h : ChangesOnly (Set.Ico start stop) rom rom') {window : List ℕ}
    (hwindow : ∀ p ∈ window, p + 4 ≤ start ∨ stop ≤ p) :
    Data.tally op 0 (FastEcu.readU32Be rom') window = Data.tally op 0 (FastEcu.readU32Be rom) window := by
  refine tally_congr fun p hp => h.readU32Be fun i hi hmem => ?_
  have hapart := hwindow p hp
  have hbounds := Set.mem_Ico.1 hmem
  omega

theorem ChangesOnly.sumOf {start stop : ℕ} (h : ChangesOnly (Set.Ico start stop) rom rom')
    {window : List ℕ} (hwindow : ∀ p ∈ window, p + 4 ≤ start ∨ stop ≤ p) :
    sumOf rom' window = sumOf rom window := h.tally hwindow

theorem ChangesOnly.xorOf {start stop : ℕ} (h : ChangesOnly (Set.Ico start stop) rom rom')
    {window : List ℕ} (hwindow : ∀ p ∈ window, p + 4 ≤ start ∨ stop ≤ p) :
    xorOf rom' window = xorOf rom window := h.tally hwindow

end Frames

/-! ### Writes -/

section Writes

variable {rom : Bytes} {o : ℕ}

theorem writeU32Be_changesOnly (rom : Bytes) (o : ℕ) (v : UInt32) :
    ChangesOnly (Set.Ico o (o + 4)) rom (writeU32Be rom o v) := by
  refine ⟨length_writeU32Be _ _ _, fun i hi => ?_⟩
  unfold writeU32Be
  by_cases hfits : fitsAt rom o 4 = true
  · rw [if_pos hfits]
    refine getElem?_overwrite_of_notMem (fitsAt_iff.1 hfits) ?_
    by_contra hmem
    refine hi (Set.mem_Ico.2 ?_)
    have hlength : (beBytes v).length = 4 := rfl
    omega
  · rw [if_neg hfits]

theorem writeU16Be_changesOnly (rom : Bytes) (o : ℕ) (v : UInt16) :
    ChangesOnly (Set.Ico o (o + 2)) rom (writeU16Be rom o v) := by
  refine ⟨length_writeU16Be _ _ _, fun i hi => ?_⟩
  unfold writeU16Be
  by_cases hfits : fitsAt rom o 2 = true
  · rw [if_pos hfits]
    refine getElem?_overwrite_of_notMem (fitsAt_iff.1 hfits) ?_
    by_contra hmem
    refine hi (Set.mem_Ico.2 ?_)
    have hlength : ([byteOf v.toUInt32 8, byteOf v.toUInt32 0]).length = 2 := rfl
    omega
  · rw [if_neg hfits]

theorem readU32Be_writeU32Be (h : o + 4 ≤ rom.length) (v : UInt32) :
    readU32Be (writeU32Be rom o v) o = v := by
  rw [writeU32Be, if_pos (fitsAt_iff.2 h)]
  exact readU32Be_overwrite h v

end Writes

/-! ### Halfwords -/

section Halfwords

variable {rom : Bytes} {o : ℕ}

theorem readU16Be_writeU16Be (h : o + 2 ≤ rom.length) (v : UInt16) :
    readU16Be (writeU16Be rom o v) o = v := by
  have hfits : fitsAt (writeU16Be rom o v) o 2 = true := by
    rw [fitsAt_iff, length_writeU16Be]
    exact h
  have hbyte : ∀ i, ∀ b, i < 2 → [byteOf v.toUInt32 8, byteOf v.toUInt32 0][i]? = some b →
      byteAt (writeU16Be rom o v) (o + i) = b := by
    intro i b hi hb
    rw [byteAt_eq_iff (by rw [length_writeU16Be]; omega), writeU16Be, if_pos (fitsAt_iff.2 h), ← hb]
    exact getElem?_overwrite_add h hi
  have hhigh : byteAt (writeU16Be rom o v) o = byteOf v.toUInt32 8 := hbyte 0 _ (by decide) rfl
  rw [readU16Be, if_pos hfits, hhigh, hbyte 1 _ (by decide) rfl, wordBe16_byteOf]

/-- The bytes of a halfword that was read are the bytes it was read from. -/
theorem byteOf_readU16Be (h : o + 2 ≤ rom.length) :
    byteOf (readU16Be rom o).toUInt32 8 = byteAt rom o ∧
      byteOf (readU16Be rom o).toUInt32 0 = byteAt rom (o + 1) := by
  have hhigh := (byteAt rom o).toNat_lt
  have hlow := (byteAt rom (o + 1)).toNat_lt
  rw [readU16Be, if_pos (fitsAt_iff.2 h)]
  constructor
  · apply UInt8.toNat_inj.1
    rw [toNat_byteOf _ _ (by decide), UInt16.toNat_toUInt32, toNat_wordBe16]
    simp only [UInt32.reduceToNat]
    omega
  · apply UInt8.toNat_inj.1
    rw [toNat_byteOf _ _ (by decide), UInt16.toNat_toUInt32, toNat_wordBe16]
    simp only [UInt32.reduceToNat]
    omega

/-- A halfword that is stored again changes nothing. -/
theorem writeU16Be_readU16Be (h : o + 2 ≤ rom.length) : writeU16Be rom o (readU16Be rom o) = rom := by
  obtain ⟨hhigh, hlow⟩ := byteOf_readU16Be h
  rw [writeU16Be, if_pos (fitsAt_iff.2 h), hhigh, hlow]
  refine overwrite_eq_self h fun i hi => ?_
  match i, hi with
  | 0, _ => exact ((byteAt_eq_iff (by omega)).1 rfl).symm
  | 1, _ => exact ((byteAt_eq_iff (by omega)).1 rfl).symm

/-- The halves of a word. -/
theorem readU32Be_eq_joinHalves (h : o + 4 ≤ rom.length) :
    readU32Be rom o = joinHalves (readU16Be rom o) (readU16Be rom (o + 2)) := by
  apply UInt32.toNat_inj.1
  rw [readU32Be, if_pos (fitsAt_iff.2 h), readU16Be, if_pos (fitsAt_iff.2 (by omega)), readU16Be,
    if_pos (fitsAt_iff.2 (by omega)), toNat_wordBe, toNat_joinHalves, toNat_wordBe16, toNat_wordBe16]
  rw [show o + 2 + 1 = o + 3 from rfl]
  omega

theorem toUInt16_readU32Be (h : o + 4 ≤ rom.length) :
    (readU32Be rom o).toUInt16 = readU16Be rom (o + 2) := by
  rw [readU32Be_eq_joinHalves h]
  exact congrArg Prod.snd (halves_joinHalves _ _)

end Halfwords

/-! ### Repairs -/

section Repairs

variable {rom : Bytes} {window : List ℕ} {o : ℕ}

/-- What a family stores is there afterwards, and the other bytes are kept. -/
theorem storeU32Be_spec {state : Bytes × Bool} {c s : UInt32} (h : o + 4 ≤ state.1.length)
    (hs : readU32Be state.1 o = s) :
    ChangesOnly (Set.Ico o (o + 4)) state.1 (storeU32Be state o c s).1 ∧
      readU32Be (storeU32Be state o c s).1 o = c := by
  unfold storeU32Be
  by_cases hc : c = s
  · rw [if_neg (not_not.2 hc)]
    exact ⟨.refl _ _, hs.trans hc.symm⟩
  · rw [if_pos hc]
    exact ⟨writeU32Be_changesOnly _ _ _, readU32Be_writeU32Be h c⟩

/-- A family reports what it stores. -/
theorem storeU32Be_snd (state : Bytes × Bool) (o : ℕ) (c s : UInt32) :
    (storeU32Be state o c s).2 = (state.2 && decide (c = s)) := by
  unfold storeU32Be
  by_cases hc : c = s
  · rw [if_neg (not_not.2 hc), decide_eq_true hc, Bool.and_true]
  · rw [if_pos hc, decide_eq_false hc, Bool.and_false]

/-- A right value is not stored again. -/
theorem storeU32Be_of_eq {state : Bytes × Bool} {c s : UInt32} (h : c = s) :
    storeU32Be state o c s = state := if_neg (not_not.2 h)

/-- The other words of a window are kept when one of them changes. -/
theorem ChangesOnly.readU32Be_of_ne {rom' : Bytes} {start stop : ℕ}
    (h : ChangesOnly (Set.Ico start stop) rom rom') (hspaced : Spaced window) (ho : o ∈ window)
    (hstart : o ≤ start) (hstop : stop ≤ o + 4) :
    ∀ q ∈ window, q ≠ o → FastEcu.readU32Be rom' q = FastEcu.readU32Be rom q := by
  intro q hq hne
  refine h.readU32Be fun i hi hmem => ?_
  have hapart := hspaced.apart ho hq hne
  have hbounds := Set.mem_Ico.1 hmem
  omega

/-- A family reports whether a check failed. -/
theorem status_finish (state : Bytes × Bool) (message : String) :
    (finish state message).status = if state.2 then .unchanged else .corrected := by
  obtain ⟨rom, flag⟩ := state
  cases flag with
  | true => rfl
  | false => rfl

/-- A new word of a window changes its sum by the difference. -/
theorem sumOf_writeU32Be (hspaced : Spaced window) (ho : o ∈ window) (h : o + 4 ≤ rom.length)
    (v : UInt32) : sumOf (writeU32Be rom o v) window = sumOf rom window + v - readU32Be rom o := by
  have hupdate : readU32Be rom o + sumOf (writeU32Be rom o v) window =
      readU32Be (writeU32Be rom o v) o + sumOf rom window :=
    tally_update hspaced.nodup ho
      ((writeU32Be_changesOnly rom o v).readU32Be_of_ne hspaced ho le_rfl le_rfl)
  rw [readU32Be_writeU32Be h] at hupdate
  grind

theorem xorOf_writeU32Be (hspaced : Spaced window) (ho : o ∈ window) (h : o + 4 ≤ rom.length)
    (v : UInt32) : xorOf (writeU32Be rom o v) window = readU32Be rom o ^^^ (v ^^^ xorOf rom window) := by
  have hupdate : readU32Be rom o ^^^ xorOf (writeU32Be rom o v) window =
      readU32Be (writeU32Be rom o v) o ^^^ xorOf rom window :=
    tally_update hspaced.nodup ho
      ((writeU32Be_changesOnly rom o v).readU32Be_of_ne hspaced ho le_rfl le_rfl)
  rw [readU32Be_writeU32Be h] at hupdate
  rw [← hupdate, ← UInt32.xor_assoc, UInt32.xor_self, UInt32.zero_xor]

/-- A rebalanced window has the target as its sum. -/
theorem sumOf_rebalanceU32Be (hspaced : Spaced window) (ho : o ∈ window) (h : o + 4 ≤ rom.length)
    (target : UInt32) :
    sumOf (rebalanceU32Be rom o (sumOf rom window) target) window = target := by
  rw [rebalanceU32Be, sumOf_writeU32Be hspaced ho h]
  grind

/-- A halfword that is rebalanced gives the lower half of the sum. -/
theorem sumOf_rebalanceU16Be (hspaced : Spaced window) (ho : o ∈ window) (h : o + 4 ≤ rom.length)
    (target : UInt16) :
    (sumOf (rebalanceU16Be rom (o + 2) (sumOf rom window).toUInt16 target) window).toUInt16 = target := by
  obtain ⟨v, hv⟩ : ∃ v, v = readU16Be rom (o + 2) + target - (sumOf rom window).toUInt16 := ⟨_, rfl⟩
  have hchanges := writeU16Be_changesOnly rom (o + 2) v
  have hupdate : readU32Be rom o + sumOf (writeU16Be rom (o + 2) v) window =
      readU32Be (writeU16Be rom (o + 2) v) o + sumOf rom window :=
    tally_update hspaced.nodup ho (hchanges.readU32Be_of_ne hspaced ho (by omega) le_rfl)
  -- only the lower halves count
  have hlow := congrArg UInt32.toUInt16 hupdate
  rw [UInt32.toUInt16_add, UInt32.toUInt16_add, toUInt16_readU32Be h,
    toUInt16_readU32Be (by rw [hchanges.length]; exact h), readU16Be_writeU16Be (by omega)] at hlow
  rw [rebalanceU16Be, ← hv]
  grind

/-- Two values that are stored side by side. -/
theorem storePair_spec {state : Bytes × Bool} (c c' : UInt32) (h : o + 8 ≤ state.1.length) :
    ChangesOnly (Set.Ico o (o + 8)) state.1 (storeU32Be (storeU32Be state o c (readU32Be state.1 o))
        (o + 4) c' (readU32Be state.1 (o + 4))).1 ∧
      readU32Be (storeU32Be (storeU32Be state o c (readU32Be state.1 o)) (o + 4) c'
        (readU32Be state.1 (o + 4))).1 o = c ∧
      readU32Be (storeU32Be (storeU32Be state o c (readU32Be state.1 o)) (o + 4) c'
        (readU32Be state.1 (o + 4))).1 (o + 4) = c' := by
  obtain ⟨hfirst, hread⟩ := @storeU32Be_spec o state c _ (by omega) rfl
  have hkept : readU32Be (storeU32Be state o c (readU32Be state.1 o)).1 (o + 4) =
      readU32Be state.1 (o + 4) := by
    refine hfirst.readU32Be fun i hi hmem => ?_
    have hbounds := Set.mem_Ico.1 hmem
    omega
  obtain ⟨hsecond, hread'⟩ := @storeU32Be_spec (o + 4) (storeU32Be state o c (readU32Be state.1 o)) c' _
    (by rw [hfirst.length]; omega) hkept
  refine ⟨(hfirst.trans hsecond).mono ?_, ?_, hread'⟩
  · rintro i (hi | hi)
    · exact ⟨hi.1, hi.2.trans_le (by omega)⟩
    · exact ⟨(Nat.le_add_right o 4).trans hi.1, hi.2⟩
  · refine (hsecond.readU32Be fun i hi hmem => ?_).trans hread
    have hbounds := Set.mem_Ico.1 hmem
    omega

/-- Two right values are not stored again. -/
theorem storePair_of_eq {state : Bytes × Bool} {c c' s s' : UInt32} (h : c = s) (h' : c' = s') {o' : ℕ} :
    storeU32Be (storeU32Be state o c s) o' c' s' = state := by
  rw [storeU32Be_of_eq h, storeU32Be_of_eq h']

theorem storePair_snd (state : Bytes × Bool) (c c' s s' : UInt32) (o o' : ℕ) :
    (storeU32Be (storeU32Be state o c s) o' c' s').2 = (state.2 && decide (c = s) && decide (c' = s')) := by
  rw [storeU32Be_snd, storeU32Be_snd]

end Repairs

/-! ### Zeros -/

section Zeros

variable (n : ℕ)

theorem byteAt_zeros (i : ℕ) : byteAt (List.replicate n 0) i = 0 := by
  rw [byteAt, List.getD_eq_getElem?_getD, List.getElem?_replicate]
  split_ifs <;> rfl

theorem readU32Be_zeros (p : ℕ) : readU32Be (List.replicate n 0) p = 0 := by
  rw [readU32Be]
  by_cases hfits : fitsAt (List.replicate n 0) p 4 = true
  · rw [if_pos hfits, byteAt_zeros, byteAt_zeros, byteAt_zeros, byteAt_zeros]
    rfl
  · rw [if_neg hfits]

theorem sumOf_zeros (places : List ℕ) : sumOf (List.replicate n 0) places = 0 :=
  tally_eq_self rfl fun p _ => readU32Be_zeros n p

end Zeros

end FastEcu.Checksum
