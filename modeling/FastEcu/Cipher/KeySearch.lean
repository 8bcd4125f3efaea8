import FastEcu.Cipher.RoundFunction
import FastEcu.Data.ArgMax
import Mathlib.Algebra.BigOperators.Group.List.Basic
import Mathlib.Data.Nat.Bitwise
import Mathlib.Data.Prod.Lex
import Mathlib.Tactic.IntervalCases

/-!
# The searches of the key recovery

`MostBiasedKey` groups the pairs by the bits that one substitution reads and counts each group once
for each candidate; `MajorityKey` collects the candidates from the inverse of the round function.
Both give the key of the search that goes through every key.

* `bits_fFunction` : a parity depends on the window of the word and of the key only.
* `mostBiasedKey_eq_naiveKey` : the grouped search and the search over all keys agree.
* `majorityKey_spec` : the vote gives the lowest of the keys that satisfy the most equations, if they
  are a majority.
-/

namespace FastEcu.KeyRecovery

open Ssm Data

/-! ### Windows -/

theorem window_eq {nybble : ℕ} (h : nybble < 4) (word : UInt16) :
    window nybble word = word.toNat * 65537 / 2 ^ (12 - nybble * 4) % 32 := by
  have hshift : (UInt32.ofNat (12 - nybble * 4)).toNat % 32 = 12 - nybble * 4 := by
    rw [UInt32.toNat_ofNat']
    omega
  rw [window, UInt32.toNat_and, show (0x1F : UInt32).toNat = 2 ^ 5 - 1 from rfl,
    Nat.and_two_pow_sub_one_eq_mod, UInt32.toNat_shiftRight, toNat_doubled, hshift,
    Nat.shiftRight_eq_div_pow]

/-- A window is five bits of the word, which go around. -/
theorem testBit_window {nybble : ℕ} (h : nybble < 4) (word : UInt16) (i : ℕ) :
    (window nybble word).testBit i =
      (decide (i < 5) && word.toNat.testBit ((i + (12 - nybble * 4)) % 16)) := by
  have hdoubled : word.toNat * 65537 = word.toNat <<< 16 ||| word.toNat := by
    rw [shiftLeft_or_eq word.toNat_lt]
    omega
  have hhigh : ∀ j, 16 ≤ j → word.toNat.testBit j = false := fun j hj =>
    Nat.testBit_lt_two_pow (word.toNat_lt.trans_le (Nat.pow_le_pow_right (by decide) hj))
  rw [window_eq h, hdoubled, ← Nat.shiftRight_eq_div_pow, show 32 = 2 ^ 5 from rfl,
    Nat.testBit_mod_two_pow, Nat.testBit_shiftRight, Nat.testBit_or, Nat.testBit_shiftLeft]
  by_cases hi : i < 5
  · simp only [hi, decide_true, Bool.true_and]
    -- the fifth bit of the first nybble wraps around
    obtain hlow | hwrap : 12 - nybble * 4 + i < 16 ∨ 12 - nybble * 4 + i = 16 := by omega
    · rw [Nat.add_comm i, Nat.mod_eq_of_lt hlow, decide_eq_false (Nat.not_le.2 hlow), Bool.false_and,
        Bool.false_or]
    · rw [Nat.add_comm i, hwrap, hhigh 16 le_rfl]
      simp
  · simp [hi]

/-- The window of a mixed word is the mixed window. -/
theorem window_xor {nybble : ℕ} (h : nybble < 4) (word key : UInt16) :
    window nybble (word ^^^ key) = window nybble word ^^^ window nybble key := by
  refine Nat.eq_of_testBit_eq fun i => ?_
  rw [Nat.testBit_xor, testBit_window h, testBit_window h, testBit_window h, UInt16.toNat_xor,
    Nat.testBit_xor, Bool.and_xor_distrib_left]

/-- A candidate is the key of its own window. -/
theorem window_candidate {nybble subkey : ℕ} (h : nybble < 4) (hsubkey : subkey < subkeys) :
    window nybble (candidate nybble subkey) = subkey := by
  have hall : ∀ nybble < 4, ∀ subkey < subkeys, window nybble (candidate nybble subkey) = subkey := by
    decide
  exact hall nybble h subkey hsubkey

/-! ### Parities -/

theorem bit_eq (value : UInt32) {position : ℕ} (h : 0 < position) (h' : position ≤ 32) :
    bit value position = UInt32.ofNat (value.toNat / 2 ^ (32 - position) % 2) := by
  have hshift : (UInt32.ofNat (32 - position)).toNat % 32 = 32 - position := by
    rw [UInt32.toNat_ofNat']
    omega
  apply UInt32.toNat_inj.1
  rw [bit, UInt32.toNat_and, UInt32.toNat_shiftRight, hshift, UInt32.toNat_ofNat',
    show (1 : UInt32).toNat = 2 ^ 1 - 1 from rfl, Nat.and_two_pow_sub_one_eq_mod,
    Nat.shiftRight_eq_div_pow]
  omega

theorem toNat_rotr16_three (value : UInt16) :
    (rotr16 value 3).toNat = value.toNat / 8 + value.toNat % 8 * 8192 := by
  have hvalue := value.toNat_lt
  have hlow : (value >>> 3).toNat = value.toNat / 8 := by
    rw [UInt16.toNat_shiftRight, Nat.shiftRight_eq_div_pow]
    rfl
  have hhigh : (value <<< (16 - 3)).toNat = (value.toNat % 8) <<< 13 := by
    rw [UInt16.toNat_shiftLeft, Nat.shiftLeft_eq, Nat.shiftLeft_eq]
    change value.toNat * 2 ^ 13 % 2 ^ 16 = _
    omega
  rw [rotr16, UInt16.or_comm, UInt16.toNat_or, hlow, hhigh, shiftLeft_or_eq (by omega)]
  omega

/-- The bits of a rotated value. -/
theorem rotated_bit {s j : ℕ} (hs : s < 65536) (hj : j < 16) :
    (s / 8 + s % 8 * 8192) / 2 ^ j % 2 = s / 2 ^ ((j + 3) % 16) % 2 := by
  have hsplit : s / 8 + s % 8 * 8192 = (s % 8) <<< 13 ||| s >>> 3 := by
    rw [Nat.shiftRight_eq_div_pow, shiftLeft_or_eq (show s / 2 ^ 3 < 2 ^ 13 by omega)]
    omega
  have hhigh : ∀ k, 16 ≤ k → s.testBit k = false := fun k hk =>
    Nat.testBit_lt_two_pow (hs.trans_le (Nat.pow_le_pow_right Nat.two_pos hk))
  rw [← Nat.toNat_testBit, ← Nat.toNat_testBit, hsplit, Nat.testBit_or, Nat.testBit_shiftLeft,
    Nat.testBit_shiftRight, show 8 = 2 ^ 3 from rfl, Nat.testBit_mod_two_pow, Nat.add_comm 3 j]
  congr 1
  by_cases hlow : j < 13
  · rw [decide_eq_false (show ¬ j ≥ 13 by omega), Bool.false_and, Bool.false_or,
      Nat.mod_eq_of_lt (by omega)]
  · -- the three lowest bits come back at the top
    rw [hhigh (j + 3) (by omega), Bool.or_false, decide_eq_true (show j ≥ 13 by omega), Bool.true_and,
      decide_eq_true (show j - 13 < 3 by omega), Bool.true_and,
      show (j + 3) % 16 = j - 13 by omega]

/-- The parity of a window: the two upper bits of its nibble. -/
def windowParity (w : ℕ) : UInt32 :=
  UInt32.ofNat ((indexEntry indexTransformationStock w).toNat / 8 % 2) ^^^
    UInt32.ofNat ((indexEntry indexTransformationStock w).toNat / 4 % 2)

/-- The two upper bits of a nibble of the substituted word. -/
theorem substituted_bit (v : UInt16) {n : ℕ} (h : n < 4) :
    substituted v / 2 ^ (4 * n + 3) % 2 = nibbleOf v n / 8 % 2 ∧
      substituted v / 2 ^ (4 * n + 2) % 2 = nibbleOf v n / 4 % 2 := by
  have h₀ := nibbleOf_lt v 0
  have h₁ := nibbleOf_lt v 1
  have h₂ := nibbleOf_lt v 2
  have h₃ := nibbleOf_lt v 3
  unfold substituted
  interval_cases n <;> simp only [Nat.reduceMul, Nat.reduceAdd, Nat.reducePow] <;> omega

/-- The nibble that a window chooses. -/
theorem windowParity_window {nybble : ℕ} (h : nybble < 4) (v : UInt16) :
    windowParity (window nybble v) = UInt32.ofNat (nibbleOf v (3 - nybble) / 8 % 2) ^^^
      UInt32.ofNat (nibbleOf v (3 - nybble) / 4 % 2) := by
  have hpow : 2 ^ (12 - nybble * 4) = 16 ^ (3 - nybble) := by
    rw [show 12 - nybble * 4 = 4 * (3 - nybble) by omega, Nat.pow_mul]
  have hentry : indexEntry indexTransformationStock (window nybble v) =
      indexEntry indexTransformationStock (v.toNat * 65537 / 16 ^ (3 - nybble)) := by
    rw [window_eq h, hpow]
    exact indexEntry_congr (Nat.mod_mod _ _) _
  rw [windowParity, hentry, nibbleOf]

/-- Where the rotation comes from: the positions of a nybble are the two upper bits of a nibble. -/
theorem inBits_spec : ∀ nybble < 4,
    (16 < (inBits nybble).1 ∧ (inBits nybble).1 ≤ 32 ∧
      (32 - (inBits nybble).1 + 3) % 16 = 4 * (3 - nybble) + 3) ∧
    16 < (inBits nybble).2 ∧ (inBits nybble).2 ≤ 32 ∧
      (32 - (inBits nybble).2 + 3) % 16 = 4 * (3 - nybble) + 2 := by
  decide

/-- **The parity depends on the window of the mixed word only.** -/
theorem bits_fFunction {nybble : ℕ} (h : nybble < 4) (word key : UInt16) :
    bits (fFunction word key).toUInt32 (inBits nybble) = windowParity (window nybble (word ^^^ key)) := by
  have hsum := substituted_lt (word ^^^ key)
  have hvalue : (fFunction word key).toUInt32.toNat =
      substituted (word ^^^ key) / 8 + substituted (word ^^^ key) % 8 * 8192 := by
    rw [UInt16.toNat_toUInt32, fFunction_eq, toNat_rotr16_three,
      UInt16.toNat_ofNat_of_lt' hsum]
  have hbit : ∀ position, 16 < position → position ≤ 32 →
      bit (fFunction word key).toUInt32 position =
        UInt32.ofNat (substituted (word ^^^ key) / 2 ^ ((32 - position + 3) % 16) % 2) := by
    intro position hlow hhigh
    rw [bit_eq _ (by omega) hhigh, hvalue, rotated_bit hsum (by omega)]
  obtain ⟨⟨hlow, hhigh, hplace⟩, hlow', hhigh', hplace'⟩ := inBits_spec nybble h
  obtain ⟨hupper, hlower⟩ := substituted_bit (word ^^^ key) (show 3 - nybble < 4 by omega)
  rw [windowParity_window h, bits, Nat.add_zero, Nat.add_zero, hbit _ hlow hhigh,
    hbit _ hlow' hhigh', hplace, hplace', hupper, hlower]

/-! ### The grouped counts -/

/-- One turn of the loop that groups the pairs. -/
def groupStep (term : WordPair → ℕ → ParityTerm) (nybble : ℕ) (counts : UInt32 × ℕ → ℕ)
    (pair : WordPair) : UInt32 × ℕ → ℕ :=
  let parity := term pair nybble
  let place := (parity.constant, window nybble parity.word)
  Function.update counts place (counts place + 1)

/-- What the loop leaves in the groups. -/
theorem grouped_eq_foldl (pairs : List WordPair) (term : WordPair → ℕ → ParityTerm) (nybble : ℕ)
    (constant : UInt32) (w : ℕ) :
    pairs.foldl (groupStep term nybble) (fun _ => 0) (constant, w) =
      grouped pairs term nybble constant w := by
  have key : ∀ counts, pairs.foldl (groupStep term nybble) counts (constant, w) =
      counts (constant, w) + grouped pairs term nybble constant w := by
    induction pairs with
    | nil => exact fun counts => rfl
    | cons pair pairs ih =>
      intro counts
      rw [List.foldl_cons, ih, grouped, grouped, List.countP_cons]
      by_cases hplace : (constant, w) = ((term pair nybble).constant, window nybble (term pair nybble).word)
      · obtain ⟨rfl, rfl⟩ := Prod.mk.inj hplace
        rw [groupStep, Function.update_self, if_pos (by simp)]
        omega
      · rw [groupStep, Function.update_of_ne hplace, if_neg]
        · omega
        · simp only [Bool.and_eq_true, beq_iff_eq]
          rintro ⟨rfl, rfl⟩
          exact hplace rfl
  rw [key, Nat.zero_add]

/-! ### The search over all keys -/

section Search

variable (pairs : List WordPair) (term : WordPair → ℕ → ParityTerm) (nybble : ℕ)

/-- The parity of a term under a round key. -/
def parityUnder (nybble : ℕ) (parity : ParityTerm) (key : UInt16) : UInt32 :=
  parity.constant ^^^ bits (fFunction parity.word key).toUInt32 (inBits nybble)

/-- The pairs whose parity is zero under a round key. -/
def naiveCount (key : UInt16) : ℕ :=
  pairs.countP fun pair => parityUnder nybble (term pair nybble) key == 0

/-- How far a count strays from half the pairs. -/
def biasOf (count : ℕ) : ℕ :=
  let half := pairs.length / 2
  if count > half then count - half else half - count

/-- The key of the greatest bias; among several, the last one of the highest window. -/
def naiveSearch : UInt16 :=
  UInt16.ofNat (lastMax (fun key => toLex (biasOf pairs (naiveCount pairs term nybble (UInt16.ofNat key)),
    window nybble (UInt16.ofNat key))) keySpace)

/-- The key of the greatest bias; among several, the lowest one. -/
def lowestSearch : UInt16 :=
  UInt16.ofNat
    (firstMax (fun key => biasOf pairs (naiveCount pairs term nybble (UInt16.ofNat key))) keySpace)

/-- The key whose nybbles are those of four keys. -/
def joinNybbles (choice : ℕ → UInt16) : UInt16 :=
  (List.range nybbles).foldl (fun key nybble => key |||
    (UInt16.ofNat (window nybble (choice nybble) % 16) <<< UInt16.ofNat (12 - nybble * 4))) 0

/-- The search that evaluates the parity of every pair under every key. -/
def naiveKey : UInt16 := joinNybbles (naiveSearch pairs term)

/-- The same search with the lowest key on a tie. -/
def lowestKey : UInt16 := joinNybbles (lowestSearch pairs term)

end Search

section Agreement

variable {pairs : List WordPair} {term : WordPair → ℕ → ParityTerm} {nybble : ℕ}

/-- The parity under a key and the parity under the candidate of its window. -/
theorem parityUnder_eq_zero_iff (h : nybble < 4) (pair : WordPair) (key : UInt16) :
    parityUnder nybble (term pair nybble) key = 0 ↔
      ParityZero pair term nybble (window nybble key) := by
  have hcandidate : ∀ word : UInt16, window nybble (candidate nybble (window nybble word)) =
      window nybble word := fun word => window_candidate h (window_lt nybble word)
  rw [parityUnder, UInt32.xor_eq_zero_iff, ParityZero, bits_fFunction h, bits_fFunction h, window_xor h,
    window_xor h, hcandidate, hcandidate]

theorem agreeing_cons (pair : WordPair) (subkey : ℕ) :
    agreeing (pair :: pairs) term nybble subkey =
      agreeing [pair] term nybble subkey + agreeing pairs term nybble subkey := by
  have hgrouped : ∀ constant w, grouped (pair :: pairs) term nybble constant w =
      grouped [pair] term nybble constant w + grouped pairs term nybble constant w := fun constant w =>
    @List.countP_append _ _ [pair] pairs
  simp only [agreeing, hgrouped, List.sum_map_add]

/-- **Group by group and pair by pair give the same count.** -/
theorem agreeing_eq_naiveCount (h : nybble < 4) (key : UInt16) :
    agreeing pairs term nybble (window nybble key) = naiveCount pairs term nybble key := by
  induction pairs with
  | nil =>
    have hnone : ∀ constant w, grouped [] term nybble constant w = 0 := fun _ _ => rfl
    simp [agreeing, hnone, naiveCount]
  | cons pair pairs ih =>
    rw [agreeing_cons, ih, agreeing_of_one, naiveCount, naiveCount, List.countP_cons, Nat.add_comm]
    simp only [beq_iff_eq, parityUnder_eq_zero_iff h]

theorem better_eq (best : ℕ × ℕ) (subkey : ℕ) : better pairs term nybble best subkey =
    if best.2 ≤ biasOf pairs (agreeing pairs term nybble subkey) then
      (subkey, biasOf pairs (agreeing pairs term nybble subkey))
    else best := rfl

/-- The loop over the candidates ends at the last one of the greatest bias. -/
theorem bestSubkey_eq_lastMax : bestSubkey pairs term nybble =
    lastMax (fun subkey => biasOf pairs (agreeing pairs term nybble subkey)) subkeys := by
  have key : ∀ n, (List.range (n + 1)).foldl (better pairs term nybble) (0, 0) =
      (lastMax (fun subkey => biasOf pairs (agreeing pairs term nybble subkey)) (n + 1),
        biasOf pairs (agreeing pairs term nybble
          (lastMax (fun subkey => biasOf pairs (agreeing pairs term nybble subkey)) (n + 1)))) := by
    intro n
    induction n with
    | zero =>
      rw [lastMax_succ, lastMax_zero, if_pos le_rfl, List.range_one, List.foldl_cons, List.foldl_nil,
        better_eq, if_pos (Nat.zero_le _)]
    | succ n ih =>
      rw [List.range_succ, List.foldl_append, ih, List.foldl_cons, List.foldl_nil, better_eq, lastMax_succ _ (n + 1)]
      split_ifs with hle
      · rfl
      · rfl
  have hlast := key 31
  rw [show 31 + 1 = subkeys from rfl] at hlast
  rw [bestSubkey, hlast]

/-- The search over all keys ends in the window of the chosen candidate. -/
theorem window_naiveSearch (h : nybble < 4) :
    window nybble (naiveSearch pairs term nybble) = bestSubkey pairs term nybble := by
  obtain ⟨best, hbest⟩ : ∃ best, best = naiveSearch pairs term nybble := ⟨_, rfl⟩
  obtain ⟨hlt, hall⟩ := lastMax_spec (fun key =>
    toLex (biasOf pairs (naiveCount pairs term nybble (UInt16.ofNat key)),
      window nybble (UInt16.ofNat key))) (show 0 < keySpace by decide)
  obtain ⟨hsubkey, hsubkeys⟩ := lastMax_spec
    (fun subkey => biasOf pairs (agreeing pairs term nybble subkey)) (show 0 < subkeys by decide)
  have hkeys : ∀ key : UInt16, biasOf pairs (naiveCount pairs term nybble key) <
        biasOf pairs (naiveCount pairs term nybble best) ∨
      biasOf pairs (naiveCount pairs term nybble key) =
          biasOf pairs (naiveCount pairs term nybble best) ∧
        window nybble key ≤ window nybble best := by
    intro key
    have hle := (hall key.toNat key.toNat_lt).1
    rw [Prod.Lex.toLex_le_toLex, UInt16.ofNat_toNat] at hle
    rw [hbest]
    exact hle
  rw [← hbest, bestSubkey_eq_lastMax]
  -- each of the two is at least as good as the other
  have hforth := hkeys (candidate nybble
    (lastMax (fun subkey => biasOf pairs (agreeing pairs term nybble subkey)) subkeys))
  have hback := hsubkeys (window nybble best) (window_lt nybble best)
  rw [← agreeing_eq_naiveCount h, ← agreeing_eq_naiveCount h, window_candidate h hsubkey] at hforth
  obtain hworse | ⟨hsame, hwindow⟩ := hforth
  · exact absurd hworse (Nat.not_lt.2 hback.1)
  · exact Nat.le_antisymm (hback.2 hsame.symm) hwindow

/-- **The grouped search gives the key of the search over all keys**, with the highest window on a
tie. -/
theorem mostBiasedKey_eq_naiveKey (pairs : List WordPair) (term : WordPair → ℕ → ParityTerm) :
    mostBiasedKey pairs term = naiveKey pairs term := by
  rw [mostBiasedKey, naiveKey, joinNybbles, show List.range nybbles = [0, 1, 2, 3] from rfl]
  simp only [List.foldl_cons, List.foldl_nil, window_naiveSearch (show 0 < 4 by decide),
    window_naiveSearch (show 1 < 4 by decide), window_naiveSearch (show 2 < 4 by decide),
    window_naiveSearch (show 3 < 4 by decide)]

/-- With one pair, the search of the lowest key ends at the key 0 if its parity is zero under it. -/
theorem lowestSearch_of_one {pair : WordPair} (h : parityUnder nybble (term pair nybble) 0 = 0) :
    lowestSearch [pair] term nybble = 0 := by
  obtain ⟨-, hall⟩ := firstMax_spec
    (fun key => biasOf [pair] (naiveCount [pair] term nybble (UInt16.ofNat key)))
    (show 0 < keySpace by decide)
  have hcount : ∀ key, biasOf [pair] (naiveCount [pair] term nybble key) =
      if parityUnder nybble (term pair nybble) key = 0 then 1 else 0 := by
    intro key
    rw [naiveCount, List.countP_singleton]
    simp only [beq_iff_eq]
    split_ifs
    · simp [biasOf]
    · simp [biasOf]
  have hzero : biasOf [pair] (naiveCount [pair] term nybble (UInt16.ofNat 0)) = 1 :=
    (hcount 0).trans (if_pos h)
  -- no bias is greater than 1
  have hmost : ∀ key, biasOf [pair] (naiveCount [pair] term nybble key) ≤ 1 := fun key => by
    rw [hcount]
    split_ifs <;> decide
  obtain ⟨hle, hfirst⟩ := hall 0 (by decide)
  rw [hzero] at hle hfirst
  exact congrArg UInt16.ofNat (Nat.le_zero.1 (hfirst (Nat.le_antisymm hle (hmost _))))

/-- A pair whose parities are zero under the lowest and under the highest candidates. -/
def tiedPair : WordPair := ⟨0, 60⟩

/-- **On a tie the grouped search takes the highest candidate**, not the lowest. -/
theorem mostBiasedKey_ne_lowestKey :
    mostBiasedKey [tiedPair] fourthKeyTerm = 0xFFFF ∧ lowestKey [tiedPair] fourthKeyTerm = 0 := by
  have hzero : ∀ nybble < 4, parityUnder nybble (fourthKeyTerm tiedPair nybble) 0 = 0 := by
    decide +kernel
  refine ⟨mostBiasedKey_of_one (by decide +kernel), ?_⟩
  rw [lowestKey, joinNybbles, show List.range nybbles = [0, 1, 2, 3] from rfl]
  simp only [List.foldl_cons, List.foldl_nil, lowestSearch_of_one (hzero 0 (by decide)),
    lowestSearch_of_one (hzero 1 (by decide)), lowestSearch_of_one (hzero 2 (by decide)),
    lowestSearch_of_one (hzero 3 (by decide))]
  decide

end Agreement

/-! ### Votes -/

/-- How many equations a key satisfies. -/
def satisfied (equations : List Equation) (key : UInt16) : ℕ :=
  equations.countP fun e => fFunction e.input key == e.output

/-- **The vote gives the lowest key of those that satisfy the most equations**, and fails exactly when
no key satisfies a majority of them. -/
theorem majorityKey_spec (equations : List Equation) :
    match majorityKey equations with
    | .ok key => equations.length < 2 * satisfied equations key ∧ ∀ key',
        satisfied equations key' ≤ satisfied equations key ∧
          (satisfied equations key' = satisfied equations key → key ≤ key')
    | .error failure => failure = .noMatchingKey ∧
        ∀ key, ¬ equations.length < 2 * satisfied equations key := by
  obtain ⟨hlt, hall⟩ := firstMax_spec (fun i => votes equations (UInt16.ofNat i))
    (show 0 < keySpace by decide)
  obtain ⟨winner, hwinner⟩ : ∃ winner : UInt16, winner =
      UInt16.ofNat (maxElement (fun i => votes equations (UInt16.ofNat i)) keySpace) := ⟨_, rfl⟩
  have hplace : winner.toNat = firstMax (fun i => votes equations (UInt16.ofNat i)) keySpace := by
    rw [hwinner]
    exact UInt16.toNat_ofNat_of_lt' hlt
  have hbest : ∀ key, satisfied equations key ≤ satisfied equations winner ∧
      (satisfied equations key = satisfied equations winner → winner ≤ key) := by
    intro key
    have hkey := hall key.toNat key.toNat_lt
    rw [← hplace, UInt16.ofNat_toNat, UInt16.ofNat_toNat, votes_eq_countP, votes_eq_countP] at hkey
    exact ⟨hkey.1, fun heq => UInt16.le_iff_toNat_le.2 (hkey.2 heq)⟩
  have hrun : majorityKey equations =
      if satisfied equations winner * 2 ≤ equations.length then .error .noMatchingKey
      else .ok winner := by
    rw [majorityKey, ← hwinner, votes_eq_countP]
    rfl
  rw [hrun]
  split_ifs with hfew
  · refine ⟨rfl, fun key hkey => ?_⟩
    have hle := (hbest key).1
    omega
  · exact ⟨by omega, hbest⟩

end FastEcu.KeyRecovery
