import FastEcu.Cipher.Ssm
import FastEcu.Data.CountingSort

/-!
# Recovering the round keys of the Subaru ROM cipher

`RecoverKeys` (`src/algorithms/crypto/subaru_key_recovery.cpp`) finds the four round keys from a
plain ROM and its encrypted counterpart: the outer keys by a linear approximation, the inner keys by
a vote of every distinct pair of words.

* `count_preimages` : the group of an output in the inverse table holds every preimage once.
* `votes_eq_countP` : a key gets as many votes as equations it satisfies, so a key that satisfies
  all of them makes the winner satisfy all of them (`majorityKey_satisfies`).
* `equations_of_encrypt`, `encrypt_of_equations` : four keys encrypt a word as they should exactly
  when the inner two satisfy the middle equations of the pair.
-/

namespace FastEcu.KeyRecovery

open Ssm

/-- `kNybbles`. -/
def nybbles : ℕ := 4

/-- `kSubkeys`. -/
def subkeys : ℕ := 0x20

/-- `kKeySpace`. -/
def keySpace : ℕ := 0x10000

/-- `kAnalyzedBytes`. -/
def analyzedBytes : ℕ := 0x20000

/-- `kInBits`: bit positions numbered from 1, most significant first. -/
def inBits : ℕ → ℕ × ℕ
  | 0 => (20, 21)
  | 1 => (24, 25)
  | 2 => (28, 29)
  | _ => (32, 17)

/-- `kOutBits`. -/
def outBits : ℕ → ℕ × ℕ
  | 0 => (11, 8)
  | 1 => (15, 12)
  | 2 => (3, 16)
  | _ => (7, 4)

/-- Two words of the same place in the two streams. -/
structure WordPair where
  /-- The plain word. -/
  plain : UInt32
  /-- The encrypted word. -/
  cipher : UInt32
deriving DecidableEq

/-- `Bit`. -/
def bit (value : UInt32) (position : ℕ) : UInt32 := (value >>> UInt32.ofNat (32 - position)) &&& 1

/-- `Bits`. -/
def bits (value : UInt32) (positions : ℕ × ℕ) (offset : ℕ := 0) : UInt32 :=
  bit value (positions.1 + offset) ^^^ bit value (positions.2 + offset)

/-- `High`. -/
def high (word : UInt32) : UInt16 := (word >>> 16).toUInt16

/-- `Low`. -/
def low (word : UInt32) : UInt16 := word.toUInt16

/-- `Candidate`: the round key that a nybble's subkey stands for. -/
def candidate (nybble subkey : ℕ) : UInt16 :=
  let key := (UInt32.ofNat subkey <<< UInt32.ofNat (12 - nybble * 4)).toUInt16
  if nybble = 0 ∧ subkey > 0xF then key + 1 else key

/-- `Window`: the five bits of a word that the nybble's substitution reads. -/
def window (nybble : ℕ) (word : UInt16) : ℕ :=
  let doubled := word.toUInt32 ||| (word.toUInt32 <<< 16)
  ((doubled >>> UInt32.ofNat (12 - nybble * 4)) &&& 0x1F).toNat

/-- `FFunction`. -/
def fFunction (word key : UInt16) : UInt16 :=
  let index := (word ^^^ key).toUInt32
  let index := index + (index <<< 16)
  let substituted := (List.range nybbles).foldl (fun substituted n =>
    let nibble := indexEntry indexTransformationStock (index >>> UInt32.ofNat (n * 4)).toNat
    substituted + (nibble.toUInt16 <<< UInt16.ofNat (n * 4))) 0
  rotr16 substituted 3

/-- `Keys`. -/
abbrev Keys := UInt16 × UInt16 × UInt16 × UInt16

/-- The keys in the order in which the rounds apply them. -/
def keyList (keys : Keys) : List UInt16 := [keys.1, keys.2.1, keys.2.2.1, keys.2.2.2]

/-- One round of `Encrypt`. -/
def encryptRound (word : UInt32) (key : UInt16) : UInt32 :=
  let mixed := high word ^^^ fFunction (low word) key
  ((low word).toUInt32 <<< 16) ||| mixed.toUInt32

/-- `std::rotl` of a word by 16. -/
def rotl32by16 (word : UInt32) : UInt32 := (word <<< 16) ||| (word >>> 16)

/-- `Encrypt`: four rounds, then the swap of the halves. -/
def encrypt (plain : UInt32) (keys : Keys) : UInt32 :=
  rotl32by16 ((keyList keys).foldl encryptRound plain)

/-- One turn of the loop of `DistinctPairs`, on the pairs and the plain words seen so far. -/
def distinctStep (plain cipher : Bytes) (state : List WordPair × List UInt32) (index : ℕ) :
    List WordPair × List UInt32 :=
  let word := readU32Be plain (4 * index)
  if word ∈ state.2 then state
  else (state.1 ++ [⟨word, readU32Be cipher (4 * index)⟩], word :: state.2)

/-- `DistinctPairs`: every pair whose plain word has not occurred earlier, in input order. -/
def distinctPairs (plain cipher : Bytes) : List WordPair :=
  ((List.range (analyzedBytes / 4)).foldl (distinctStep plain cipher) ([], [])).1

/-- `ParityTerm`. -/
structure ParityTerm where
  /-- The part of the parity that the key does not reach. -/
  constant : UInt32
  /-- The input of the round function. -/
  word : UInt16

/-- How many pairs have the given constant and window. -/
def grouped (pairs : List WordPair) (term : WordPair → ℕ → ParityTerm) (nybble : ℕ)
    (constant : UInt32) (w : ℕ) : ℕ :=
  pairs.countP fun pair =>
    (term pair nybble).constant == constant && window nybble (term pair nybble).word == w

/-- How many pairs have parity zero under a subkey. -/
def agreeing (pairs : List WordPair) (term : WordPair → ℕ → ParityTerm) (nybble subkey : ℕ) : ℕ :=
  ((List.range subkeys).map fun w =>
    let output := fFunction (candidate nybble w) (candidate nybble subkey)
    grouped pairs term nybble (bits output.toUInt32 (inBits nybble)) w).sum

/-- The choice between the best subkey so far and the next one. -/
def better (pairs : List WordPair) (term : WordPair → ℕ → ParityTerm) (nybble : ℕ) (best : ℕ × ℕ)
    (subkey : ℕ) : ℕ × ℕ :=
  let half := pairs.length / 2
  let count := agreeing pairs term nybble subkey
  let bias := if count > half then count - half else half - count
  if bias ≥ best.2 then (subkey, bias) else best

/-- The subkey whose count strays furthest from half the pairs, the higher one on a tie. -/
def bestSubkey (pairs : List WordPair) (term : WordPair → ℕ → ParityTerm) (nybble : ℕ) : ℕ :=
  ((List.range subkeys).foldl (better pairs term nybble) (0, 0)).1

/-- `MostBiasedKey`. -/
def mostBiasedKey (pairs : List WordPair) (term : WordPair → ℕ → ParityTerm) : UInt16 :=
  (List.range nybbles).foldl (fun key nybble =>
    key ||| (UInt16.ofNat (bestSubkey pairs term nybble % 16) <<< UInt16.ofNat (12 - nybble * 4))) 0

/-- The approximation of the fourth key. -/
def fourthKeyTerm (pair : WordPair) (nybble : ℕ) : ParityTerm :=
  let p := bits pair.plain (inBits nybble) ^^^ bits pair.plain (outBits nybble)
  let c := bits pair.cipher (outBits nybble) 16
  ⟨p ^^^ c ^^^ bits (high pair.cipher).toUInt32 (inBits nybble), low pair.cipher⟩

/-- The approximation of the first key, under a fourth key. -/
def firstKeyTerm (k₄ : UInt16) (pair : WordPair) (nybble : ℕ) : ParityTerm :=
  let x₃ := high pair.cipher ^^^ fFunction (low pair.cipher) k₄
  let p := bits pair.plain (outBits nybble) 16
  let c := bits x₃.toUInt32 (outBits nybble) 16
  ⟨p ^^^ c ^^^ bits (high pair.plain).toUInt32 (inBits nybble), low pair.plain⟩

/-- The sort key of `FunctionInverse`: the output for `v` under the key 0. -/
def inverseKey (v : ℕ) : ℕ := (fFunction (UInt16.ofNat v) 0).toNat

/-- `FunctionInverse::Preimages`: every `v` whose output under the key 0 is `output`. -/
def preimages (output : UInt16) : List UInt16 :=
  (CountingSort.bucket inverseKey keySpace output.toNat).map UInt16.ofNat

/-- `Equation`: `fFunction input key = output`. -/
structure Equation where
  /-- The input of the round. -/
  input : UInt16
  /-- Its output. -/
  output : UInt16

/-- The votes of one equation. -/
def voteStep (votes : UInt16 → ℕ) (equation : Equation) : UInt16 → ℕ :=
  (preimages equation.output).foldl (fun votes v =>
    Function.update votes (equation.input ^^^ v) (votes (equation.input ^^^ v) + 1)) votes

/-- The votes of all equations. -/
def votes (equations : List Equation) : UInt16 → ℕ := equations.foldl voteStep fun _ => 0

/-- `std::ranges::max_element` over the first `n` entries: the position of the first largest one. -/
def maxElement (entries : ℕ → ℕ) (n : ℕ) : ℕ :=
  (List.range n).foldl (fun largest i => if entries largest < entries i then i else largest) 0

/-- `Failure`. -/
inductive Failure
  | inputTooShort
  | noMatchingKey
deriving DecidableEq, Repr

/-- `MajorityKey`. -/
def majorityKey (equations : List Equation) : Except Failure UInt16 :=
  let winner := UInt16.ofNat (maxElement (fun i => votes equations (UInt16.ofNat i)) keySpace)
  if votes equations winner * 2 ≤ equations.length then .error .noMatchingKey else .ok winner

/-- `Recovery`. -/
structure Recovery where
  /-- The keys. -/
  keys : Keys
  /-- The number of distinct pairs. -/
  distinctPairs : ℕ
  /-- The number of distinct pairs that the keys reproduce. -/
  reproducedPairs : ℕ
deriving DecidableEq

/-- The half of a pair after the first round. -/
def afterFirst (k₁ : UInt16) (pair : WordPair) : UInt16 :=
  high pair.plain ^^^ fFunction (low pair.plain) k₁

/-- The half of a pair before the fourth round. -/
def beforeFourth (k₄ : UInt16) (pair : WordPair) : UInt16 :=
  high pair.cipher ^^^ fFunction (low pair.cipher) k₄

/-- The equation of a pair for the second key. -/
def secondKeyEquation (k₁ k₄ : UInt16) (pair : WordPair) : Equation :=
  ⟨afterFirst k₁ pair, beforeFourth k₄ pair ^^^ low pair.plain⟩

/-- The equation of a pair for the third key. -/
def thirdKeyEquation (k₁ k₄ : UInt16) (pair : WordPair) : Equation :=
  ⟨beforeFourth k₄ pair, afterFirst k₁ pair ^^^ low pair.cipher⟩

/-- The analysis of the distinct pairs. -/
def recoverFromPairs (pairs : List WordPair) : Except Failure Recovery :=
  let k₄ := mostBiasedKey pairs fourthKeyTerm
  let k₁ := mostBiasedKey pairs (firstKeyTerm k₄)
  match majorityKey (pairs.map (secondKeyEquation k₁ k₄)) with
  | .error e => .error e
  | .ok k₂ =>
    match majorityKey (pairs.map (thirdKeyEquation k₁ k₄)) with
    | .error e => .error e
    | .ok k₃ =>
      let keys := (k₁, k₂, k₃, k₄)
      .ok ⟨keys, pairs.length, pairs.countP fun pair => encrypt pair.plain keys == pair.cipher⟩

/-- `RecoverKeys`. -/
def recoverKeys (plain cipher : Bytes) : Except Failure Recovery :=
  if plain.length < analyzedBytes || cipher.length < analyzedBytes then .error .inputTooShort
  else recoverFromPairs (distinctPairs plain cipher)

/-! ### The round function and its inverse -/

/-- The output depends on the XOR of the word and the key only. -/
theorem fFunction_eq_zero (word key : UInt16) :
    fFunction word key = fFunction (word ^^^ key) 0 := by
  simp only [fFunction, UInt16.xor_zero]

theorem inverseKey_toNat (v : UInt16) : inverseKey v.toNat = (fFunction v 0).toNat := by
  rw [inverseKey, UInt16.ofNat_toNat]

/-- The group of an output holds every preimage once. -/
theorem count_preimages (output v : UInt16) :
    (preimages output).count v = if fFunction v 0 = output then 1 else 0 := by
  have hlt : ∀ i ∈ (List.range keySpace).filter (fun v => inverseKey v == output.toNat),
      i < 2 ^ 16 := fun i hi => List.mem_range.1 (List.mem_filter.1 hi).1
  have hnodup : (preimages output).Nodup := by
    rw [preimages, CountingSort.bucket_eq_filter]
    refine List.Nodup.map_on (fun i hi j hj h => ?_) (List.nodup_range.filter _)
    have := congrArg UInt16.toNat h
    rwa [UInt16.toNat_ofNat_of_lt' (hlt i hi), UInt16.toNat_ofNat_of_lt' (hlt j hj)] at this
  have hmem : v ∈ preimages output ↔ fFunction v 0 = output := by
    rw [preimages, CountingSort.bucket_eq_filter, List.mem_map]
    constructor
    · rintro ⟨i, hi, rfl⟩
      have hi' := (List.mem_filter.1 hi).2
      rw [beq_iff_eq, inverseKey, UInt16.toNat_inj] at hi'
      exact hi'
    · intro h
      refine ⟨v.toNat, List.mem_filter.2 ⟨List.mem_range.2 v.toNat_lt, ?_⟩, UInt16.ofNat_toNat⟩
      rw [inverseKey_toNat, h, beq_self_eq_true]
  by_cases h : fFunction v 0 = output
  · rw [if_pos h, List.count_eq_one_of_mem hnodup (hmem.2 h)]
  · rw [if_neg h, List.count_eq_zero_of_not_mem (fun hv => h (hmem.1 hv))]

/-! ### Votes -/

/-- Counting with a store for each element of a list. -/
theorem foldl_update_succ (g : UInt16 → UInt16) (l : List UInt16) (init : UInt16 → ℕ) (k : UInt16) :
    l.foldl (fun votes v => Function.update votes (g v) (votes (g v) + 1)) init k =
      init k + l.countP fun v => g v == k := by
  induction l generalizing init with
  | nil => rfl
  | cons v l ih =>
    rw [List.foldl_cons, ih, List.countP_cons]
    by_cases h : g v = k
    · rw [h, Function.update_self, beq_self_eq_true, if_pos rfl]
      omega
    · rw [Function.update_of_ne (Ne.symm h), if_neg (by simpa using h)]
      omega

/-- An equation votes once for each key that satisfies it. -/
theorem voteStep_apply (votes : UInt16 → ℕ) (e : Equation) (k : UInt16) :
    voteStep votes e k = votes k + if fFunction e.input k = e.output then 1 else 0 := by
  have hkey : (fun v => e.input ^^^ v == k) = fun v => v == e.input ^^^ k := by
    funext v
    rw [Bool.eq_iff_iff, beq_iff_eq, beq_iff_eq]
    constructor
    · rintro rfl
      rw [xor_xor_cancel]
    · rintro rfl
      rw [xor_xor_cancel]
  rw [voteStep, foldl_update_succ, hkey, ← List.count, count_preimages, ← fFunction_eq_zero]

/-- A key gets as many votes as equations it satisfies. -/
theorem votes_eq_countP (equations : List Equation) (k : UInt16) :
    votes equations k = equations.countP fun e => fFunction e.input k == e.output := by
  have key : ∀ init, equations.foldl voteStep init k =
      init k + equations.countP fun e => fFunction e.input k == e.output := by
    induction equations with
    | nil => exact fun init => rfl
    | cons e equations ih =>
      intro init
      rw [List.foldl_cons, ih, voteStep_apply, List.countP_cons]
      simp only [beq_iff_eq]
      omega
  rw [votes, key, Nat.zero_add]

theorem maxElement_spec (entries : ℕ → ℕ) {n : ℕ} (hn : 0 < n) :
    maxElement entries n < n ∧ ∀ i < n, entries i ≤ entries (maxElement entries n) := by
  induction n with
  | zero => exact absurd hn (Nat.lt_irrefl 0)
  | succ n ih =>
    rw [maxElement, List.range_succ, List.foldl_append, List.foldl_cons, List.foldl_nil,
      ← maxElement]
    obtain rfl | hpos := Nat.eq_zero_or_pos n
    · rw [show maxElement entries 0 = 0 from rfl, if_neg (lt_irrefl _)]
      exact ⟨Nat.one_pos, fun i hi => by rw [Nat.lt_one_iff.1 hi]⟩
    · obtain ⟨hlt, hmax⟩ := ih hpos
      split_ifs with h
      · refine ⟨n.lt_succ_self, fun i hi => ?_⟩
        obtain hi' | rfl := Nat.lt_succ_iff_lt_or_eq.1 hi
        · exact (hmax i hi').trans h.le
        · exact le_rfl
      · refine ⟨hlt.trans n.lt_succ_self, fun i hi => ?_⟩
        obtain hi' | rfl := Nat.lt_succ_iff_lt_or_eq.1 hi
        · exact hmax i hi'
        · exact not_lt.1 h

/-- If some key satisfies every equation, the winner of the vote does. -/
theorem majorityKey_satisfies {equations : List Equation} (hne : equations ≠ []) {k : UInt16}
    (hk : ∀ e ∈ equations, fFunction e.input k = e.output) :
    ∃ k', majorityKey equations = .ok k' ∧ ∀ e ∈ equations, fFunction e.input k' = e.output := by
  have hpos := List.length_pos_iff.2 hne
  -- the true key has every vote, so the winner has every vote
  have hall : votes equations k = equations.length := by
    rw [votes_eq_countP, List.countP_eq_length]
    exact fun e he => beq_iff_eq.2 (hk e he)
  obtain ⟨hlt, hmax⟩ := maxElement_spec (fun i => votes equations (UInt16.ofNat i))
    (show 0 < keySpace by decide)
  have hwin := hmax k.toNat k.toNat_lt
  simp only [UInt16.ofNat_toNat, hall] at hwin
  refine ⟨_, if_neg (by omega), ?_⟩
  rw [votes_eq_countP] at hwin
  have hcount := Nat.le_antisymm List.countP_le_length hwin
  rw [List.countP_eq_length] at hcount
  exact fun e he => beq_iff_eq.1 (hcount e he)

/-! ### The middle rounds -/

theorem high_joinHalves (h l : UInt16) : high (joinHalves h l) = h :=
  congrArg Prod.fst (halves_joinHalves h l)

theorem low_joinHalves (h l : UInt16) : low (joinHalves h l) = l :=
  congrArg Prod.snd (halves_joinHalves h l)

theorem encryptRound_eq (word : UInt32) (key : UInt16) :
    encryptRound word key = joinHalves (low word) (high word ^^^ fFunction (low word) key) := rfl

theorem rotl32by16_eq (word : UInt32) : rotl32by16 word = joinHalves (low word) (high word) := by
  have hw := word.toNat_lt
  have hlow : (low word).toNat = word.toNat % 2 ^ 16 := (toNat_halves word).2
  have hhigh : (high word).toNat = word.toNat / 2 ^ 16 := (toNat_halves word).1
  have hright : (word >>> 16).toNat = word.toNat / 2 ^ 16 := by
    rw [UInt32.toNat_shiftRight, Nat.shiftRight_eq_div_pow]
    rfl
  have hleft : (word <<< 16).toNat = (word.toNat % 2 ^ 16) <<< 16 := by
    rw [UInt32.toNat_shiftLeft, Nat.shiftLeft_eq, Nat.shiftLeft_eq]
    change word.toNat * 2 ^ 16 % 2 ^ 32 = _
    omega
  apply UInt32.toNat_inj.1
  rw [toNat_joinHalves, hlow, hhigh, rotl32by16, UInt32.toNat_or, hleft, hright,
    shiftLeft_or_eq (by omega)]

/-- The halves of an encrypted word, round by round. -/
theorem encrypt_eq (plain : UInt32) (k₁ k₂ k₃ k₄ : UInt16) {x₂ x₃ x₄ : UInt16}
    (h₂ : x₂ = high plain ^^^ fFunction (low plain) k₁)
    (h₃ : x₃ = low plain ^^^ fFunction x₂ k₂) (h₄ : x₄ = x₂ ^^^ fFunction x₃ k₃) :
    encrypt plain (k₁, k₂, k₃, k₄) = joinHalves (x₃ ^^^ fFunction x₄ k₄) x₄ := by
  simp only [encrypt, keyList, List.foldl_cons, List.foldl_nil, encryptRound_eq, high_joinHalves,
    low_joinHalves, rotl32by16_eq, ← h₂, ← h₃, ← h₄]

/-- The middle equations of a pair hold for the keys that encrypted it. -/
theorem equations_of_encrypt {pair : WordPair} {k₁ k₂ k₃ k₄ : UInt16}
    (h : pair.cipher = encrypt pair.plain (k₁, k₂, k₃, k₄)) :
    fFunction (secondKeyEquation k₁ k₄ pair).input k₂ = (secondKeyEquation k₁ k₄ pair).output ∧
    fFunction (thirdKeyEquation k₁ k₄ pair).input k₃ = (thirdKeyEquation k₁ k₄ pair).output := by
  have hcipher := h.trans (encrypt_eq pair.plain k₁ k₂ k₃ k₄ rfl rfl rfl)
  have hfourth : beforeFourth k₄ pair =
      low pair.plain ^^^ fFunction (afterFirst k₁ pair) k₂ := by
    rw [beforeFourth, hcipher, high_joinHalves, low_joinHalves, UInt16.xor_assoc,
      UInt16.xor_self, UInt16.xor_zero]
    rfl
  constructor
  · change fFunction (afterFirst k₁ pair) k₂ = beforeFourth k₄ pair ^^^ low pair.plain
    rw [hfourth, UInt16.xor_comm, xor_xor_cancel]
  · change fFunction (beforeFourth k₄ pair) k₃ = afterFirst k₁ pair ^^^ low pair.cipher
    rw [hcipher, low_joinHalves, hfourth]
    exact (xor_xor_cancel _ _).symm

/-- Keys that satisfy the middle equations of a pair reproduce it. -/
theorem encrypt_of_equations {pair : WordPair} {k₁ k₂ k₃ k₄ : UInt16}
    (h₂ : fFunction (secondKeyEquation k₁ k₄ pair).input k₂ =
      (secondKeyEquation k₁ k₄ pair).output)
    (h₃ : fFunction (thirdKeyEquation k₁ k₄ pair).input k₃ =
      (thirdKeyEquation k₁ k₄ pair).output) :
    encrypt pair.plain (k₁, k₂, k₃, k₄) = pair.cipher := by
  change fFunction (afterFirst k₁ pair) k₂ = beforeFourth k₄ pair ^^^ low pair.plain at h₂
  change fFunction (beforeFourth k₄ pair) k₃ = afterFirst k₁ pair ^^^ low pair.cipher at h₃
  have hx₃ : beforeFourth k₄ pair = low pair.plain ^^^ fFunction (afterFirst k₁ pair) k₂ := by
    rw [h₂, UInt16.xor_comm (beforeFourth k₄ pair), xor_xor_cancel]
  have hx₄ : low pair.cipher = afterFirst k₁ pair ^^^ fFunction (beforeFourth k₄ pair) k₃ := by
    rw [h₃, xor_xor_cancel]
  rw [encrypt_eq pair.plain k₁ k₂ k₃ k₄ rfl hx₃ hx₄, beforeFourth, UInt16.xor_assoc,
    UInt16.xor_self, UInt16.xor_zero]
  exact joinHalves_halves pair.cipher

/-! ### Distinct pairs -/

/-- The pair at a position of the two streams. -/
def pairAtIndex (plain cipher : Bytes) (index : ℕ) : WordPair :=
  ⟨readU32Be plain (4 * index), readU32Be cipher (4 * index)⟩

/-- What the loop has gathered after the first `n` positions. -/
structure Distinct (plain cipher : Bytes) (n : ℕ) (state : List WordPair × List UInt32) :
    Prop where
  /-- The pairs come from the streams. -/
  from_streams : ∀ pair ∈ state.1, ∃ i < n, pair = pairAtIndex plain cipher i
  /-- A word is seen when a pair has it. -/
  seen_iff : ∀ word, word ∈ state.2 ↔ ∃ pair ∈ state.1, pair.plain = word
  /-- Every word so far is seen. -/
  seen : ∀ i < n, readU32Be plain (4 * i) ∈ state.2

theorem Distinct.step {plain cipher : Bytes} {n : ℕ} {state : List WordPair × List UInt32}
    (h : Distinct plain cipher n state) :
    Distinct plain cipher (n + 1) (distinctStep plain cipher state n) := by
  rw [distinctStep]
  split_ifs with hseen
  · refine ⟨fun pair hp => ?_, h.seen_iff, fun i hi => ?_⟩
    · obtain ⟨i, hi, rfl⟩ := h.from_streams pair hp
      exact ⟨i, hi.trans n.lt_succ_self, rfl⟩
    · obtain hi' | rfl := Nat.lt_succ_iff_lt_or_eq.1 hi
      · exact h.seen i hi'
      · exact hseen
  · refine ⟨fun pair hp => ?_, fun word => ?_, fun i hi => ?_⟩
    · obtain hp | hp := List.mem_append.1 hp
      · obtain ⟨i, hi, rfl⟩ := h.from_streams pair hp
        exact ⟨i, hi.trans n.lt_succ_self, rfl⟩
      · exact ⟨n, n.lt_succ_self, List.mem_singleton.1 hp⟩
    · rw [List.mem_cons, h.seen_iff]
      constructor
      · rintro (rfl | ⟨pair, hp, rfl⟩)
        · exact ⟨_, List.mem_append_right _ List.mem_cons_self, rfl⟩
        · exact ⟨pair, List.mem_append_left _ hp, rfl⟩
      · rintro ⟨pair, hp, rfl⟩
        obtain hp | hp := List.mem_append.1 hp
        · exact .inr ⟨pair, hp, rfl⟩
        · exact .inl (by rw [List.mem_singleton.1 hp])
    · obtain hi' | rfl := Nat.lt_succ_iff_lt_or_eq.1 hi
      · exact List.mem_cons_of_mem _ (h.seen i hi')
      · exact List.mem_cons_self

theorem distinct_foldl (plain cipher : Bytes) (n : ℕ) :
    Distinct plain cipher n ((List.range n).foldl (distinctStep plain cipher) ([], [])) := by
  induction n with
  | zero => exact ⟨fun _ hp => absurd hp List.not_mem_nil, fun w => by simp, fun i hi => by omega⟩
  | succ n ih =>
    rw [List.range_succ, List.foldl_append, List.foldl_cons, List.foldl_nil]
    exact ih.step

/-- The definition as an equation of functions: the kernel would run the loop to compare two of its results. -/
theorem distinctPairs_eq : distinctPairs = fun plain cipher =>
    ((List.range (analyzedBytes / 4)).foldl (distinctStep plain cipher) ([], [])).1 := rfl

theorem distinctPairs_ne_nil (plain cipher : Bytes) : distinctPairs plain cipher ≠ [] := by
  have h := distinct_foldl plain cipher (analyzedBytes / 4)
  obtain ⟨pair, hp, -⟩ := (h.seen_iff _).1 (h.seen 0 (by decide))
  rw [distinctPairs_eq]
  exact List.ne_nil_of_mem hp

/-- Streams with one plain word only have one distinct pair. -/
theorem distinctPairs_of_constant {plain : Bytes} (cipher : Bytes) {word : UInt32}
    (h : ∀ i < analyzedBytes / 4, readU32Be plain (4 * i) = word) :
    distinctPairs plain cipher = [⟨word, readU32Be cipher 0⟩] := by
  have key : ∀ n < analyzedBytes / 4,
      (List.range (n + 1)).foldl (distinctStep plain cipher) ([], []) =
        ([⟨word, readU32Be cipher 0⟩], [word]) := by
    intro n hn
    induction n with
    | zero =>
      rw [show List.range (0 + 1) = [0] from rfl, List.foldl_cons, List.foldl_nil, distinctStep,
        h 0 hn, if_neg List.not_mem_nil]
      rfl
    | succ n ih =>
      rw [List.range_succ, List.foldl_append, ih (by omega), List.foldl_cons, List.foldl_nil,
        distinctStep, h (n + 1) hn, if_pos List.mem_cons_self]
  have hpos : 0 < analyzedBytes / 4 := by decide
  have hlast := key (analyzedBytes / 4 - 1) (Nat.sub_one_lt_of_lt hpos)
  rw [Nat.sub_add_cancel hpos] at hlast
  rw [distinctPairs_eq]
  dsimp only
  rw [hlast]

/-! ### Recovery -/

/-- The stream of a list of words. -/
abbrev plainStream (words : List UInt32) : Bytes := composeBe words

/-- The stream of the same words, each encrypted. -/
abbrev cipherStream (words : List UInt32) (keys : Keys) : Bytes :=
  composeBe (words.map fun word => encrypt word keys)

/-- Every distinct pair of the two streams is a word and its encryption. -/
theorem cipher_of_mem_distinctPairs {words : List UInt32} {keys : Keys}
    (hlen : analyzedBytes ≤ 4 * words.length) {pair : WordPair}
    (hp : pair ∈ distinctPairs (plainStream words) (cipherStream words keys)) :
    pair.cipher = encrypt pair.plain keys := by
  rw [distinctPairs_eq] at hp
  obtain ⟨i, hi, rfl⟩ := (distinct_foldl _ _ _).from_streams pair hp
  have hi' : i < words.length := by
    rw [analyzedBytes] at hi hlen
    omega
  have hword : words[i]? = some (words.get ⟨i, hi'⟩) := List.getElem?_eq_getElem hi'
  have hmap : (words.map fun word => encrypt word keys)[i]? =
      some (encrypt (words.get ⟨i, hi'⟩) keys) := by
    rw [List.getElem?_map, hword, Option.map_some]
  rw [pairAtIndex, readU32Be_composeBe hword, readU32Be_composeBe hmap]

/-- With the true outer keys, the votes give inner keys that reproduce every pair. -/
theorem exists_inner_keys {pairs : List WordPair} {k₁ k₂ k₃ k₄ : UInt16} (hne : pairs ≠ [])
    (hcipher : ∀ pair ∈ pairs, pair.cipher = encrypt pair.plain (k₁, k₂, k₃, k₄)) :
    ∃ k₂' k₃', majorityKey (pairs.map (secondKeyEquation k₁ k₄)) = .ok k₂' ∧
      majorityKey (pairs.map (thirdKeyEquation k₁ k₄)) = .ok k₃' ∧
      ∀ pair ∈ pairs, encrypt pair.plain (k₁, k₂', k₃', k₄) = pair.cipher := by
  have hsecond : ∀ e ∈ pairs.map (secondKeyEquation k₁ k₄), fFunction e.input k₂ = e.output := by
    intro e he
    obtain ⟨pair, hp, rfl⟩ := List.mem_map.1 he
    exact (equations_of_encrypt (hcipher pair hp)).1
  have hthird : ∀ e ∈ pairs.map (thirdKeyEquation k₁ k₄), fFunction e.input k₃ = e.output := by
    intro e he
    obtain ⟨pair, hp, rfl⟩ := List.mem_map.1 he
    exact (equations_of_encrypt (hcipher pair hp)).2
  obtain ⟨k₂', hrun₂, hall₂⟩ := majorityKey_satisfies (mt List.map_eq_nil_iff.1 hne) hsecond
  obtain ⟨k₃', hrun₃, hall₃⟩ := majorityKey_satisfies (mt List.map_eq_nil_iff.1 hne) hthird
  exact ⟨k₂', k₃', hrun₂, hrun₃, fun pair hp => encrypt_of_equations
    (hall₂ _ (List.mem_map_of_mem hp)) (hall₃ _ (List.mem_map_of_mem hp))⟩

/-- With the true outer keys, the analysis succeeds and reproduces every pair. -/
theorem recoverFromPairs_reproduces {pairs : List WordPair} {k₁ k₂ k₃ k₄ : UInt16}
    (hne : pairs ≠ [])
    (hcipher : ∀ pair ∈ pairs, pair.cipher = encrypt pair.plain (k₁, k₂, k₃, k₄))
    (hfourth : mostBiasedKey pairs fourthKeyTerm = k₄)
    (hfirst : mostBiasedKey pairs (firstKeyTerm k₄) = k₁) :
    ∃ recovery, recoverFromPairs pairs = .ok recovery ∧ recovery.distinctPairs = pairs.length ∧
      recovery.reproducedPairs = recovery.distinctPairs ∧
      ∀ pair ∈ pairs, encrypt pair.plain recovery.keys = pair.cipher := by
  obtain ⟨k₂', k₃', hrun₂, hrun₃, hrepro⟩ := exists_inner_keys hne hcipher
  have hcount : (pairs.countP fun pair =>
      encrypt pair.plain (k₁, k₂', k₃', k₄) == pair.cipher) = pairs.length :=
    List.countP_eq_length.2 fun pair hp => beq_iff_eq.2 (hrepro pair hp)
  refine ⟨⟨(k₁, k₂', k₃', k₄), pairs.length, pairs.length⟩, ?_, rfl, rfl, hrepro⟩
  simp only [recoverFromPairs, hfourth, hfirst, hrun₂, hrun₃, hcount]

/-- **Right outer keys are enough.**  If the streams have the analyzed length and the linear
approximations find the true outer keys, the recovery succeeds and reproduces every distinct
pair. -/
theorem recoverKeys_reproduces_of_outer_keys (words : List UInt32) (k₁ k₂ k₃ k₄ : UInt16)
    (hlen : analyzedBytes ≤ 4 * words.length)
    (hfourth : mostBiasedKey (distinctPairs (plainStream words)
      (cipherStream words (k₁, k₂, k₃, k₄))) fourthKeyTerm = k₄)
    (hfirst : mostBiasedKey (distinctPairs (plainStream words)
      (cipherStream words (k₁, k₂, k₃, k₄))) (firstKeyTerm k₄) = k₁) :
    ∃ recovery, recoverKeys (plainStream words) (cipherStream words (k₁, k₂, k₃, k₄)) =
        .ok recovery ∧
      recovery.distinctPairs = (distinctPairs (plainStream words)
        (cipherStream words (k₁, k₂, k₃, k₄))).length ∧
      recovery.reproducedPairs = recovery.distinctPairs ∧
      ∀ pair ∈ distinctPairs (plainStream words) (cipherStream words (k₁, k₂, k₃, k₄)),
        encrypt pair.plain recovery.keys = pair.cipher := by
  have hne := distinctPairs_ne_nil (plainStream words) (cipherStream words (k₁, k₂, k₃, k₄))
  have hcipher : ∀ pair ∈ distinctPairs (plainStream words) (cipherStream words (k₁, k₂, k₃, k₄)),
      pair.cipher = encrypt pair.plain (k₁, k₂, k₃, k₄) := fun _ => cipher_of_mem_distinctPairs hlen
  have hlong : ¬ ((decide ((plainStream words).length < analyzedBytes) ||
      decide ((cipherStream words (k₁, k₂, k₃, k₄)).length < analyzedBytes)) = true) := by
    simp only [length_composeBe, List.length_map, Bool.or_eq_true, decide_eq_true_eq]
    omega
  rw [recoverKeys, if_neg hlong]
  exact recoverFromPairs_reproduces hne hcipher hfourth hfirst

/-! ### One pair -/

theorem window_lt (nybble : ℕ) (word : UInt16) : window nybble word < subkeys := by
  rw [window, UInt32.toNat_and, show (0x1F : UInt32).toNat = 2 ^ 5 - 1 from rfl,
    Nat.and_two_pow_sub_one_eq_mod]
  exact Nat.mod_lt _ (by decide)

theorem sum_map_range_of_single {g : ℕ → ℕ} {i : ℕ} (h : ∀ j, j ≠ i → g j = 0) (n : ℕ) :
    ((List.range n).map g).sum = if i < n then g i else 0 := by
  induction n with
  | zero => rfl
  | succ n ih =>
    rw [List.range_succ, List.map_append, List.sum_append, ih, List.map_singleton,
      List.sum_singleton]
    obtain rfl | hne := eq_or_ne n i
    · rw [if_neg (lt_irrefl n), if_pos n.lt_succ_self, Nat.zero_add]
    · rw [h n hne, Nat.add_zero]
      split_ifs <;> first | rfl | omega

/-- The parity of a pair under a subkey is zero. -/
def ParityZero (pair : WordPair) (term : WordPair → ℕ → ParityTerm) (nybble subkey : ℕ) : Prop :=
  (term pair nybble).constant = bits (fFunction
    (candidate nybble (window nybble (term pair nybble).word))
    (candidate nybble subkey)).toUInt32 (inBits nybble)

instance (pair : WordPair) (term : WordPair → ℕ → ParityTerm) (nybble subkey : ℕ) :
    Decidable (ParityZero pair term nybble subkey) :=
  inferInstanceAs (Decidable (_ = _))

theorem agreeing_of_one (pair : WordPair) (term : WordPair → ℕ → ParityTerm) (nybble subkey : ℕ) :
    agreeing [pair] term nybble subkey = if ParityZero pair term nybble subkey then 1 else 0 := by
  have hzero : ∀ w, w ≠ window nybble (term pair nybble).word →
      grouped [pair] term nybble (bits (fFunction (candidate nybble w)
        (candidate nybble subkey)).toUInt32 (inBits nybble)) w = 0 := by
    intro w hw
    rw [grouped, List.countP_singleton, if_neg]
    simp only [Bool.and_eq_true, beq_iff_eq, not_and]
    exact fun _ h => hw h.symm
  rw [agreeing, sum_map_range_of_single hzero, if_pos (window_lt _ _), grouped,
    List.countP_singleton]
  simp only [Bool.and_eq_true, beq_iff_eq, and_true]
  rfl

theorem better_of_one (pair : WordPair) (term : WordPair → ℕ → ParityTerm) (nybble : ℕ)
    (best : ℕ × ℕ) (subkey : ℕ) : better [pair] term nybble best subkey =
      if best.2 ≤ if ParityZero pair term nybble subkey then 1 else 0 then
        (subkey, if ParityZero pair term nybble subkey then 1 else 0)
      else best := by
  simp only [better, agreeing_of_one, List.length_singleton]
  split_ifs <;> simp_all

/-- With one pair, the last subkey wins if the pair's parity under it is zero. -/
theorem bestSubkey_of_one {pair : WordPair} {term : WordPair → ℕ → ParityTerm} {nybble : ℕ}
    (h : ParityZero pair term nybble 31) : bestSubkey [pair] term nybble = 31 := by
  have hle : ∀ n, ((List.range n).foldl (better [pair] term nybble) (0, 0)).2 ≤ 1 := by
    intro n
    induction n with
    | zero => exact Nat.zero_le 1
    | succ n ih =>
      rw [List.range_succ, List.foldl_append, List.foldl_cons, List.foldl_nil, better_of_one]
      split_ifs
      · exact le_rfl
      · exact Nat.zero_le 1
      · exact ih
  rw [bestSubkey, show subkeys = 31 + 1 from rfl, List.range_succ, List.foldl_append,
    List.foldl_cons, List.foldl_nil, better_of_one, if_pos h, if_pos (hle 31)]

theorem mostBiasedKey_of_one {pair : WordPair} {term : WordPair → ℕ → ParityTerm}
    (h : ∀ nybble < nybbles, ParityZero pair term nybble 31) :
    mostBiasedKey [pair] term = 0xFFFF := by
  have hbest : ∀ nybble < nybbles, bestSubkey [pair] term nybble = 31 := fun nybble hn =>
    bestSubkey_of_one (h nybble hn)
  rw [mostBiasedKey, show List.range nybbles = [0, 1, 2, 3] from rfl]
  simp only [List.foldl_cons, List.foldl_nil, hbest 0 (by decide), hbest 1 (by decide),
    hbest 2 (by decide), hbest 3 (by decide)]
  decide

/-- Keys whose outer ones the approximations find from the one pair of the word 0. -/
def sampleKeys : Keys := (0xFFFF, 0xE8AE, 0x5DA0, 0xFFFF)

theorem mostBiasedKey_sample :
    mostBiasedKey [⟨0, encrypt 0 sampleKeys⟩] fourthKeyTerm = 0xFFFF ∧
      mostBiasedKey [⟨0, encrypt 0 sampleKeys⟩] (firstKeyTerm 0xFFFF) = 0xFFFF :=
  ⟨mostBiasedKey_of_one (by decide +kernel), mostBiasedKey_of_one (by decide +kernel)⟩

/-- A stream of zero words has one distinct pair, however short it is. -/
theorem distinctPairs_zeros {n : ℕ} (hn : 0 < n) (keys : Keys) :
    distinctPairs (plainStream (List.replicate n 0)) (cipherStream (List.replicate n 0) keys) =
      [⟨0, encrypt 0 keys⟩] := by
  have hplain : ∀ i < analyzedBytes / 4,
      readU32Be (plainStream (List.replicate n 0)) (4 * i) = 0 := by
    intro i _
    by_cases hi : i < n
    · exact readU32Be_composeBe (by rw [List.getElem?_replicate, if_pos hi])
    · rw [readU32Be, if_neg]
      rw [fitsAt_iff, length_composeBe, List.length_replicate]
      omega
  have hcipher : readU32Be (cipherStream (List.replicate n 0) keys) (4 * 0) = encrypt 0 keys :=
    readU32Be_composeBe (by rw [List.map_replicate, List.getElem?_replicate, if_pos hn])
  rw [distinctPairs_of_constant _ hplain, ← hcipher]

/-- A recovery from a stream of zero words. -/
theorem recoverKeys_zeros : ∃ recovery,
    recoverKeys (plainStream (List.replicate 0x8000 0))
      (cipherStream (List.replicate 0x8000 0) sampleKeys) = .ok recovery ∧
    recovery.distinctPairs = 1 ∧ recovery.reproducedPairs = 1 := by
  have hpairs := distinctPairs_zeros (n := 0x8000) (by decide) sampleKeys
  obtain ⟨recovery, hrun, hdistinct, hreproduced, -⟩ :=
    recoverKeys_reproduces_of_outer_keys (List.replicate 0x8000 0) 0xFFFF 0xE8AE 0x5DA0 0xFFFF
      (by rw [List.length_replicate]; decide)
      (by rw [← sampleKeys, hpairs]; exact mostBiasedKey_sample.1)
      (by rw [← sampleKeys, hpairs]; exact mostBiasedKey_sample.2)
  rw [← sampleKeys, hpairs] at hdistinct
  exact ⟨recovery, hrun, hdistinct, hreproduced.trans hdistinct⟩

/-- A stream of one word is too short, although the approximations find the outer keys from it. -/
theorem recoverKeys_one_word :
    mostBiasedKey (distinctPairs (plainStream [0]) (cipherStream [0] sampleKeys)) fourthKeyTerm =
        0xFFFF ∧
      mostBiasedKey (distinctPairs (plainStream [0]) (cipherStream [0] sampleKeys))
        (firstKeyTerm 0xFFFF) = 0xFFFF ∧
      recoverKeys (plainStream [0]) (cipherStream [0] sampleKeys) = .error .inputTooShort := by
  have hpairs := distinctPairs_zeros (n := 1) (by decide) sampleKeys
  rw [List.replicate_one] at hpairs
  rw [hpairs]
  exact ⟨mostBiasedKey_sample.1, mostBiasedKey_sample.2, if_pos (by decide +kernel)⟩

end FastEcu.KeyRecovery
