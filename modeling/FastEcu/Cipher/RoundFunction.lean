import FastEcu.Cipher.KeyRecovery

/-!
# The round function of the Subaru ROM cipher

The key recovery looks a round up nibble by nibble in the 32-entry table (`FFunction`), the payload
cipher two nibbles at a time in the folded table of pairs (`TransformWord` with `kStockPairTable`).
Both put the same four nibbles together.

* `roundFunction_eq_fFunction` : the two round functions agree on every word and every key.
* `encrypt_eq_calculatePayload` : the two ciphers agree on every word.
-/

namespace FastEcu.KeyRecovery

open Ssm

/-! ### Nibbles -/

/-- The nibble that the substitution gives for the five bits of `v` from bit `4 * n` on, of a value
whose bits go around. -/
def nibbleOf (v : UInt16) (n : ℕ) : ℕ :=
  (indexEntry indexTransformationStock (v.toNat * 65537 / 16 ^ n)).toNat

/-- The four nibbles side by side. -/
def substituted (v : UInt16) : ℕ :=
  nibbleOf v 0 + nibbleOf v 1 * 16 + nibbleOf v 2 * 256 + nibbleOf v 3 * 4096

theorem indexEntry_lt (index : ℕ) : (indexEntry indexTransformationStock index).toNat < 16 := by
  have hall : ∀ i : Fin 32, (indexTransformationStock.get i).toNat < 16 := by decide
  exact hall _

theorem nibbleOf_lt (v : UInt16) (n : ℕ) : nibbleOf v n < 16 := indexEntry_lt _

theorem substituted_lt (v : UInt16) : substituted v < 65536 := by
  have h₀ := nibbleOf_lt v 0
  have h₁ := nibbleOf_lt v 1
  have h₂ := nibbleOf_lt v 2
  have h₃ := nibbleOf_lt v 3
  unfold substituted
  omega

/-- An entry depends on five bits of its index. -/
theorem indexEntry_congr {i j : ℕ} (h : i % 32 = j % 32) (table : Vector UInt8 32) :
    indexEntry table i = indexEntry table j := by
  simp only [indexEntry, h]

/-! ### Doubled words -/

theorem toNat_shiftLeft_16 (v : UInt16) : (v.toUInt32 <<< 16).toNat = v.toNat * 65536 := by
  have hv := v.toNat_lt
  rw [UInt32.toNat_shiftLeft, UInt16.toNat_toUInt32, Nat.shiftLeft_eq]
  change v.toNat * 2 ^ 16 % 2 ^ 32 = _
  omega

theorem toNat_doubled (v : UInt16) : (v.toUInt32 ||| (v.toUInt32 <<< 16)).toNat = v.toNat * 65537 := by
  have hor : v.toNat <<< 16 ||| v.toNat = v.toNat * 2 ^ 16 + v.toNat := shiftLeft_or_eq v.toNat_lt
  rw [Nat.shiftLeft_eq] at hor
  rw [UInt32.or_comm, UInt32.toNat_or, toNat_shiftLeft_16, UInt16.toNat_toUInt32]
  omega

theorem toNat_add_shiftLeft (v : UInt16) :
    (v.toUInt32 + (v.toUInt32 <<< 16)).toNat = v.toNat * 65537 := by
  have hv := v.toNat_lt
  rw [UInt32.toNat_add, toNat_shiftLeft_16, UInt16.toNat_toUInt32]
  omega

/-! ### The two lookups -/

theorem fFunction_eq (word key : UInt16) :
    fFunction word key = rotr16 (UInt16.ofNat (substituted (word ^^^ key))) 3 := by
  have hindex : ∀ n < 4, (((word ^^^ key).toUInt32 + ((word ^^^ key).toUInt32 <<< 16)) >>>
      UInt32.ofNat (n * 4)).toNat = (word ^^^ key).toNat * 65537 / 16 ^ n := by
    intro n hn
    have hshift : (UInt32.ofNat (n * 4)).toNat % 32 = n * 4 := by
      rw [UInt32.toNat_ofNat']
      omega
    rw [UInt32.toNat_shiftRight, toNat_add_shiftLeft, hshift, Nat.shiftRight_eq_div_pow, Nat.mul_comm n,
      Nat.pow_mul]
  have hnibble : ∀ n < 4, (indexEntry indexTransformationStock
      (((word ^^^ key).toUInt32 + ((word ^^^ key).toUInt32 <<< 16)) >>>
        UInt32.ofNat (n * 4)).toNat).toNat = nibbleOf (word ^^^ key) n := fun n hn => by
    rw [hindex n hn, nibbleOf]
  have hlt := nibbleOf_lt (word ^^^ key)
  have h₀ := hlt 0
  have h₁ := hlt 1
  have h₂ := hlt 2
  have h₃ := hlt 3
  simp only [fFunction, show List.range nybbles = [0, 1, 2, 3] from rfl, List.foldl_cons, List.foldl_nil]
  refine congrArg (rotr16 · 3) (UInt16.toNat_inj.1 ?_)
  simp only [UInt16.toNat_add, UInt16.toNat_shiftLeft, UInt8.toNat_toUInt16, hnibble 0 (by decide),
    hnibble 1 (by decide), hnibble 2 (by decide), hnibble 3 (by decide), Nat.shiftLeft_eq]
  simp [substituted]

/-- An entry of the folded table is two nibbles. -/
theorem toNat_pairAt (index : UInt32) : (pairAt stockPairTable index).toNat =
    (indexEntry indexTransformationStock index.toNat).toNat +
      (indexEntry indexTransformationStock (index.toNat / 16)).toNat * 16 := by
  have hmask : (index &&& 0x1FF).toNat = index.toNat % 512 := by
    rw [UInt32.toNat_and, show (0x1FF : UInt32).toNat = 2 ^ 9 - 1 from rfl,
      Nat.and_two_pow_sub_one_eq_mod]
  have hfirst : (indexEntry indexTransformationStock (index.toNat % 512)) =
      indexEntry indexTransformationStock index.toNat := indexEntry_congr (by omega) _
  have hsecond : (indexEntry indexTransformationStock (index.toNat % 512 / 16)) =
      indexEntry indexTransformationStock (index.toNat / 16) := indexEntry_congr (by omega) _
  have hentry : pairAt stockPairTable index =
      (indexEntry indexTransformationStock index.toNat).toUInt16 +
        ((indexEntry indexTransformationStock (index.toNat / 16)).toUInt16 <<< 4) := by
    rw [← hfirst, ← hsecond, ← hmask]
    exact pairAt_buildPairTable _ _
  have h₀ := indexEntry_lt index.toNat
  have h₁ := indexEntry_lt (index.toNat / 16)
  rw [hentry, UInt16.toNat_add, UInt16.toNat_shiftLeft, UInt8.toNat_toUInt16, UInt8.toNat_toUInt16,
    Nat.shiftLeft_eq]
  change (_ + _ * 2 ^ 4 % 2 ^ 16) % 2 ^ 16 = _
  omega

theorem roundFunction_eq (key lo : UInt16) :
    roundFunction stockPairTable key lo = rotr16 (UInt16.ofNat (substituted (lo ^^^ key))) 3 := by
  have hshift : (((lo ^^^ key).toUInt32 ||| ((lo ^^^ key).toUInt32 <<< 16)) >>> 8).toNat =
      (lo ^^^ key).toNat * 65537 / 256 := by
    rw [UInt32.toNat_shiftRight, toNat_doubled, Nat.shiftRight_eq_div_pow]
    rfl
  have hlow := toNat_pairAt ((lo ^^^ key).toUInt32 ||| ((lo ^^^ key).toUInt32 <<< 16))
  have hhigh := toNat_pairAt (((lo ^^^ key).toUInt32 ||| ((lo ^^^ key).toUInt32 <<< 16)) >>> 8)
  rw [toNat_doubled] at hlow
  rw [hshift, Nat.div_div_eq_div_mul, show 256 * 16 = 4096 from rfl] at hhigh
  have hsum : substituted (lo ^^^ key) < 65536 := substituted_lt _
  simp only [substituted, nibbleOf, Nat.reducePow, Nat.div_one] at hsum
  refine congrArg (rotr16 · 3) (UInt16.toNat_inj.1 ?_)
  rw [UInt16.toNat_add, UInt16.toNat_shiftLeft, hlow, hhigh, Nat.shiftLeft_eq]
  change (_ + _ * 2 ^ 8 % 2 ^ 16) % 2 ^ 16 = _
  simp only [UInt16.toNat_ofNat', substituted, nibbleOf, Nat.reducePow, Nat.div_one]
  omega

/-! ### Agreement -/

/-- **The two round functions agree.** -/
theorem roundFunction_eq_fFunction (word key : UInt16) :
    roundFunction stockPairTable key word = fFunction word key := by
  rw [roundFunction_eq, fFunction_eq]

/-- A round of `Encrypt` is a round of `TransformWord` on the halves. -/
theorem foldl_encryptRound (keys : List UInt16) (hi lo : UInt16) :
    keys.foldl encryptRound (joinHalves hi lo) =
      joinHalves (keys.foldl (transformRound stockPairTable) (hi, lo)).1
        (keys.foldl (transformRound stockPairTable) (hi, lo)).2 := by
  induction keys generalizing hi lo with
  | nil => rfl
  | cons key keys ih =>
    rw [List.foldl_cons, encryptRound_eq, high_joinHalves, low_joinHalves, ih, List.foldl_cons,
      transformRound, roundFunction_eq_fFunction, UInt16.xor_comm]

theorem encrypt_eq_transformWord (plain : UInt32) (keys : Keys) :
    encrypt plain keys = transformWord false plain (keyList keys) stockPairTable := by
  have hplain : joinHalves (halves plain).1 (halves plain).2 = plain := joinHalves_halves plain
  rw [encrypt, ← hplain, foldl_encryptRound, rotl32by16_eq, low_joinHalves, high_joinHalves, hplain,
    joinHalves, UInt32.or_comm]
  rfl

/-- **The two ciphers agree on every word under all keys.** -/
theorem encrypt_eq_calculatePayload (plain : UInt32) (k₁ k₂ k₃ k₄ : UInt16) :
    calculatePayload (beBytes plain) #v[k₁, k₂, k₃, k₄] stockPairTable =
        beBytes (encrypt plain (k₁, k₂, k₃, k₄)) ∧
      ∀ word key, fFunction word key = roundFunction stockPairTable key word := by
  refine ⟨?_, fun word key => (roundFunction_eq_fFunction word key).symm⟩
  have hwords : wordsBe (beBytes plain) = [plain] := wordsBe_composeBe [plain]
  rw [calculatePayload, hwords, List.map_singleton, encrypt_eq_transformWord]
  rfl

end FastEcu.KeyRecovery
