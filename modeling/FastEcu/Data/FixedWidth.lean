import Mathlib.Data.Int.DivMod
import Mathlib.Data.List.GetD
import Mathlib.Data.Nat.Digits.Lemmas
import Mathlib.Tactic.Linarith

/-!
# Integers of a fixed width

An integer is stored as a code, a natural number below some modulus `m`, and the code as a fixed
number of digits.  A code stands for itself or, as two's complement does, for the integer of least
absolute value with that residue.

* `toCode`, `ofCode` : the code of an integer and back; `ofCode_toCode`, `toCode_ofCode` : they are
  inverse on the integers in the range and on the codes.
* `fixedDigits` : the `w` lowest digits, the lowest first; `ofDigits_fixedDigits`,
  `fixedDigits_ofDigits` : they are inverse to `Nat.ofDigits`.
-/

namespace FastEcu

/-! ### Codes -/

/-- The code of an integer modulo `m`. -/
def toCode (m : ℕ) (z : ℤ) : ℕ := (z % m).toNat

/-- The integer of a code. -/
def ofCode (signed : Bool) (m n : ℕ) : ℤ := if signed then Int.bmod n m else n

/-- The integers that have a code of their own. -/
def InCodeRange (signed : Bool) (m : ℕ) (z : ℤ) : Prop :=
  if signed then -m ≤ z * 2 ∧ z * 2 < m else 0 ≤ z ∧ z < m

section Codes

variable {signed : Bool} {m n : ℕ} {z : ℤ}

theorem toCode_lt (hm : 0 < m) (z : ℤ) : toCode m z < m := by
  have hlt := Int.emod_lt_of_pos z (Int.natCast_pos.2 hm)
  have hnonneg := Int.emod_nonneg z (Int.natCast_ne_zero.2 hm.ne')
  rw [toCode]
  omega

theorem cast_toCode (hm : 0 < m) (z : ℤ) : (toCode m z : ℤ) = z % m :=
  Int.toNat_of_nonneg (Int.emod_nonneg z (Int.natCast_ne_zero.2 hm.ne'))

/-- The code modulo a divisor. -/
theorem toCode_mod {m' : ℕ} (hm : 0 < m) (hm' : 0 < m') (h : m ∣ m') (z : ℤ) :
    toCode m' z % m = toCode m z := by
  apply Int.natCast_inj.1
  rw [Int.natCast_mod, cast_toCode hm', cast_toCode hm]
  exact Int.emod_emod_of_dvd z (Int.natCast_dvd_natCast.2 h)

/-- An integer in the range is read back from its code. -/
theorem ofCode_toCode (hm : 0 < m) (h : InCodeRange signed m z) :
    ofCode signed m (toCode m z) = z := by
  cases signed with
  | true =>
    obtain ⟨hle, hlt⟩ : -m ≤ z * 2 ∧ z * 2 < m := h
    change Int.bmod (toCode m z) m = z
    rw [cast_toCode hm, Int.emod_bmod, Int.bmod_eq_of_le_mul_two hle hlt]
  | false =>
    obtain ⟨hle, hlt⟩ : 0 ≤ z ∧ z < m := h
    change (toCode m z : ℤ) = z
    rw [cast_toCode hm, Int.emod_eq_of_lt hle hlt]

/-- A code is the code of its integer. -/
theorem toCode_ofCode (h : n < m) : toCode m (ofCode signed m n) = n := by
  have hlt : (n : ℤ) < m := Int.ofNat_lt.2 h
  cases signed with
  | true =>
    change ((Int.bmod n m) % m).toNat = n
    rw [Int.bmod_emod, Int.emod_eq_of_lt (Int.natCast_nonneg n) hlt, Int.toNat_natCast]
  | false =>
    change ((n : ℤ) % m).toNat = n
    rw [Int.emod_eq_of_lt (Int.natCast_nonneg n) hlt, Int.toNat_natCast]

theorem inCodeRange_ofCode (h : n < m) : InCodeRange signed m (ofCode signed m n) := by
  cases signed with
  | true =>
    have hm : 0 < m := Nat.zero_lt_of_lt h
    change -m ≤ Int.bmod n m * 2 ∧ Int.bmod n m * 2 < m
    have hle := @Int.le_bmod n m hm
    have hlt := @Int.bmod_lt n m hm
    omega
  | false => exact ⟨Int.natCast_nonneg n, Int.ofNat_lt.2 h⟩

end Codes

/-! ### Digits -/

/-- The `w` lowest digits of `n` in base `b`, the lowest first. -/
def fixedDigits (b w n : ℕ) : List ℕ := (List.range w).map fun k => n / b ^ k % b

section Digits

variable {b w n : ℕ}

theorem length_fixedDigits (b w n : ℕ) : (fixedDigits b w n).length = w := by
  rw [fixedDigits, List.length_map, List.length_range]

/-- Higher digits do not matter. -/
theorem fixedDigits_mod (b w n : ℕ) : fixedDigits b w (n % b ^ w) = fixedDigits b w n := by
  refine List.map_congr_left fun k hk => ?_
  have hsplit : b ^ w = b ^ k * b ^ (w - k) := by
    rw [← pow_add, Nat.add_sub_cancel' (List.mem_range.1 hk).le]
  have hdvd : b ∣ b ^ (w - k) := dvd_pow_self b (Nat.sub_ne_zero_of_lt (List.mem_range.1 hk))
  rw [hsplit, Nat.mod_mul_right_div_self, Nat.mod_mod_of_dvd _ hdvd]

/-- The digits of a number that they are enough for. -/
theorem fixedDigits_eq_digitsAppend (hb : 1 < b) (h : n < b ^ w) :
    fixedDigits b w n = Nat.digitsAppend b w n := by
  have hlength := Nat.length_digitsAppend hb w h
  refine List.ext_getElem (by rw [length_fixedDigits, hlength]) fun k hk hk' => ?_
  have hdigit := Nat.getD_digits n k hb
  have happend : (Nat.digitsAppend b w n).getD k 0 = (b.digits n).getD k 0 := by
    rw [Nat.digitsAppend]
    rcases lt_or_ge k (b.digits n).length with hlt | hge
    · rw [List.getD_append _ _ _ _ hlt]
    · rw [List.getD_append_right _ _ _ _ hge, List.getD_eq_default _ _ hge, List.getD_eq_getElem?_getD,
        List.getElem?_replicate]
      split <;> rfl
  rw [← List.getD_eq_getElem _ 0 hk', happend, hdigit]
  simp only [fixedDigits, List.getElem_map, List.getElem_range]

theorem ofDigits_fixedDigits (hb : 1 < b) (w n : ℕ) :
    Nat.ofDigits b (fixedDigits b w n) = n % b ^ w := by
  have hlt : n % b ^ w < b ^ w := Nat.mod_lt n (Nat.pow_pos (Nat.zero_lt_of_lt hb))
  rw [← fixedDigits_mod, fixedDigits_eq_digitsAppend hb hlt]
  exact (Nat.setInvOn_digitsAppend_ofDigits hb w).2 hlt

theorem fixedDigits_ofDigits (hb : 1 < b) {digits : List ℕ} (h : ∀ d ∈ digits, d < b) :
    fixedDigits b digits.length (Nat.ofDigits b digits) = digits := by
  rw [fixedDigits_eq_digitsAppend hb (Nat.ofDigits_lt_base_pow_length hb h)]
  exact (Nat.setInvOn_digitsAppend_ofDigits hb digits.length).1 ⟨rfl, h⟩

end Digits

end FastEcu
