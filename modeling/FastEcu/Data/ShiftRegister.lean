import Mathlib.Logic.Function.Iterate

/-!
# Shift registers

The register of a reflected cyclic redundancy check, for any width and polynomial, with the lowest bit first.

* `shift` : one shift of the register.
* `feed` : one bit is mixed in and the register is shifted.
* `shift_xor` : a shift is linear.
* `foldl_feed` : bits that are fed one by one are mixed in at once.
* `foldl_zipWith` : a loop whose step is linear is linear.
-/

namespace FastEcu.Data

/-- A loop of a step that respects two operations respects them, on lists of one length. -/
theorem foldl_zipWith {γ β : Type*} {op : γ → γ → γ} {op' : β → β → β} {step : γ → β → γ}
    (hstep : ∀ c c' b b', step (op c c') (op' b b') = op (step c b) (step c' b')) {l l' : List β}
    (hlength : l.length = l'.length) (c c' : γ) :
    (List.zipWith op' l l').foldl step (op c c') = op (l.foldl step c) (l'.foldl step c') := by
  induction l generalizing l' c c' with
  | nil =>
    obtain rfl : l' = [] := List.eq_nil_of_length_eq_zero hlength.symm
    rfl
  | cons b l ih =>
    cases l' with
    | nil => cases hlength
    | cons b' l' =>
      rw [List.zipWith_cons_cons, List.foldl_cons, List.foldl_cons, List.foldl_cons, hstep]
      exact ih (Nat.succ.inj hlength) _ _

namespace ShiftRegister

variable {w : ℕ} (poly : BitVec w)

/-- One shift of the register: the bit that falls out decides whether the polynomial is added. -/
def shift (c : BitVec w) : BitVec w := if c.getLsbD 0 then (c >>> 1) ^^^ poly else c >>> 1

/-- A bit as a register. -/
def bitWord (bit : Bool) : BitVec w := (BitVec.ofBool bit).setWidth w

/-- One bit is mixed into the lowest place, and the register is shifted. -/
def feed (c : BitVec w) (bit : Bool) : BitVec w := shift poly (c ^^^ bitWord bit)

variable {poly}

/-- **A shift is linear.** -/
theorem shift_xor (a b : BitVec w) : shift poly (a ^^^ b) = shift poly a ^^^ shift poly b := by
  unfold shift
  rw [BitVec.getLsbD_xor, BitVec.ushiftRight_xor_distrib]
  cases a.getLsbD 0 <;> cases b.getLsbD 0
  · rfl
  · exact BitVec.xor_assoc ..
  · show a >>> 1 ^^^ b >>> 1 ^^^ poly = a >>> 1 ^^^ poly ^^^ b >>> 1
    rw [BitVec.xor_assoc, BitVec.xor_comm (b >>> 1), BitVec.xor_assoc]
  · -- the polynomial is added twice
    show a >>> 1 ^^^ b >>> 1 = a >>> 1 ^^^ poly ^^^ (b >>> 1 ^^^ poly)
    rw [BitVec.xor_comm (b >>> 1), BitVec.xor_assoc, ← BitVec.xor_assoc poly, BitVec.xor_self,
      BitVec.zero_xor]

theorem shifts_xor (n : ℕ) (a b : BitVec w) :
    (shift poly)^[n] (a ^^^ b) = (shift poly)^[n] a ^^^ (shift poly)^[n] b := by
  induction n generalizing a b with
  | zero => rfl
  | succ n ih => rw [Function.iterate_succ_apply, shift_xor, ih]; rfl

/-- A register whose low bits are clear only moves down. -/
theorem shifts_of_clear {n : ℕ} {c : BitVec w} (h : ∀ i < n, c.getLsbD i = false) :
    (shift poly)^[n] c = c >>> n := by
  induction n with
  | zero => exact (BitVec.ushiftRight_zero c).symm
  | succ n ih =>
    have hlow : (c >>> n).getLsbD 0 = false := by
      rw [BitVec.getLsbD_ushiftRight]
      exact h n (Nat.lt_succ_self n)
    rw [Function.iterate_succ_apply', ih fun i hi => h i (Nat.lt_succ_of_lt hi), shift, hlow,
      BitVec.shiftRight_add]
    rfl

/-- The bits of a list as a register, the first one lowest. -/
def wordOf (bits : List Bool) : BitVec w := (BitVec.ofBoolListLE bits).setWidth w

theorem getLsbD_wordOf (bits : List Bool) (i : ℕ) :
    (wordOf bits : BitVec w).getLsbD i = (decide (i < w) && bits.getD i false) := by
  rw [wordOf, BitVec.getLsbD_setWidth, BitVec.getLsbD_ofBoolListLE]

theorem wordOf_cons (bit : Bool) (bits : List Bool) :
    (wordOf (bit :: bits) : BitVec w) = bitWord bit ^^^ wordOf bits <<< 1 := by
  refine BitVec.eq_of_getLsbD_eq fun i hi => ?_
  rw [BitVec.getLsbD_xor, BitVec.getLsbD_shiftLeft, getLsbD_wordOf, getLsbD_wordOf, bitWord,
    BitVec.getLsbD_setWidth, BitVec.getLsbD_ofBool]
  cases i with
  | zero => simp [hi]
  | succ i => simp [hi, Nat.lt_of_succ_lt hi]

/-- A register whose highest bit is clear comes back when it is moved up and shifted. -/
theorem shift_shiftLeft {c : BitVec w} (h : c.getLsbD (w - 1) = false) : shift poly (c <<< 1) = c := by
  have hlow : (c <<< 1).getLsbD 0 = false := by simp
  rw [shift, hlow, if_neg Bool.false_ne_true]
  refine BitVec.eq_of_getLsbD_eq fun i hi => ?_
  rw [BitVec.getLsbD_ushiftRight, BitVec.getLsbD_shiftLeft]
  by_cases htop : i = w - 1
  · rw [htop, h]
    simp [show ¬ 1 + (w - 1) < w by omega]
  · simp [show 1 + i < w by omega]

/-- **Bits that are fed one by one are mixed in at once**, if they fit into the register. -/
theorem foldl_feed {bits : List Bool} (hlength : bits.length ≤ w) (c : BitVec w) :
    bits.foldl (feed poly) c = (shift poly)^[bits.length] (c ^^^ wordOf bits) := by
  induction bits generalizing c with
  | nil =>
    have hzero : (wordOf [] : BitVec w) = 0#w := by
      refine BitVec.eq_of_getLsbD_eq fun i hi => ?_
      rw [getLsbD_wordOf]
      simp
    rw [hzero, BitVec.xor_zero]
    rfl
  | cons bit bits ih =>
    have hfits : bits.length < w := hlength
    have htop : (wordOf bits : BitVec w).getLsbD (w - 1) = false := by
      rw [getLsbD_wordOf, List.getD_eq_getElem?_getD, List.getElem?_eq_none (by omega)]
      exact Bool.and_false _
    calc (bit :: bits).foldl (feed poly) c
        = (shift poly)^[bits.length] (shift poly (c ^^^ bitWord bit) ^^^ wordOf bits) := ih (Nat.le_of_lt hfits) _
      _ = (shift poly)^[bits.length] (shift poly (c ^^^ wordOf (bit :: bits))) := by
          rw [wordOf_cons, ← BitVec.xor_assoc, shift_xor (c ^^^ bitWord bit), shift_shiftLeft htop]
      _ = (shift poly)^[(bit :: bits).length] (c ^^^ wordOf (bit :: bits)) := rfl

/-- The low bits of a register are shifted out, and the others move down. -/
theorem shifts_eq {n : ℕ} {c low : BitVec w} (h : ∀ i < n, low.getLsbD i = c.getLsbD i)
    (hlow : low >>> n = 0#w) : (shift poly)^[n] c = (shift poly)^[n] low ^^^ c >>> n := by
  have hsplit : c = low ^^^ (c ^^^ low) := by
    rw [BitVec.xor_comm c, ← BitVec.xor_assoc, BitVec.xor_self, BitVec.zero_xor]
  have hclear : ∀ i < n, (c ^^^ low).getLsbD i = false := by
    intro i hi
    rw [BitVec.getLsbD_xor, h i hi, Bool.xor_self]
  calc (shift poly)^[n] c = (shift poly)^[n] (low ^^^ (c ^^^ low)) := by rw [← hsplit]
    _ = (shift poly)^[n] low ^^^ (c ^^^ low) >>> n := by rw [shifts_xor, shifts_of_clear hclear]
    _ = (shift poly)^[n] low ^^^ c >>> n := by
        rw [BitVec.ushiftRight_xor_distrib, hlow, BitVec.xor_zero]

end ShiftRegister

end FastEcu.Data
