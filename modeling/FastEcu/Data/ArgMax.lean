import Mathlib.Data.List.Basic
import Mathlib.Data.List.Range
import Mathlib.Order.Lattice
import Mathlib.Order.Nat

/-!
# Searches for a largest value

A loop over the numbers below `n` that keeps the place of the largest value so far.  A loop that
replaces on equal values ends with the last such place, a loop that does not with the first.

* `lastMax_spec` : the loop that replaces on equal values.
* `firstMax_spec` : the loop that keeps on equal values.
-/

namespace FastEcu.Data

variable {β : Type*} [LinearOrder β] (value : ℕ → β)

/-- The last place of the largest value below `n`. -/
def lastMax (n : ℕ) : ℕ :=
  (List.range n).foldl (fun best i => if value best ≤ value i then i else best) 0

/-- The first place of the largest value below `n`. -/
def firstMax (n : ℕ) : ℕ :=
  (List.range n).foldl (fun best i => if value best < value i then i else best) 0

@[simp] theorem lastMax_zero : lastMax value 0 = 0 := rfl

@[simp] theorem firstMax_zero : firstMax value 0 = 0 := rfl

theorem lastMax_succ (n : ℕ) : lastMax value (n + 1) =
    if value (lastMax value n) ≤ value n then n else lastMax value n := by
  rw [lastMax, List.range_succ, List.foldl_append, List.foldl_cons, List.foldl_nil, ← lastMax]

theorem firstMax_succ (n : ℕ) : firstMax value (n + 1) =
    if value (firstMax value n) < value n then n else firstMax value n := by
  rw [firstMax, List.range_succ, List.foldl_append, List.foldl_cons, List.foldl_nil, ← firstMax]

/-- **The search that replaces on equal values ends at the last largest one.** -/
theorem lastMax_spec {n : ℕ} (hn : 0 < n) : lastMax value n < n ∧ ∀ i < n,
    value i ≤ value (lastMax value n) ∧ (value i = value (lastMax value n) → i ≤ lastMax value n) := by
  induction n with
  | zero => exact absurd hn (lt_irrefl 0)
  | succ n ih =>
    rw [lastMax_succ]
    split_ifs with hle
    · refine ⟨n.lt_succ_self, fun i hi => ⟨?_, fun _ => Nat.lt_succ_iff.1 hi⟩⟩
      obtain hlt | rfl := Nat.lt_succ_iff_lt_or_eq.1 hi
      · exact ((ih (Nat.zero_lt_of_lt hlt)).2 i hlt).1.trans hle
      · exact le_rfl
    · -- the new value is smaller, so there was an old one
      have hpos : 0 < n := by
        refine Nat.pos_of_ne_zero fun hzero => hle ?_
        rw [hzero, lastMax_zero]
      obtain ⟨hlt, hall⟩ := ih hpos
      refine ⟨hlt.trans n.lt_succ_self, fun i hi => ?_⟩
      obtain hi | rfl := Nat.lt_succ_iff_lt_or_eq.1 hi
      · exact hall i hi
      · exact ⟨(not_le.1 hle).le, fun heq => absurd heq.ge hle⟩

/-- **The search that keeps on equal values ends at the first largest one.** -/
theorem firstMax_spec {n : ℕ} (hn : 0 < n) : firstMax value n < n ∧ ∀ i < n,
    value i ≤ value (firstMax value n) ∧
      (value i = value (firstMax value n) → firstMax value n ≤ i) := by
  induction n with
  | zero => exact absurd hn (lt_irrefl 0)
  | succ n ih =>
    rw [firstMax_succ]
    obtain rfl | hpos := Nat.eq_zero_or_pos n
    · rw [firstMax_zero, ite_self]
      exact ⟨Nat.zero_lt_one, fun i hi => ⟨by rw [Nat.lt_one_iff.1 hi], fun _ => Nat.zero_le i⟩⟩
    · obtain ⟨hlt, hall⟩ := ih hpos
      split_ifs with hgt
      · refine ⟨n.lt_succ_self, fun i hi => ?_⟩
        obtain hi | rfl := Nat.lt_succ_iff_lt_or_eq.1 hi
        · exact ⟨(hall i hi).1.trans hgt.le,
            fun heq => absurd ((hall i hi).1.trans_lt hgt) (heq ▸ lt_irrefl _)⟩
        · exact ⟨le_rfl, fun _ => le_rfl⟩
      · refine ⟨hlt.trans n.lt_succ_self, fun i hi => ?_⟩
        obtain hi | rfl := Nat.lt_succ_iff_lt_or_eq.1 hi
        · exact hall i hi
        · exact ⟨not_lt.1 hgt, fun _ => hlt.le⟩

end FastEcu.Data
