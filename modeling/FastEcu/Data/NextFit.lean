import Mathlib.Algebra.BigOperators.Group.List.Basic
import Mathlib.Algebra.GroupWithZero.Nat

/-!
# Cutting a list into bins

A list is cut into bins in its order: an item goes into the bin that is open if there is still room, and
opens a bin otherwise.

* `load` : what the items of a bin weigh together.
* `nextFit` : the cut, from an open bin.
* `flatten_nextFit`, `load_le_of_mem_nextFit`, `ne_nil_of_mem_nextFit` : the bins hold the list in its
  order, none of them weighs too much and none is empty.
* `length_nextFit_le` : no cut of the list needs fewer bins.
-/

namespace FastEcu.Data

variable {α : Type*} (weight : α → ℕ) (capacity : ℕ)

/-- What the items of a bin weigh together. -/
def load (bin : List α) : ℕ := (bin.map weight).sum

/-- The bins of a list, from the bin that is open. -/
def nextFit : List α → List α → List (List α)
  | bin, [] => [bin]
  | bin, a :: l =>
    if load weight bin + weight a ≤ capacity then nextFit (bin ++ [a]) l else bin :: nextFit [a] l

variable {weight capacity} {bin bin' l l' : List α}

@[simp]
theorem load_nil : load weight [] = 0 := rfl

@[simp]
theorem load_singleton (a : α) : load weight [a] = weight a := by simp [load]

@[simp]
theorem load_append (l l' : List α) : load weight (l ++ l') = load weight l + load weight l' := by
  simp [load]

theorem load_cons (a : α) (l : List α) : load weight (a :: l) = weight a + load weight l := by
  simp [load]

theorem nextFit_cons_of_le {a : α} (h : load weight bin + weight a ≤ capacity) :
    nextFit weight capacity bin (a :: l) = nextFit weight capacity (bin ++ [a]) l := if_pos h

theorem nextFit_cons_of_lt {a : α} (h : capacity < load weight bin + weight a) :
    nextFit weight capacity bin (a :: l) = bin :: nextFit weight capacity [a] l := if_neg (Nat.not_le.2 h)

/-- The bins hold the list in its order. -/
theorem flatten_nextFit (bin l : List α) : (nextFit weight capacity bin l).flatten = bin ++ l := by
  fun_induction nextFit weight capacity bin l with
  | case1 bin => simp
  | case2 bin a l hroom ih => rw [ih, List.append_assoc, List.singleton_append]
  | case3 bin a l hfull ih => rw [List.flatten_cons, ih, List.singleton_append]

/-- No bin weighs too much, if no item does. -/
theorem load_le_of_mem_nextFit (hbin : load weight bin ≤ capacity) (hl : ∀ a ∈ l, weight a ≤ capacity) :
    ∀ b ∈ nextFit weight capacity bin l, load weight b ≤ capacity := by
  fun_induction nextFit weight capacity bin l with
  | case1 bin =>
    intro b hb
    rw [List.mem_singleton.1 hb]
    exact hbin
  | case2 bin a l hroom ih =>
    refine ih ?_ fun b hb => hl b (List.mem_cons_of_mem _ hb)
    rw [load_append, load_singleton]
    exact hroom
  | case3 bin a l hfull ih =>
    have hnext := ih (by rw [load_singleton]; exact hl a (List.mem_cons_self ..))
      fun b hb => hl b (List.mem_cons_of_mem _ hb)
    intro b hb
    rcases List.mem_cons.1 hb with rfl | hb
    · exact hbin
    · exact hnext b hb

/-- No bin is empty, if the open one is not. -/
theorem ne_nil_of_mem_nextFit (hbin : bin ≠ []) : ∀ b ∈ nextFit weight capacity bin l, b ≠ [] := by
  fun_induction nextFit weight capacity bin l with
  | case1 bin =>
    intro b hb
    rw [List.mem_singleton.1 hb]
    exact hbin
  | case2 bin a l hroom ih => exact ih (by simp)
  | case3 bin a l hfull ih =>
    intro b hb
    rcases List.mem_cons.1 hb with rfl | hb
    · exact hbin
    · exact ih (by simp) b hb

/-- **The lighter bin stays ahead**: it never needs more bins, and at most one fewer. -/
theorem length_nextFit_mono (h : load weight bin ≤ load weight bin') :
    (nextFit weight capacity bin l).length ≤ (nextFit weight capacity bin' l).length ∧
      (nextFit weight capacity bin' l).length ≤ (nextFit weight capacity bin l).length + 1 := by
  induction l generalizing bin bin' with
  | nil => simp [nextFit]
  | cons a l ih =>
    rcases Nat.lt_or_ge capacity (load weight bin' + weight a) with hfull' | hroom'
    · rw [nextFit_cons_of_lt hfull', List.length_cons]
      rcases Nat.lt_or_ge capacity (load weight bin + weight a) with hfull | hroom
      · rw [nextFit_cons_of_lt hfull, List.length_cons]
        omega
      · -- only the lighter bin has room, and it is heavier than the new bin from here on
        rw [nextFit_cons_of_le hroom]
        have hnext := @ih [a] (bin ++ [a]) (by simp)
        omega
    · -- the item goes into both bins
      rw [nextFit_cons_of_le hroom', nextFit_cons_of_le (Nat.le_trans (Nat.add_le_add_right h _) hroom')]
      exact ih (by simp only [load_append, load_singleton]; omega)

/-- Items for which there is room go into the open bin. -/
theorem nextFit_append (h : load weight bin + load weight l ≤ capacity) :
    nextFit weight capacity bin (l ++ l') = nextFit weight capacity (bin ++ l) l' := by
  induction l generalizing bin with
  | nil => rw [List.nil_append, List.append_nil]
  | cons a l ih =>
    rw [load_cons] at h
    rw [List.cons_append, nextFit_cons_of_le (by omega), ih (by rw [load_append, load_singleton]; omega),
      List.append_assoc, List.singleton_append]

/-- **No cut needs fewer bins.** -/
theorem length_nextFit_le {bins : List (List α)} (hne : bins ≠ [])
    (hbins : ∀ b ∈ bins, load weight b ≤ capacity) :
    (nextFit weight capacity [] bins.flatten).length ≤ bins.length := by
  induction bins with
  | nil => exact absurd rfl hne
  | cons b bins ih =>
    have hb : load weight [] + load weight b ≤ capacity := by
      rw [load_nil, Nat.zero_add]
      exact hbins b (List.mem_cons_self ..)
    rw [List.flatten_cons, nextFit_append hb, List.nil_append, List.length_cons]
    by_cases hnil : bins = []
    · subst hnil
      simp [nextFit]
    · -- the bin of the other cut is at most one behind an empty one
      have hrest := ih hnil fun b hb => hbins b (List.mem_cons_of_mem _ hb)
      have hbehind := (@length_nextFit_mono _ weight capacity [] b bins.flatten (Nat.zero_le _)).2
      omega

end FastEcu.Data
