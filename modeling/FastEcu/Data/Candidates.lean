import Mathlib.Data.List.Sort

/-!
# Searching a list through candidates

A linear scan compares every element of a list with what is looked for.  A search through candidates
compares only some positions, in ascending order.  If no match is left out, both find the same.

* `matchPositions` : the positions that a linear scan finds.
* `filter_eq_matchPositions` : candidates in ascending order that leave out no match.
* `pairwise_eraseReps`, `mem_eraseReps` : sorted positions without repetitions are candidates.
-/

namespace FastEcu

variable {α : Type*}

/-! ### Linear scans -/

/-- The positions of the elements with the property, in order. -/
def matchPositions (p : α → Bool) (l : List α) : List ℕ :=
  (List.range l.length).filter fun i => l[i]?.any p

theorem mem_matchPositions {p : α → Bool} {l : List α} {i : ℕ} :
    i ∈ matchPositions p l ↔ l[i]?.any p = true := by
  rw [matchPositions, List.mem_filter, List.mem_range]
  refine ⟨fun h => h.2, fun h => ⟨?_, h⟩⟩
  by_contra hge
  rw [List.getElem?_eq_none (not_lt.1 hge)] at h
  cases h

theorem pairwise_matchPositions (p : α → Bool) (l : List α) :
    (matchPositions p l).Pairwise (· < ·) :=
  List.Pairwise.filter _ List.pairwise_lt_range

/-- **Candidates in ascending order** that leave out no match are as good as all positions. -/
theorem filter_eq_matchPositions {p : α → Bool} {l : List α} {candidates : List ℕ}
    (hsorted : candidates.Pairwise (· < ·)) (hall : ∀ i, l[i]?.any p = true → i ∈ candidates) :
    candidates.filter (fun i => l[i]?.any p) = matchPositions p l := by
  refine (hsorted.filter _).eq_of_mem_iff (pairwise_matchPositions p l) fun i => ?_
  rw [List.mem_filter, mem_matchPositions]
  exact ⟨fun h => h.2, fun h => ⟨hall i h, h⟩⟩

/-! ### Sorting and erasing repetitions -/

section Repetitions

variable [LinearOrder α]

/-- What the loop of `List.eraseReps` has behind it and the element it holds stay, in order. -/
theorem eraseReps_loop_spec (l acc : List α) (a : α)
    (hle : (a :: l).Pairwise (· ≤ ·)) (hlt : (acc.reverse ++ [a]).Pairwise (· < ·)) :
    (List.eraseRepsBy.loop (· == ·) a l acc).Pairwise (· < ·) ∧
      ∀ x, x ∈ List.eraseRepsBy.loop (· == ·) a l acc ↔ x ∈ acc ∨ x = a ∨ x ∈ l := by
  induction l generalizing a acc with
  | nil =>
    rw [List.eraseRepsBy.loop, List.reverse_cons]
    refine ⟨hlt, fun x => ?_⟩
    simp only [List.mem_append, List.mem_reverse, List.mem_singleton, List.not_mem_nil, or_false]
  | cons b l ih =>
    obtain ⟨hfirst, hrest⟩ := List.pairwise_cons.1 hle
    rw [List.eraseRepsBy.loop]
    cases heq : a == b with
    | true =>
      obtain rfl := eq_of_beq heq
      obtain ⟨hsorted, hmem⟩ := ih acc a hrest hlt
      refine ⟨hsorted, fun x => (hmem x).trans ?_⟩
      simp only [List.mem_cons, or_self_left]
    | false =>
      have hab : a < b := lt_of_le_of_ne (hfirst b (List.mem_cons_self ..)) fun h => by
        rw [h, beq_self_eq_true] at heq
        cases heq
      -- the new element is behind the one that was held
      have hlt' : ((a :: acc).reverse ++ [b]).Pairwise (· < ·) := by
        rw [List.reverse_cons, List.pairwise_append]
        refine ⟨hlt, List.pairwise_singleton _ _, fun x hx y hy => ?_⟩
        obtain rfl := List.mem_singleton.1 hy
        rcases List.mem_append.1 hx with hx | hx
        · exact ((List.pairwise_append.1 hlt).2.2 x hx a (List.mem_singleton_self a)).trans hab
        · rwa [List.mem_singleton.1 hx]
      obtain ⟨hsorted, hmem⟩ := ih (a :: acc) b hrest hlt'
      refine ⟨hsorted, fun x => (hmem x).trans ?_⟩
      simp only [List.mem_cons]
      tauto

theorem eraseReps_spec {l : List α} (h : l.Pairwise (· ≤ ·)) :
    l.eraseReps.Pairwise (· < ·) ∧ ∀ x, x ∈ l.eraseReps ↔ x ∈ l := by
  cases l with
  | nil => exact ⟨List.Pairwise.nil, fun _ => Iff.rfl⟩
  | cons a l =>
    obtain ⟨hsorted, hmem⟩ := eraseReps_loop_spec l [] a h (List.pairwise_singleton _ _)
    refine ⟨hsorted, fun x => (hmem x).trans ?_⟩
    simp only [List.not_mem_nil, false_or, List.mem_cons]

end Repetitions

end FastEcu
