import Mathlib.Data.List.Infix

/-!
# Counting a pattern

The places of a list at which a pattern begins.

* `occurrences` : their number.
* `occurrences_append_le`, `occurrences_append` : two lists in a row.
* `occurrences_le_of_isInfix` : a part of a list.
-/

namespace FastEcu.Data

variable {α : Type*} [DecidableEq α] {pattern : List α}

/-- The number of places at which the pattern begins. -/
def occurrences (pattern : List α) : List α → ℕ
  | [] => 0
  | a :: l => (if pattern <+: a :: l then 1 else 0) + occurrences pattern l

theorem occurrences_cons_of_isPrefix {a : α} {l : List α} (h : pattern <+: a :: l) :
    occurrences pattern (a :: l) = occurrences pattern l + 1 := by
  rw [occurrences, if_pos h, Nat.add_comm]

/-- Nothing is shorter than the pattern and has it. -/
theorem occurrences_of_lt {l : List α} (h : l.length < pattern.length) :
    occurrences pattern l = 0 := by
  induction l with
  | nil => rfl
  | cons a l ih =>
    rw [occurrences, if_neg, ih (Nat.lt_of_succ_lt h)]
    exact fun hpre => absurd hpre.length_le (Nat.not_le.2 h)

theorem occurrences_append_le (l l' : List α) :
    occurrences pattern l + occurrences pattern l' ≤ occurrences pattern (l ++ l') := by
  induction l with
  | nil => simp [occurrences]
  | cons a l ih =>
    rw [List.cons_append, occurrences, occurrences]
    by_cases hpre : pattern <+: a :: l
    · rw [if_pos hpre, if_pos (hpre.trans ⟨l', by simp⟩)]
      omega
    · rw [if_neg hpre]
      omega

/-- A pattern does not reach into a list whose first element it only begins with. -/
theorem occurrences_append {l l' : List α} (h : ∀ a ∈ l'.head?, a ∉ pattern.tail) :
    occurrences pattern (l ++ l') = occurrences pattern l + occurrences pattern l' := by
  induction l with
  | nil => simp [occurrences]
  | cons a l ih =>
    rw [List.cons_append, occurrences, occurrences, ih]
    have hiff : pattern <+: a :: (l ++ l') ↔ pattern <+: a :: l := by
      constructor
      · intro hpre
        by_contra hnot
        -- the pattern is longer than `a :: l`, so it goes on with the first element of `l'`
        have hlt : (a :: l).length < pattern.length := by
          by_contra hle
          exact hnot (List.prefix_of_prefix_length_le hpre (List.prefix_append (a :: l) l')
            (Nat.le_of_not_lt hle))
        obtain ⟨rest, hrest⟩ : a :: l <+: pattern :=
          List.prefix_of_prefix_length_le (List.prefix_append (a :: l) l') hpre hlt.le
        cases rest with
        | nil =>
          rw [List.append_nil] at hrest
          rw [hrest] at hlt
          exact Nat.lt_irrefl _ hlt
        | cons b rest =>
          rw [← hrest, ← List.cons_append, List.prefix_append_right_inj] at hpre
          obtain ⟨after, rfl⟩ := hpre
          refine h b rfl ?_
          rw [← hrest]
          simp
      · exact fun hpre => hpre.trans ⟨l', by simp⟩
    by_cases hpre : pattern <+: a :: l
    · rw [if_pos hpre, if_pos (hiff.2 hpre)]
      omega
    · rw [if_neg hpre, if_neg (fun h => hpre (hiff.1 h))]
      omega

theorem occurrences_le_of_isInfix {l l' : List α} (h : l <:+: l') :
    occurrences pattern l ≤ occurrences pattern l' := by
  obtain ⟨before, after, rfl⟩ := h
  calc occurrences pattern l
      ≤ occurrences pattern before + occurrences pattern l := Nat.le_add_left _ _
    _ ≤ occurrences pattern (before ++ l) := occurrences_append_le _ _
    _ ≤ occurrences pattern (before ++ l) + occurrences pattern after := Nat.le_add_right _ _
    _ ≤ occurrences pattern (before ++ l ++ after) := occurrences_append_le _ _

end FastEcu.Data
