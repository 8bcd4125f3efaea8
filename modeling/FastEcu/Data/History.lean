import Mathlib.Data.List.Basic

/-!
# What happened before

A property of a list of events that says, of each event, what may have happened before it.

* `Each` : the property holds of every event and the events before it.
* `Since` : the property holds of every event and the events after it.
* `Seen` : the property holds of some event and the events before it.
* `splits_of_each` : what follows each part of the list, the end of the list included.
-/

namespace FastEcu.Data

variable {α : Type*} {P Q : List α → α → Prop} {l : List α}

/-- The property holds of every element and the elements before it. -/
def Each (P : List α → α → Prop) (l : List α) : Prop :=
  ∀ before a after, l = before ++ a :: after → P before a

theorem Each.nil : Each P [] := by
  intro before a after h
  simp at h

theorem each_concat {a : α} : Each P (l ++ [a]) ↔ Each P l ∧ P l a := by
  constructor
  · intro h
    refine ⟨?_, h l a [] rfl⟩
    intro before b after hl
    exact h before b (after ++ [a]) (by simp [hl])
  · rintro ⟨h, ha⟩ before b after hb
    rcases List.eq_nil_or_concat after with rfl | ⟨after, c, rfl⟩
    · -- `b` is the new element
      obtain ⟨rfl, hab⟩ := List.append_inj' hb rfl
      cases hab
      exact ha
    · have hl : l ++ [a] = (before ++ b :: after) ++ [c] := by simpa using hb
      obtain ⟨rfl, -⟩ := List.append_inj' hl rfl
      exact h before b after rfl

theorem Each.concat {a : α} (h : Each P l) (ha : P l a) : Each P (l ++ [a]) := each_concat.2 ⟨h, ha⟩

theorem Each.mono (h : Each P l) (hPQ : ∀ before a, P before a → Q before a) : Each Q l :=
  fun before a after hl => hPQ before a (h before a after hl)

theorem Each.of_append {l' : List α} (h : Each P (l ++ l')) : Each P l := by
  intro before a after hl
  exact h before a (after ++ l') (by simp [hl])

/-- The property holds of every element and the elements after it. -/
def Since (R : α → List α → Prop) (l : List α) : Prop :=
  ∀ before a after, l = before ++ a :: after → R a after

theorem Since.concat {R : α → List α → Prop} {a : α}
    (h : Since (fun b after => R b (after ++ [a])) l) (ha : R a []) : Since R (l ++ [a]) := by
  intro before b after hb
  rcases List.eq_nil_or_concat after with rfl | ⟨after, c, rfl⟩
  · obtain ⟨rfl, hab⟩ := List.append_inj' hb rfl
    cases hab
    exact ha
  · have hl : l ++ [a] = (before ++ b :: after) ++ [c] := by simpa using hb
    obtain ⟨rfl, hac⟩ := List.append_inj' hl rfl
    cases hac
    rw [List.concat_eq_append]
    exact h before b after rfl

theorem Since.nil {R : α → List α → Prop} : Since R [] := by
  intro before a after h
  simp at h

theorem Since.mono {R S : α → List α → Prop} (h : Since R l) (hRS : ∀ a after, R a after → S a after) :
    Since S l :=
  fun before a after hl => hRS a after (h before a after hl)

/-- The property holds of some element and the elements before it. -/
def Seen (P : List α → α → Prop) (l : List α) : Prop :=
  ∃ before a after, l = before ++ a :: after ∧ P before a

theorem Seen.append (h : Seen P l) (l' : List α) : Seen P (l ++ l') := by
  obtain ⟨before, a, after, rfl, hP⟩ := h
  exact ⟨before, a, after ++ l', by simp, hP⟩

theorem Seen.last {a : α} (h : P l a) : Seen P (l ++ [a]) := ⟨l, a, [], rfl, h⟩

/-- A property of each element and of the end is one of everything that follows a part. -/
theorem splits_of_each {R : List α → Option α → Prop}
    (h : Each (fun before a => R before (some a)) l) (hend : R l none) (before after : List α)
    (hl : l = before ++ after) : R before after.head? := by
  cases after with
  | nil =>
    rw [List.append_nil] at hl
    rw [← hl]
    exact hend
  | cons a after => exact h before a after hl

end FastEcu.Data
