import Mathlib.Data.List.Nodup

/-!
# Tallies

The values at a list of places, taken together by a commutative operation: a sum, or an XOR.

* `tally_congr` : a tally depends on the values at its places only.
* `tally_flatMap` : a tally that is taken group by group.
* `tally_update` : how a tally changes when the value at one of its places does.
-/

namespace FastEcu.Data

variable {α β : Type*} (op : α → α → α) (e : α)

/-- The values at the places, taken together. -/
def tally (value : β → α) (places : List β) : α :=
  places.foldr (fun p a => op (value p) a) e

variable {op e} {value value' : β → α} {places : List β}

@[simp]
theorem tally_nil : tally op e value [] = e := rfl

@[simp]
theorem tally_cons (p : β) : tally op e value (p :: places) = op (value p) (tally op e value places) :=
  rfl

theorem tally_congr (h : ∀ p ∈ places, value' p = value p) :
    tally op e value' places = tally op e value places := by
  induction places with
  | nil => rfl
  | cons p places ih =>
    rw [tally_cons, tally_cons, h p (List.mem_cons_self ..),
      ih fun q hq => h q (List.mem_cons_of_mem _ hq)]

section Assoc

variable [Std.Associative op]

theorem tally_append [Std.LawfulLeftIdentity op e] (places' : List β) :
    tally op e value (places ++ places') =
      op (tally op e value places) (tally op e value places') := by
  induction places with
  | nil => exact (Std.LawfulLeftIdentity.left_id _).symm
  | cons p places ih =>
    rw [List.cons_append, tally_cons, tally_cons, ih]
    exact (Std.Associative.assoc (value p) _ _).symm

/-- A tally that is taken group by group. -/
theorem tally_flatMap [Std.LawfulLeftIdentity op e] {γ : Type*} (groups : List γ) (f : γ → List β) :
    tally op e value (groups.flatMap f) = tally op e (fun g => tally op e value (f g)) groups := by
  induction groups with
  | nil => rfl
  | cons g groups ih => rw [List.flatMap_cons, tally_append, tally_cons, ih]

/-- A loop that adds the values to an accumulator. -/
theorem foldl_eq_op_tally [Std.LawfulRightIdentity op e] (places : List β) (a : α) :
    places.foldl (fun a p => op a (value p)) a = op a (tally op e value places) := by
  induction places generalizing a with
  | nil => exact (Std.LawfulRightIdentity.right_id a).symm
  | cons p places ih =>
    rw [List.foldl_cons, ih, tally_cons]
    exact Std.Associative.assoc a (value p) _

end Assoc

section Comm

variable [Std.Commutative op] [Std.Associative op]

theorem op_left_comm (a b c : α) : op a (op b c) = op b (op a c) := by
  have hab : op (op a b) c = op a (op b c) := Std.Associative.assoc a b c
  have hba : op (op b a) c = op b (op a c) := Std.Associative.assoc b a c
  rw [← hab, ← hba, show op a b = op b a from Std.Commutative.comm a b]

/-- **A new value at one place takes the old one out of the tally.** -/
theorem tally_update (hnodup : places.Nodup) {p : β} (hmem : p ∈ places)
    (h : ∀ q ∈ places, q ≠ p → value' q = value q) :
    op (value p) (tally op e value' places) = op (value' p) (tally op e value places) := by
  induction places with
  | nil => exact absurd hmem List.not_mem_nil
  | cons q places ih =>
    obtain ⟨hq, hrest⟩ := List.nodup_cons.1 hnodup
    rw [tally_cons, tally_cons]
    by_cases hqp : q = p
    · -- the place is the first one, and the others keep their values
      subst hqp
      have hothers : tally op e value' places = tally op e value places := by
        refine tally_congr fun r hr => h r (List.mem_cons_of_mem _ hr) ?_
        rintro rfl
        exact hq hr
      rw [hothers]
      exact op_left_comm (value q) (value' q) _
    · have hp : p ∈ places := (List.mem_cons.1 hmem).resolve_left fun hpq => hqp hpq.symm
      have hih := ih hrest hp fun r hr => h r (List.mem_cons_of_mem _ hr)
      rw [h q (List.mem_cons_self ..) hqp]
      calc op (value p) (op (value q) (tally op e value' places))
          = op (value q) (op (value p) (tally op e value' places)) := op_left_comm _ _ _
        _ = op (value q) (op (value' p) (tally op e value places)) := by rw [hih]
        _ = op (value' p) (op (value q) (tally op e value places)) := op_left_comm _ _ _

/-- New values at two places. -/
theorem tally_update_two [DecidableEq β] (hnodup : places.Nodup) {p q : β} (hp : p ∈ places)
    (hq : q ∈ places) (hne : q ≠ p) (h : ∀ r ∈ places, r ≠ p → r ≠ q → value' r = value r) :
    op (value p) (op (value q) (tally op e value' places)) =
      op (value' p) (op (value' q) (tally op e value places)) := by
  -- the first place has its new value, the second one still the old
  obtain ⟨middle, hmiddle⟩ : ∃ middle, middle = Function.update value p (value' p) := ⟨_, rfl⟩
  have hmiddle_p : middle p = value' p := by rw [hmiddle, Function.update_self]
  have hmiddle_ne : ∀ r, r ≠ p → middle r = value r := fun r hr => by
    rw [hmiddle, Function.update_of_ne hr]
  have hfirst : op (value p) (tally op e middle places) = op (middle p) (tally op e value places) :=
    tally_update hnodup hp fun r _ hr => hmiddle_ne r hr
  have hsecond : op (middle q) (tally op e value' places) = op (value' q) (tally op e middle places) := by
    refine tally_update hnodup hq fun r hr hrq => ?_
    by_cases hrp : r = p
    · rw [hrp, hmiddle_p]
    · rw [hmiddle_ne r hrp, h r hr hrp hrq]
  rw [hmiddle_ne q hne] at hsecond
  rw [hmiddle_p] at hfirst
  calc op (value p) (op (value q) (tally op e value' places))
      = op (value p) (op (value' q) (tally op e middle places)) := by rw [hsecond]
    _ = op (value' q) (op (value p) (tally op e middle places)) := op_left_comm _ _ _
    _ = op (value' q) (op (value' p) (tally op e value places)) := by rw [hfirst]
    _ = op (value' p) (op (value' q) (tally op e value places)) := op_left_comm _ _ _

end Comm

/-- A tally of nothing but the neutral value. -/
theorem tally_eq_self (hop : op e e = e) (h : ∀ p ∈ places, value p = e) :
    tally op e value places = e := by
  induction places with
  | nil => rfl
  | cons p places ih =>
    rw [tally_cons, h p (List.mem_cons_self ..), ih fun q hq => h q (List.mem_cons_of_mem _ hq), hop]

end FastEcu.Data
