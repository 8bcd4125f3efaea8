import Mathlib.Data.BitVec
import Mathlib.Logic.Function.Basic

/-!
# Words whose bits change places, and rounds that are undone

A keyed permutation of words is made of rounds, and a round of steps that can be undone.  Two facts
are all it takes: a step that moves the bits of a word along an involution undoes itself, and the
rounds of a list of keys are undone by the inverse rounds of the reversed list.

* `MovesBits` : bit `i` of the image is bit `source i` of the word;
* `MovesBits.involutive` : such a step undoes itself if `source` does;
* `rounds` : the rounds of a list of keys;
* `rounds_reverse` : the inverse rounds, in reverse order, undo the rounds.
-/

namespace FastEcu

/-! ### Bits that change places -/

section Bits

variable {w : ℕ} {move : BitVec w → BitVec w} {source : ℕ → ℕ}

/-- Bit `i` of the image of a word is bit `source i` of the word. -/
def MovesBits (move : BitVec w → BitVec w) (source : ℕ → ℕ) : Prop :=
  ∀ x, ∀ i < w, (move x).getLsbD i = x.getLsbD (source i)

/-- Bits that change places in pairs are back after a second time. -/
theorem MovesBits.involutive (h : MovesBits move source)
    (hsource : ∀ i < w, source i < w ∧ source (source i) = i) : Function.Involutive move := by
  intro x
  apply BitVec.eq_of_getLsbD_eq
  intro i hi
  obtain ⟨hlt, hback⟩ := hsource i hi
  rw [h _ i hi, h _ _ hlt, hback]

end Bits

/-! ### Rounds -/

section Rounds

variable {α κ : Type*} {round inverse : κ → α → α}

/-- The rounds of the keys, from the first to the last. -/
def rounds (round : κ → α → α) (keys : List κ) (x : α) : α := keys.foldl (fun x k => round k x) x

theorem rounds_append (round : κ → α → α) (keys keys' : List κ) (x : α) :
    rounds round (keys ++ keys') x = rounds round keys' (rounds round keys x) := by
  rw [rounds, rounds, rounds, List.foldl_append]

/-- **Inverse rounds in reverse order undo the rounds.** -/
theorem rounds_reverse (h : ∀ k, Function.LeftInverse (inverse k) (round k)) (keys : List κ) :
    Function.LeftInverse (rounds inverse keys.reverse) (rounds round keys) := by
  induction keys with
  | nil =>
    intro x
    rfl
  | cons k keys ih =>
    intro x
    -- the first round is the last to be undone
    have hfirst : rounds round (k :: keys) x = rounds round keys (round k x) := rfl
    rw [hfirst, List.reverse_cons, rounds_append, ih]
    exact h k x

end Rounds

end FastEcu
