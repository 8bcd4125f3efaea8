import Mathlib.Data.List.Basic
import Mathlib.Data.Prod.Basic

/-!
# Feistel networks

A round keeps one half of a block and mixes a keyed function of it into the other half.  Whatever
the function is, a network is undone by the same network with its keys in reverse order, as long as
mixing the same value in twice gives the old half back.

* `feistel` : the rounds of a list of keys, then the swap of the halves;
* `feistel_reverse` : reversing the keys inverts the network.
-/

namespace FastEcu

variable {α κ : Type*} (mix : α → α → α) (f : κ → α → α)

/-- One round on the halves `(hi, lo)`. -/
def feistelRound (s : α × α) (k : κ) : α × α := (s.2, mix (f k s.2) s.1)

/-- The rounds of the keys, from the first to the last. -/
def feistelRounds (keys : List κ) (s : α × α) : α × α := keys.foldl (feistelRound mix f) s

/-- The rounds of the keys, then the swap of the halves. -/
def feistel (keys : List κ) (s : α × α) : α × α := (feistelRounds mix f keys s).swap

variable {mix f}

/-- A round undoes itself on the swapped halves. -/
theorem feistelRound_swap (hmix : ∀ a b, mix a (mix a b) = b) (s : α × α) (k : κ) :
    feistelRound mix f (feistelRound mix f s k).swap k = s.swap := by
  obtain ⟨l, r⟩ := s
  simp only [feistelRound, Prod.swap_prod_mk, hmix]

theorem feistelRounds_reverse (hmix : ∀ a b, mix a (mix a b) = b) (keys : List κ) (s : α × α) :
    feistelRounds mix f keys.reverse (feistelRounds mix f keys s).swap = s.swap := by
  induction keys generalizing s with
  | nil => rfl
  | cons k keys ih =>
    -- the first key comes last in the reversed list, when all the other rounds are undone
    have hlast : feistelRounds mix f (k :: keys).reverse (feistelRounds mix f (k :: keys) s).swap =
        feistelRound mix f (feistelRounds mix f keys.reverse
          (feistelRounds mix f keys (feistelRound mix f s k)).swap) k := by
      simp only [feistelRounds, List.reverse_cons, List.foldl_append, List.foldl_cons,
        List.foldl_nil]
    rw [hlast, ih, feistelRound_swap hmix]

/-- **Reversing the keys inverts the network.** -/
theorem feistel_reverse (hmix : ∀ a b, mix a (mix a b) = b) (keys : List κ) (s : α × α) :
    feistel mix f keys.reverse (feistel mix f keys s) = s := by
  rw [feistel, feistel, feistelRounds_reverse hmix, Prod.swap_swap]

end FastEcu
