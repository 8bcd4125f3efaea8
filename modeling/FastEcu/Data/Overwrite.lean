import Mathlib.Data.List.Basic
import Mathlib.Data.Set.Function

/-!
# Overwriting a stretch of a list

`overwrite l off xs` is the list `l` with the elements from position `off` on replaced by `xs`:
what copying `xs` into a buffer at an offset leaves there.  Everything is stated through
`getElem?`, so that a chain of overwrites is reasoned about one position at a time.

* `getElem?_overwrite` : a position reads the new element inside the stretch, the old one outside;
* `length_overwrite` : an overwrite that fits keeps the length;
* `overwriteAll` : a list of writes, applied from left to right.  If every write agrees with one
  function `f` of the position, the order of the writes and their overlaps do not matter: a
  covered position reads `f` (`getElem?_overwriteAll_of_covered`), every other position is
  unchanged (`getElem?_overwriteAll_of_not_covered`).
-/

namespace FastEcu

variable {α : Type*}

/-- `l` with the elements from position `off` on replaced by `xs`. -/
def overwrite (l : List α) (off : ℕ) (xs : List α) : List α :=
  l.take off ++ xs ++ l.drop (off + xs.length)

@[simp] theorem overwrite_nil (l : List α) (off : ℕ) : overwrite l off [] = l := by
  simp [overwrite]

@[simp] theorem length_overwrite {l : List α} {off : ℕ} {xs : List α}
    (h : off + xs.length ≤ l.length) : (overwrite l off xs).length = l.length := by
  simp only [overwrite, List.length_append, List.length_take, List.length_drop]
  omega

theorem getElem?_overwrite {l : List α} {off : ℕ} {xs : List α} (h : off + xs.length ≤ l.length)
    (i : ℕ) : (overwrite l off xs)[i]? =
      if off ≤ i ∧ i < off + xs.length then xs[i - off]? else l[i]? := by
  have ht : (l.take off).length = off := by rw [List.length_take]; omega
  have hx : (l.take off ++ xs).length = off + xs.length := by rw [List.length_append, ht]
  rw [overwrite]
  by_cases hi : i < off + xs.length
  · rw [List.getElem?_append_left (by omega)]
    by_cases ho : off ≤ i
    · rw [List.getElem?_append_right (by omega), ht, if_pos ⟨ho, hi⟩]
    · rw [List.getElem?_append_left (by omega), if_neg (by omega),
        List.getElem?_take_of_lt (by omega)]
  · rw [List.getElem?_append_right (by omega), hx, if_neg (by omega), List.getElem?_drop]
    congr 1
    omega

/-- Positions outside the stretch keep their element. -/
theorem getElem?_overwrite_of_notMem {l : List α} {off : ℕ} {xs : List α}
    (h : off + xs.length ≤ l.length) {i : ℕ} (hi : i < off ∨ off + xs.length ≤ i) :
    (overwrite l off xs)[i]? = l[i]? := by
  rw [getElem?_overwrite h, if_neg (by omega)]

/-- Positions inside the stretch read the new element. -/
theorem getElem?_overwrite_add {l : List α} {off : ℕ} {xs : List α}
    (h : off + xs.length ≤ l.length) {i : ℕ} (hi : i < xs.length) :
    (overwrite l off xs)[off + i]? = xs[i]? := by
  rw [getElem?_overwrite h, if_pos (by omega)]
  congr 1
  omega

/-- Overwriting a stretch with what it already holds changes nothing. -/
theorem overwrite_eq_self {l : List α} {off : ℕ} {xs : List α} (h : off + xs.length ≤ l.length)
    (hxs : ∀ i < xs.length, xs[i]? = l[off + i]?) : overwrite l off xs = l := by
  apply List.ext_getElem?
  intro i
  rw [getElem?_overwrite h]
  split_ifs with hi
  · rw [hxs (i - off) (by omega)]
    congr 1
    omega
  · rfl

/-! ### A list of writes -/

/-- The writes `ws`, each a position and its elements, applied from left to right. -/
def overwriteAll (l : List α) (ws : List (ℕ × List α)) : List α :=
  ws.foldl (fun l w => overwrite l w.1 w.2) l

/-- Every write of `ws` fits in a list of length `n`. -/
def Fits (n : ℕ) (ws : List (ℕ × List α)) : Prop := ∀ w ∈ ws, w.1 + w.2.length ≤ n

/-- Some write of `ws` covers position `i`. -/
def Covered (ws : List (ℕ × List α)) (i : ℕ) : Prop :=
  ∃ w ∈ ws, w.1 ≤ i ∧ i < w.1 + w.2.length

/-- Every write of `ws` writes what `f` says at each position it covers. -/
def Agrees (f : ℕ → Option α) (ws : List (ℕ × List α)) : Prop :=
  ∀ w ∈ ws, ∀ i < w.2.length, w.2[i]? = f (w.1 + i)

@[simp] theorem overwriteAll_nil (l : List α) : overwriteAll l [] = l := rfl

@[simp] theorem overwriteAll_cons (l : List α) (w : ℕ × List α) (ws : List (ℕ × List α)) :
    overwriteAll l (w :: ws) = overwriteAll (overwrite l w.1 w.2) ws := rfl

@[simp] theorem fits_cons {n : ℕ} {w : ℕ × List α} {ws : List (ℕ × List α)} :
    Fits n (w :: ws) ↔ w.1 + w.2.length ≤ n ∧ Fits n ws := by
  simp [Fits]

theorem covered_cons {w : ℕ × List α} {ws : List (ℕ × List α)} {i : ℕ} :
    Covered (w :: ws) i ↔ (w.1 ≤ i ∧ i < w.1 + w.2.length) ∨ Covered ws i := by
  simp [Covered]

theorem agrees_cons {f : ℕ → Option α} {w : ℕ × List α} {ws : List (ℕ × List α)} :
    Agrees f (w :: ws) ↔ (∀ i < w.2.length, w.2[i]? = f (w.1 + i)) ∧ Agrees f ws := by
  simp [Agrees]

theorem length_overwriteAll {l : List α} {ws : List (ℕ × List α)} (h : Fits l.length ws) :
    (overwriteAll l ws).length = l.length := by
  induction ws generalizing l with
  | nil => rfl
  | cons w ws ih =>
    obtain ⟨hw, hws⟩ := fits_cons.1 h
    have hlen := length_overwrite hw
    rw [overwriteAll_cons, ih (by rwa [hlen]), hlen]

/-- The frame rule: a position that no write covers is unchanged. -/
theorem getElem?_overwriteAll_of_not_covered {l : List α} {ws : List (ℕ × List α)}
    (h : Fits l.length ws) {i : ℕ} (hi : ¬ Covered ws i) :
    (overwriteAll l ws)[i]? = l[i]? := by
  induction ws generalizing l with
  | nil => rfl
  | cons w ws ih =>
    obtain ⟨hw, hws⟩ := fits_cons.1 h
    rw [covered_cons, not_or] at hi
    rw [overwriteAll_cons, ih (by rwa [length_overwrite hw]) hi.2]
    exact getElem?_overwrite_of_notMem hw (by omega)

/-- The read rule: a covered position reads what all the writes agree on. -/
theorem getElem?_overwriteAll_of_covered {l : List α} {ws : List (ℕ × List α)}
    {f : ℕ → Option α} (h : Fits l.length ws) (hf : Agrees f ws) {i : ℕ} (hi : Covered ws i) :
    (overwriteAll l ws)[i]? = f i := by
  induction ws generalizing l with
  | nil => obtain ⟨_, hm, _⟩ := hi; cases hm
  | cons w ws ih =>
    obtain ⟨hw, hws⟩ := fits_cons.1 h
    obtain ⟨hfw, hfws⟩ := agrees_cons.1 hf
    have hfit : Fits (overwrite l w.1 w.2).length ws := by rwa [length_overwrite hw]
    rw [overwriteAll_cons]
    by_cases hc : Covered ws i
    · exact ih hfit hfws hc
    · -- only the first write covers `i`, and no later one touches it again
      have hwi := (covered_cons.1 hi).resolve_right hc
      rw [getElem?_overwriteAll_of_not_covered hfit hc, getElem?_overwrite hw, if_pos hwi,
        hfw (i - w.1) (by omega)]
      congr 1
      omega

end FastEcu
