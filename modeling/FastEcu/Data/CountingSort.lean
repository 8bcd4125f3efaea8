import Mathlib.Data.List.Basic
import Mathlib.Logic.Function.Basic
import Mathlib.Order.Basic
import Mathlib.Order.Nat

/-!
# Counting sort

The numbers below `n`, grouped by a key: count each key, add the counts up to the start of each
group, then put every number at the next free place of its group.  Arrays are functions and a store
is `Function.update`.

* `counts_apply` : the first pass counts the keys;
* `bucket_eq_filter` : a group holds the numbers with its key, each once and in order.
-/

namespace FastEcu.CountingSort

variable (key : ℕ → ℕ)

/-- The first pass: how often each key occurs below `n`. -/
def counts (n : ℕ) : ℕ → ℕ :=
  (List.range n).foldl (fun c v => Function.update c (key v) (c (key v) + 1)) fun _ => 0

/-- The start of each group, from the sizes of the groups. -/
def starts (sizes : ℕ → ℕ) : ℕ → ℕ
  | 0 => 0
  | o + 1 => starts sizes o + sizes o

/-- One turn of the last pass, on the next free places and the values. -/
def placeStep (s : (ℕ → ℕ) × (ℕ → ℕ)) (v : ℕ) : (ℕ → ℕ) × (ℕ → ℕ) :=
  (Function.update s.1 (key v) (s.1 (key v) + 1), Function.update s.2 (s.1 (key v)) v)

/-- The last pass over the numbers below `j`, with groups that start at `first`. -/
def place (first : ℕ → ℕ) (j : ℕ) : (ℕ → ℕ) × (ℕ → ℕ) :=
  (List.range j).foldl (placeStep key) (first, fun _ => 0)

/-- The group of a key after the sort of the numbers below `n`. -/
def bucket (n o : ℕ) : List ℕ :=
  let first := starts (counts key n)
  (List.range (first (o + 1) - first o)).map fun i => (place key first n).2 (first o + i)

/-- How many numbers below `j` have the key `o`. -/
def countBelow (j o : ℕ) : ℕ := (List.range j).countP fun v => key v == o

theorem countBelow_succ (j o : ℕ) :
    countBelow key (j + 1) o = countBelow key j o + if key j = o then 1 else 0 := by
  simp only [countBelow, List.range_succ, List.countP_append, List.countP_singleton, beq_iff_eq]

theorem countBelow_mono {i j : ℕ} (h : i ≤ j) (o : ℕ) : countBelow key i o ≤ countBelow key j o := by
  induction h with
  | refl => exact le_rfl
  | step h ih => exact ih.trans (by rw [countBelow_succ]; exact Nat.le_add_right _ _)

theorem counts_apply (n o : ℕ) : counts key n o = countBelow key n o := by
  induction n with
  | zero => rfl
  | succ n ih =>
    rw [countBelow_succ, ← ih, counts, List.range_succ, List.foldl_append, List.foldl_cons,
      List.foldl_nil, ← counts]
    by_cases ho : key n = o
    · rw [ho, Function.update_self, if_pos rfl]
    · rw [Function.update_of_ne (Ne.symm ho), if_neg ho, Nat.add_zero]

theorem starts_mono (sizes : ℕ → ℕ) {o o' : ℕ} (h : o < o') :
    starts sizes o + sizes o ≤ starts sizes o' := by
  induction h with
  | refl => exact le_rfl
  | step h ih => exact ih.trans (Nat.le_add_right _ _)

/-- The place of the `i`-th number of a group, for the groups of the numbers below `n`. -/
theorem starts_add_inj {n o o' i i' : ℕ} (hi : i < countBelow key n o)
    (hi' : i' < countBelow key n o')
    (h : starts (countBelow key n) o + i = starts (countBelow key n) o' + i') : o = o' := by
  obtain hlt | heq | hgt := Nat.lt_trichotomy o o'
  · have := starts_mono (countBelow key n) hlt
    omega
  · exact heq
  · have := starts_mono (countBelow key n) hgt
    omega

/-- What the last pass has done after the numbers below `j`. -/
theorem place_spec {n j : ℕ} (hj : j ≤ n) :
    (∀ o, (place key (starts (countBelow key n)) j).1 o =
      starts (countBelow key n) o + countBelow key j o) ∧
    ∀ o, ∀ i < countBelow key j o,
      some ((place key (starts (countBelow key n)) j).2 (starts (countBelow key n) o + i)) =
        ((List.range j).filter fun v => key v == o)[i]? := by
  induction j with
  | zero => exact ⟨fun o => rfl, fun o i hi => absurd hi (Nat.not_lt_zero i)⟩
  | succ j ih =>
    obtain ⟨hnext, hvalues⟩ := ih (by omega)
    have hstep : place key (starts (countBelow key n)) (j + 1) =
        placeStep key (place key (starts (countBelow key n)) j) j := by
      simp only [place, List.range_succ, List.foldl_append, List.foldl_cons, List.foldl_nil]
    have hsize : countBelow key j (key j) < countBelow key n (key j) := by
      have := countBelow_mono key hj (key j)
      rw [countBelow_succ, if_pos rfl] at this
      omega
    rw [hstep]
    refine ⟨fun o => ?_, fun o i hi => ?_⟩
    · simp only [placeStep, countBelow_succ]
      by_cases ho : key j = o
      · rw [ho, Function.update_self, hnext, if_pos rfl, Nat.add_assoc]
      · rw [Function.update_of_ne (Ne.symm ho), hnext, if_neg ho, Nat.add_zero]
    · have hfilter : (List.range (j + 1)).filter (fun v => key v == o) =
          (List.range j).filter (fun v => key v == o) ++ if key j = o then [j] else [] := by
        rw [List.range_succ, List.filter_append]
        by_cases ho : key j = o
        · rw [if_pos ho, List.filter_cons_of_pos (by simpa using ho), List.filter_nil]
        · rw [if_neg ho, List.filter_cons_of_neg (by simpa using ho), List.filter_nil]
      have hlen : ((List.range j).filter fun v => key v == o).length = countBelow key j o :=
        List.countP_eq_length_filter.symm
      rw [countBelow_succ] at hi
      simp only [placeStep, hnext, hfilter]
      by_cases hold : i < countBelow key j o
      · -- an old place: the new number goes elsewhere
        rw [List.getElem?_append_left (by omega), ← hvalues o i hold]
        have hne : starts (countBelow key n) o + i ≠
            starts (countBelow key n) (key j) + countBelow key j (key j) := by
          intro h
          have hi' := hold.trans_le (countBelow_mono key (by omega : j ≤ n) o)
          obtain rfl := starts_add_inj key hi' hsize h
          omega
        rw [Function.update_of_ne hne]
      · -- the place of the new number
        have ho : key j = o := by
          by_contra hne
          rw [if_neg hne] at hi
          omega
        rw [if_pos ho] at hi ⊢
        obtain rfl : i = countBelow key j o := by omega
        rw [ho, Function.update_self, List.getElem?_append_right (by omega), hlen, Nat.sub_self]
        rfl

/-- **A group holds the numbers with its key, in order.** -/
theorem bucket_eq_filter (n o : ℕ) :
    bucket key n o = (List.range n).filter fun v => key v == o := by
  have hcounts : counts key n = countBelow key n := funext (counts_apply key n)
  have hlen : ((List.range n).filter fun v => key v == o).length = countBelow key n o :=
    List.countP_eq_length_filter.symm
  have hvalues := (place_spec key (le_refl n)).2 o
  have hsize : starts (countBelow key n) (o + 1) - starts (countBelow key n) o =
      countBelow key n o := Nat.add_sub_cancel_left _ _
  apply List.ext_getElem?
  intro i
  simp only [bucket, hcounts, hsize, List.getElem?_map]
  by_cases hi : i < countBelow key n o
  · rw [List.getElem?_range hi, Option.map_some, hvalues i hi]
  · rw [List.getElem?_eq_none (by rw [List.length_range]; omega), Option.map_none,
      List.getElem?_eq_none (by omega)]

end FastEcu.CountingSort
