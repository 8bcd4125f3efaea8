import Mathlib.Algebra.GroupWithZero.Nat
import Mathlib.Data.List.Basic

/-!
# Streams with silences

A finite stream of elements that arrives in bursts, with a silence after each of them.  A read waits until
it has as many elements as it asks for, or until a silence.

* `Bursts.take` : a read; it is short only at a silence.
* `Bursts.lineTo` : what is read up to an element, whatever silences there are before it.
* `Bursts.size` : what every read takes from, until nothing is left.
-/

namespace FastEcu.Data

/-- The elements that have arrived, and those that arrive after each of the silences to come. -/
structure Bursts (α : Type) where
  current : List α
  later : List (List α)
deriving DecidableEq

namespace Bursts

variable {α : Type} {n : ℕ} {s : Bursts α}

/-- What arrives after the next silence. -/
def next (s : Bursts α) : Bursts α :=
  match s.later with
  | [] => ⟨[], []⟩
  | burst :: later => ⟨burst, later⟩

/-- Up to `n` elements, and what is left. -/
def take (n : ℕ) (s : Bursts α) : List α × Bursts α :=
  if n ≤ s.current.length then (s.current.take n, ⟨s.current.drop n, s.later⟩) else (s.current, s.next)

/-- The elements and the silences that are left. -/
def size (s : Bursts α) : ℕ := s.current.length + (s.later.map fun burst => burst.length + 1).sum

/-- More elements before the others. -/
def prepend (l : List α) (s : Bursts α) : Bursts α := ⟨l ++ s.current, s.later⟩

theorem prepend_prepend (l l' : List α) (s : Bursts α) : (s.prepend l').prepend l = s.prepend (l ++ l') := by
  rw [prepend, prepend, prepend, List.append_assoc]

theorem take_prepend {l : List α} (h : n ≤ l.length) (s : Bursts α) :
    (s.prepend l).take n = (l.take n, s.prepend (l.drop n)) := by
  have hle : n ≤ (l ++ s.current).length := by
    rw [List.length_append]
    omega
  rw [take, prepend, if_pos hle, List.take_append_of_le_length h,
    List.drop_append_of_le_length h]
  rfl

theorem size_next (s : Bursts α) : s.next.size ≤ s.size - s.current.length := by
  rcases s with ⟨current, _ | ⟨burst, later⟩⟩
  · exact Nat.zero_le _
  · simp only [next, size, List.map_cons, List.sum_cons]
    omega

theorem length_take (n : ℕ) (s : Bursts α) : (s.take n).1.length ≤ n := by
  unfold take
  split_ifs with h
  · exact List.length_take_le _ _
  · exact Nat.le_of_lt (Nat.not_le.1 h)

/-- What a read takes is gone. -/
theorem size_take (n : ℕ) (s : Bursts α) : (s.take n).1.length + (s.take n).2.size ≤ s.size := by
  unfold take
  split_ifs with h
  · simp only [size, List.length_take, List.length_drop]
    omega
  · have hnext := s.size_next
    have hcurrent : s.current.length ≤ s.size := Nat.le_add_right _ _
    show s.current.length + s.next.size ≤ s.size
    omega

theorem size_take_le (n : ℕ) (s : Bursts α) : (s.take n).2.size ≤ s.size :=
  Nat.le_trans (Nat.le_add_left _ _) (s.size_take n)

theorem take_one_cons (a : α) (l : List α) (later : List (List α)) :
    (⟨a :: l, later⟩ : Bursts α).take 1 = ([a], ⟨l, later⟩) :=
  if_pos (Nat.succ_le_succ (Nat.zero_le _))

theorem take_one_nil (later : List (List α)) :
    (⟨[], later⟩ : Bursts α).take 1 = ([], (⟨[], later⟩ : Bursts α).next) :=
  if_neg (Nat.not_succ_le_zero 0)

theorem size_cons (a : α) (l : List α) (later : List (List α)) :
    (⟨a :: l, later⟩ : Bursts α).size = (⟨l, later⟩ : Bursts α).size + 1 := by
  simp only [size, List.length_cons]
  omega

theorem size_silence (burst : List α) (later : List (List α)) :
    (⟨[], burst :: later⟩ : Bursts α).size = (⟨burst, later⟩ : Bursts α).size + 1 := by
  simp only [size, List.length_nil, List.map_cons, List.sum_cons]
  omega

/-- Induction over what arrives: an element, or a silence. -/
theorem induction {P : Bursts α → Prop} (nil : P ⟨[], []⟩)
    (silence : ∀ burst later, P ⟨burst, later⟩ → P ⟨[], burst :: later⟩)
    (cons : ∀ a l later, P ⟨l, later⟩ → P ⟨a :: l, later⟩) (s : Bursts α) : P s := by
  obtain ⟨current, later⟩ := s
  induction later generalizing current with
  | nil =>
    induction current with
    | nil => exact nil
    | cons a l ih => exact cons a l [] ih
  | cons burst later ih =>
    induction current with
    | nil => exact silence burst later (ih burst)
    | cons a l ihl => exact cons a l (burst :: later) ihl

/-! ### Lines -/

section Lines

variable [DecidableEq α] (c : α)

/-- The elements up to the first `c`, and the others. -/
def upTo : List α → Option (List α × List α)
  | [] => none
  | a :: l => if a = c then some ([a], l) else (upTo l).map fun (line, rest) => (a :: line, rest)

/-- What is read up to the first `c`, from a burst on. -/
def lineFrom : List α → List (List α) → Option (List α × Bursts α)
  | burst, [] => (upTo c burst).map fun (line, rest) => (line, ⟨rest, []⟩)
  | burst, burst' :: later =>
    match upTo c burst with
    | some (line, rest) => some (line, ⟨rest, burst' :: later⟩)
    | none => (lineFrom burst' later).map fun (line, rest) => (burst ++ line, rest)

/-- What is read up to the first `c`, whatever silences there are before it. -/
def lineTo (s : Bursts α) : Option (List α × Bursts α) := lineFrom c s.current s.later

theorem lineTo_silence (burst : List α) (later : List (List α)) :
    lineTo c ⟨[], burst :: later⟩ = lineTo c ⟨burst, later⟩ := by
  show (lineFrom c burst later).map (fun (line, rest) => ([] ++ line, rest)) = lineFrom c burst later
  exact Option.map_id'

theorem lineTo_cons (a : α) (l : List α) (later : List (List α)) : lineTo c ⟨a :: l, later⟩ =
    if a = c then some ([a], ⟨l, later⟩)
    else (lineTo c ⟨l, later⟩).map fun (line, rest) => (a :: line, rest) := by
  unfold lineTo
  cases later with
  | nil =>
    simp only [lineFrom, upTo]
    by_cases h : a = c
    · rw [if_pos h, if_pos h]
      rfl
    · rw [if_neg h, if_neg h, Option.map_map, Option.map_map]
      rfl
  | cons burst later =>
    simp only [lineFrom, upTo]
    by_cases h : a = c
    · rw [if_pos h, if_pos h]
    · rw [if_neg h, if_neg h]
      cases upTo c l with
      | some split => rfl
      | none =>
        simp only [Option.map_none, Option.map_map]
        rfl

/-- A line ends in its terminator, and what it takes is gone. -/
theorem lineTo_spec {line : List α} {rest : Bursts α} (h : lineTo c s = some (line, rest)) :
    line.getLast? = some c ∧ line.length + rest.size ≤ s.size := by
  induction s using Bursts.induction generalizing line with
  | nil => cases h
  | silence burst later ih =>
    rw [lineTo_silence] at h
    obtain ⟨hlast, hsize⟩ := ih h
    refine ⟨hlast, Nat.le_trans hsize ?_⟩
    rw [size_silence]
    omega
  | cons a l later ih =>
    have hsize := size_cons a l later
    rw [lineTo_cons] at h
    by_cases hc : a = c
    · rw [if_pos hc] at h
      cases h
      subst hc
      refine ⟨rfl, ?_⟩
      rw [hsize, List.length_singleton]
      omega
    · rw [if_neg hc, Option.map_eq_some_iff] at h
      obtain ⟨⟨line', rest'⟩, hline, heq⟩ := h
      cases heq
      obtain ⟨hlast, hle⟩ := ih hline
      have hne : line' ≠ [] := by
        rintro rfl
        cases hlast
      refine ⟨?_, ?_⟩
      · rw [List.getLast?_cons, hlast]
        rfl
      · rw [hsize, List.length_cons]
        omega

end Lines

end Bursts

end FastEcu.Data
