import Mathlib.Data.List.Sort
import Mathlib.Data.List.Perm.Basic
import Mathlib.Algebra.Order.Ring.Nat

/-!
# Segments that tile an interval

A segment is a pair `(start, size)` and stands for the positions `start, …, start + size - 1`.

* `Contiguous a segs b` : the segments follow each other from `a` to `b`, in list order.  It is
  what a walk with a cursor sees.
* `Tiles segs a b` : as a set, the segments cover `a, …, b - 1` with no gap and no overlap, in
  any order.
* `contiguous_iff_tiles` : for non-empty segments sorted by their start the two agree, so a walk
  over the sorted list decides the tiling; `Tiles.perm` says that sorting is harmless.
-/

namespace FastEcu

/-- A start and a size. -/
abbrev Segment := ℕ × ℕ

/-- Position `i` lies in the segment. -/
def Segment.Has (s : Segment) (i : ℕ) : Prop := s.1 ≤ i ∧ i < s.1 + s.2

/-- Two segments share no position, one ending before the other starts. -/
def Segment.Apart (s t : Segment) : Prop := s.1 + s.2 ≤ t.1 ∨ t.1 + t.2 ≤ s.1

theorem Segment.Apart.symm {s t : Segment} (h : s.Apart t) : t.Apart s := Or.symm h

/-- The segments follow each other from `a` to `b`. -/
def Contiguous : ℕ → List Segment → ℕ → Prop
  | a, [], b => a = b
  | a, s :: ss, b => s.1 = a ∧ Contiguous (a + s.2) ss b

/-- The segments cover `a, …, b - 1`, with no gap and no overlap. -/
structure Tiles (segs : List Segment) (a b : ℕ) : Prop where
  /-- No overlap. -/
  apart : segs.Pairwise Segment.Apart
  /-- No gap. -/
  cover : ∀ i, a ≤ i → i < b → ∃ s ∈ segs, s.Has i
  /-- Nothing outside. -/
  within : ∀ s ∈ segs, a ≤ s.1 ∧ s.1 + s.2 ≤ b

theorem Tiles.perm {segs segs' : List Segment} {a b : ℕ} (hp : segs.Perm segs') :
    Tiles segs a b ↔ Tiles segs' a b := by
  have key : ∀ {l l' : List Segment}, l.Perm l' → Tiles l a b → Tiles l' a b := by
    intro l l' hp h
    refine ⟨hp.pairwise h.apart fun hst => hst.symm, fun i hi hb => ?_, fun s hs => ?_⟩
    · obtain ⟨s, hs, hsi⟩ := h.cover i hi hb
      exact ⟨s, hp.mem_iff.1 hs, hsi⟩
    · exact h.within s (hp.mem_iff.2 hs)
  exact ⟨key hp, key hp.symm⟩

theorem Contiguous.le {a b : ℕ} {segs : List Segment} (h : Contiguous a segs b) : a ≤ b := by
  induction segs generalizing a with
  | nil => exact le_of_eq h
  | cons s ss ih => exact le_trans (Nat.le_add_right a s.2) (ih h.2)

theorem contiguous_append {a b : ℕ} {l l' : List Segment} :
    Contiguous a (l ++ l') b ↔ ∃ c, Contiguous a l c ∧ Contiguous c l' b := by
  induction l generalizing a with
  | nil => simp [Contiguous]
  | cons s l ih =>
    simp only [List.cons_append, Contiguous, ih]
    constructor
    · rintro ⟨h, c, h1, h2⟩; exact ⟨c, ⟨h, h1⟩, h2⟩
    · rintro ⟨c, ⟨h, h1⟩, h2⟩; exact ⟨h, c, h1, h2⟩

theorem Contiguous.within {a b : ℕ} {segs : List Segment} (h : Contiguous a segs b) :
    ∀ s ∈ segs, a ≤ s.1 ∧ s.1 + s.2 ≤ b := by
  induction segs generalizing a with
  | nil => simp
  | cons t ss ih =>
    obtain ⟨rfl, hss⟩ := h
    rintro s (_ | ⟨_, hs⟩)
    · exact ⟨le_rfl, hss.le⟩
    · obtain ⟨h1, h2⟩ := ih hss s hs
      exact ⟨by omega, h2⟩

theorem Contiguous.cover {a b : ℕ} {segs : List Segment} (h : Contiguous a segs b) :
    ∀ i, a ≤ i → i < b → ∃ s ∈ segs, s.Has i := by
  induction segs generalizing a with
  | nil => intro i hi hb; exact absurd h (by simp only [Contiguous]; omega)
  | cons t ss ih =>
    obtain ⟨rfl, hss⟩ := h
    intro i hi hb
    by_cases hit : i < t.1 + t.2
    · exact ⟨t, List.mem_cons_self, hi, hit⟩
    · obtain ⟨s, hs, hsi⟩ := ih hss i (by omega) hb
      exact ⟨s, List.mem_cons_of_mem _ hs, hsi⟩

theorem Contiguous.tiles {a b : ℕ} {segs : List Segment} (h : Contiguous a segs b) :
    Tiles segs a b := by
  refine ⟨?_, h.cover, h.within⟩
  induction segs generalizing a with
  | nil => exact List.Pairwise.nil
  | cons t ss ih =>
    obtain ⟨rfl, hss⟩ := h
    exact List.Pairwise.cons (fun s hs => Or.inl (hss.within s hs).1) (ih hss)

/-- **A sorted walk decides the tiling.**  For non-empty segments sorted by their start. -/
theorem contiguous_iff_tiles {a b : ℕ} {segs : List Segment} (hab : a ≤ b)
    (hpos : ∀ s ∈ segs, 0 < s.2) (hsort : segs.Pairwise fun s t => s.1 ≤ t.1) :
    Contiguous a segs b ↔ Tiles segs a b := by
  refine ⟨Contiguous.tiles, fun h => ?_⟩
  induction segs generalizing a with
  | nil =>
    by_contra hne
    obtain ⟨s, hs, _⟩ := h.cover a le_rfl (lt_of_le_of_ne hab hne)
    cases hs
  | cons s ss ih =>
    have hspos := hpos s List.mem_cons_self
    obtain ⟨hsa, hsb⟩ := h.within s List.mem_cons_self
    obtain ⟨happ, hapart⟩ := List.pairwise_cons.1 h.apart
    obtain ⟨hle, hsorted⟩ := List.pairwise_cons.1 hsort
    -- the position `a` is covered by a segment that starts at `a`, and `s` starts no later
    have hs : s.1 = a := by
      obtain ⟨t, ht, hta, _⟩ := h.cover a le_rfl (by omega)
      rcases List.mem_cons.1 ht with rfl | ht'
      · omega
      · have := hle t ht'
        omega
    have hafter : ∀ t ∈ ss, s.1 + s.2 ≤ t.1 := by
      intro t ht
      have h1 := hle t ht
      have h2 := hpos t (List.mem_cons_of_mem _ ht)
      rcases happ t ht with h3 | h3
      · exact h3
      · omega
    refine ⟨hs, ih (by omega) (fun t ht => hpos t (List.mem_cons_of_mem _ ht)) hsorted
      ⟨hapart, fun i hi hb => ?_, fun t ht => ?_⟩⟩
    · obtain ⟨t, ht, hti⟩ := h.cover i (by omega) hb
      rcases List.mem_cons.1 ht with rfl | ht'
      · exact absurd hti.2 (by omega)
      · exact ⟨t, ht', hti⟩
    · have h1 := hafter t ht
      exact ⟨by omega, (h.within t (List.mem_cons_of_mem _ ht)).2⟩

end FastEcu
