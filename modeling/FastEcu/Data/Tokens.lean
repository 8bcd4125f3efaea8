import Mathlib.Data.List.DropRight

/-!
# Tokens between gaps

A list is a sequence of tokens, between which there are gaps.  A program takes the first token up to the first gap,
drops the gap, and goes on.

* `trim` : a list without the gaps at its ends.
* `Tokens` : the tokens of a list.
* `tokens_iff` : the first token, and the others.
-/

namespace FastEcu.Data

variable {α : Type*}

/-- The list without the gaps at its ends. -/
def trim (gap : α → Bool) (l : List α) : List α := (l.dropWhile gap).rdropWhile gap

/-- There is no gap at the ends. -/
structure Trimmed (gap : α → Bool) (l : List α) : Prop where
  head : ∀ a ∈ l.head?, ¬ gap a
  last : ∀ a ∈ l.getLast?, ¬ gap a

/-- A token. -/
structure IsToken (gap : α → Bool) (t : List α) : Prop where
  ne_nil : t ≠ []
  inside : ∀ a ∈ t, ¬ gap a

/-- The list is made of the tokens, with gaps between them. -/
inductive Tokens (gap : α → Bool) : List α → List (List α) → Prop
  | last {t : List α} : IsToken gap t → Tokens gap t [t]
  | cons {t g l : List α} {ts : List (List α)} :
      IsToken gap t → g ≠ [] → (∀ a ∈ g, gap a) → Tokens gap l ts → Tokens gap (t ++ (g ++ l)) (t :: ts)

variable {gap : α → Bool} {l t : List α} {ts : List (List α)}

theorem trimmed_trim (gap : α → Bool) (l : List α) : Trimmed gap (trim gap l) := by
  refine ⟨fun a ha => ?_, fun a ha => ?_⟩
  · -- the first element is the first of what is left at the front
    have hfirst : a ∈ (l.dropWhile gap).head? := by
      have hprefix : trim gap l <+: l.dropWhile gap := List.rdropWhile_prefix gap _
      obtain ⟨rest, hrest⟩ := hprefix
      rw [← hrest, List.head?_append, Option.mem_def.1 ha]
      rfl
    intro hgap
    have hnot := List.head?_dropWhile_not gap l
    rw [Option.mem_def.1 hfirst] at hnot
    rw [show gap a = false from hnot] at hgap
    cases hgap
  · have hne : trim gap l ≠ [] := by
      intro hnil
      rw [hnil] at ha
      cases ha
    rw [List.getLast?_eq_some_getLast hne, Option.mem_def, Option.some.injEq] at ha
    rw [← ha]
    exact List.rdropWhile_last_not gap _ hne

theorem Trimmed.trim_eq (h : Trimmed gap l) : trim gap l = l := by
  have hfront : l.dropWhile gap = l := by
    cases l with
    | nil => rfl
    | cons a l =>
      have hnot : gap a = false := by simpa using h.head a rfl
      rw [List.dropWhile_cons, hnot]
      rfl
  rw [trim, hfront, List.rdropWhile_eq_self_iff]
  intro hne
  exact h.last _ (List.getLast?_eq_some_getLast hne)

theorem trim_append_left {g : List α} (h : ∀ a ∈ g, gap a) (l : List α) : trim gap (g ++ l) = trim gap l := by
  rw [trim, List.dropWhile_append_of_pos h, trim]

theorem trim_of_gap (h : ∀ a ∈ l, gap a) : trim gap l = [] := by
  rw [trim, List.dropWhile_eq_nil_iff.2 h, List.rdropWhile_nil]

/-- A list that has an element that is no gap has one at its front when it is trimmed. -/
theorem trim_eq_nil_iff : trim gap l = [] ↔ ∀ a ∈ l, gap a := by
  refine ⟨fun hnil => ?_, trim_of_gap⟩
  rw [trim, List.rdropWhile_eq_nil_iff] at hnil
  rw [← List.dropWhile_eq_nil_iff]
  have hnot := List.head?_dropWhile_not gap l
  cases hdrop : l.dropWhile gap with
  | nil => rfl
  | cons a rest =>
    rw [hdrop] at hnil hnot
    have hgap := hnil a (List.mem_cons_self ..)
    rw [show gap a = false from hnot] at hgap
    cases hgap

theorem length_trim_le (gap : α → Bool) (l : List α) : (trim gap l).length ≤ l.length :=
  (List.rdropWhile_prefix gap _).length_le.trans (List.length_dropWhile_le gap l)

/-! ### The first token -/

theorem IsToken.head (h : IsToken gap t) : ∀ a ∈ t.head?, ¬ gap a :=
  fun a ha => h.inside a (List.mem_of_mem_head? ha)

theorem IsToken.last (h : IsToken gap t) : ∀ a ∈ t.getLast?, ¬ gap a :=
  fun a ha => h.inside a (List.mem_of_getLast? ha)

theorem Tokens.ne_nil (h : Tokens gap l ts) : l ≠ [] := by
  cases h with
  | last ht => exact ht.ne_nil
  | cons ht => exact List.append_ne_nil_of_left_ne_nil ht.ne_nil _

theorem Tokens.trimmed (h : Tokens gap l ts) : Trimmed gap l := by
  induction h with
  | last ht => exact ⟨ht.head, ht.last⟩
  | @cons t g l ts ht hg _ hl ih =>
    refine ⟨fun a ha => ?_, fun a ha => ?_⟩
    · rw [List.head?_append_of_ne_nil _ ht.ne_nil] at ha
      exact ht.head a ha
    · have hne := hl.ne_nil
      rw [List.getLast?_append_of_ne_nil _ (by simp [hne]), List.getLast?_append_of_ne_nil _ hne] at ha
      exact ih.last a ha

/-- What is taken up to the first gap, and what follows. -/
theorem IsToken.takeWhile (ht : IsToken gap t) {g : List α} (hg : ∀ a ∈ g.head?, gap a) :
    (t ++ g).takeWhile (fun a => ! gap a) = t ∧ (t ++ g).dropWhile (fun a => ! gap a) = g := by
  have hinside : ∀ a ∈ t, (! gap a) = true := by
    intro a ha
    simpa using ht.inside a ha
  rw [List.takeWhile_append_of_pos hinside, List.dropWhile_append_of_pos hinside]
  cases g with
  | nil => simp
  | cons b g =>
    have hb : (! gap b) = false := by simpa using hg b rfl
    simp [hb]

/-- **The first token goes up to the first gap; what is left is trimmed, and has the other tokens.** -/
theorem tokens_iff (h : Trimmed gap l) : Tokens gap l ts ↔ l ≠ [] ∧ ∃ ts',
    ts = l.takeWhile (fun a => ! gap a) :: ts' ∧
      ((trim gap (l.dropWhile fun a => ! gap a) = [] ∧ ts' = []) ∨
        Tokens gap (trim gap (l.dropWhile fun a => ! gap a)) ts') := by
  constructor
  · intro htokens
    refine ⟨htokens.ne_nil, ?_⟩
    cases htokens with
    | last ht =>
      obtain ⟨htake, hdrop⟩ := @IsToken.takeWhile _ _ _ ht [] (fun a ha => by cases ha)
      rw [List.append_nil] at htake hdrop
      rw [htake, hdrop]
      exact ⟨[], rfl, .inl ⟨rfl, rfl⟩⟩
    | @cons t g l ts ht hg hgap hl =>
      obtain ⟨htake, hdrop⟩ := @IsToken.takeWhile _ _ _ ht (g ++ l) (fun a ha => by
        rw [List.head?_append_of_ne_nil _ hg] at ha
        exact hgap a (List.mem_of_mem_head? ha))
      rw [htake, hdrop, trim_append_left hgap, hl.trimmed.trim_eq]
      exact ⟨ts, rfl, .inr hl⟩
  · rintro ⟨hne, ts', rfl, hrest⟩
    have ht : IsToken gap (l.takeWhile fun a => ! gap a) := by
      refine ⟨?_, fun a ha => by simpa using List.mem_takeWhile_imp ha⟩
      obtain ⟨a, l, rfl⟩ := List.exists_cons_of_ne_nil hne
      have hnot : (! gap a) = true := by simpa using h.head a rfl
      rw [List.takeWhile_cons, hnot]
      exact List.cons_ne_nil _ _
    have hsplit := @List.takeWhile_append_dropWhile _ (fun a => ! gap a) l
    revert hrest
    generalize hrest : l.dropWhile (fun a => ! gap a) = rest at hsplit
    -- what is left ends as the list does, so not in a gap, and starts with a gap
    have hlast : ∀ a ∈ rest.getLast?, ¬ gap a := by
      intro a ha
      refine h.last a ?_
      rw [← hsplit, List.getLast?_append, Option.mem_def.1 ha]
      rfl
    have hfirst : ∀ a ∈ rest.head?, gap a := by
      intro a ha
      have hnot := List.head?_dropWhile_not (fun a => ! gap a) l
      rw [hrest, Option.mem_def.1 ha] at hnot
      simpa using hnot
    rintro (⟨hnil, rfl⟩ | htokens)
    · have hempty : rest = [] := by
        by_contra hne
        exact hlast _ (List.getLast?_eq_some_getLast hne) (trim_eq_nil_iff.1 hnil _ (List.getLast_mem hne))
      rw [hempty, List.append_nil] at hsplit
      conv => arg 2; rw [← hsplit]
      exact .last ht
    · have hfront := @List.takeWhile_append_dropWhile _ gap rest
      have htrim : trim gap rest = rest.dropWhile gap := by
        rw [trim, List.rdropWhile_eq_self_iff]
        intro hne
        have hend : rest.getLast? = (rest.dropWhile gap).getLast? :=
          (congrArg List.getLast? hfront).symm.trans (List.getLast?_append_of_ne_nil _ hne)
        exact hlast _ (hend.trans (List.getLast?_eq_some_getLast hne))
      rw [htrim] at htokens
      have hgap : rest.takeWhile gap ≠ [] := by
        intro hnil
        rw [hnil, List.nil_append] at hfront
        rw [hfront] at htokens
        cases rest with
        | nil => exact htokens.ne_nil rfl
        | cons a rest => exact htokens.trimmed.head a rfl (hfirst a rfl)
      have hall := Tokens.cons ht hgap (fun a ha => List.mem_takeWhile_imp ha) htokens
      rw [hfront, hsplit] at hall
      exact hall

end FastEcu.Data
