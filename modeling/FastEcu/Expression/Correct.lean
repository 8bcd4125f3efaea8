import FastEcu.Expression.Complete

/-!
# The expression compiler is correct

`Compile` accepts the language of `IsExpression`, less the trees that a constant error spoils, and
the code that it writes computes the value of the parse tree.

* `compile_sound`, `compile_complete` : acceptance, with the code.
* `isExpression_unique` : a text has one parse tree.  The compiler is run over trees instead of
  numbers, and the code then builds the tree it was compiled from.
-/

namespace FastEcu.Expression

/-! ### The ends of a text -/

/-- The texts of `P` begin with a token, and any whitespace may be in front of it. -/
def Leads (P : List Char → Expr → Prop) : Prop :=
  ∀ s t, P s t → ∃ w c s', s = w ++ c :: s' ∧ Blank w ∧ ¬ whitespace c ∧
    ∀ w', Blank w' → P (w' ++ c :: s') t

/-- The texts of `P` end with a token. -/
def Trails (P : List Char → Expr → Prop) : Prop :=
  ∀ s t, P s t → ∃ s' c, s = s' ++ [c] ∧ ¬ whitespace c

theorem isFactor_leads (inner : List Char → Expr → Prop) : Leads (IsFactor inner) := by
  intro s t h
  cases h with
  | parens hw hs hw' =>
    exact ⟨_, '(', _, rfl, hw, by decide, fun w' h => .parens h hs hw'⟩
  | x hw => exact ⟨_, 'x', [], rfl, hw, by decide, fun w' h => .x h⟩
  | literal hw hs =>
    obtain ⟨c, s', hcs, hc⟩ := Parser.isDecimal_head hs
    subst hcs
    exact ⟨_, c, s', rfl, hw, (Parser.factor_token (.inr (.inr hc))).1, fun w' h => .literal h hs⟩

theorem isSigned_leads {factor : List Char → Expr → Prop} (h : Leads factor) :
    Leads (IsSigned factor) := by
  rintro s t ⟨negative, u, hs, rfl⟩
  cases hs with
  | bare hs =>
    obtain ⟨w, c, s', rfl, hw, hc, hany⟩ := h s u hs
    exact ⟨w, c, s', rfl, hw, hc, fun w' h => ⟨false, u, .bare (hany w' h), rfl⟩⟩
  | plus hw hs => exact ⟨_, '+', _, rfl, hw, by decide, fun w' h => ⟨_, u, .plus h hs, rfl⟩⟩
  | minus hw hs => exact ⟨_, '-', _, rfl, hw, by decide, fun w' h => ⟨_, u, .minus h hs, rfl⟩⟩

theorem isChain_leads {operator : Char → Option Operation} {item : List Char → Expr → Prop}
    (h : Leads item) : Leads (IsChain operator item) := by
  intro s t hs
  induction hs with
  | one hs =>
    obtain ⟨w, c, s', rfl, hw, hc, hany⟩ := h _ _ hs
    exact ⟨w, c, s', rfl, hw, hc, fun w' h => .one (hany w' h)⟩
  | @more _ w s' c operation l r _ hw hc hs' ih =>
    obtain ⟨u, d, s'', rfl, hu, hd, hany⟩ := ih
    refine ⟨u, d, s'' ++ (w ++ c :: s'), by simp, hu, hd, fun w' h => ?_⟩
    have hmore := IsChain.more (hany w' h) hw hc hs'
    rwa [List.append_assoc, List.cons_append] at hmore

theorem isSum_leads (room : ℕ) : Leads (IsSum room) := by
  cases room <;>
    exact isChain_leads (isChain_leads (isSigned_leads (isFactor_leads _)))

theorem isDecimal_last {s : List Char} (h : IsDecimal s) :
    ∃ s' c, s = s' ++ [c] ∧ ¬ whitespace c := by
  have hdigits : ∀ {u v : List Char}, Digits v → v ≠ [] → ∃ s' c, u ++ v = s' ++ [c] ∧
      ¬ whitespace c := by
    intro u v hv hne
    refine ⟨u ++ v.dropLast, v.getLast hne, ?_,
      not_whitespace_of_isDigit (hv _ (List.getLast_mem hne))⟩
    rw [List.append_assoc, List.dropLast_append_getLast hne]
  obtain ⟨m, e, rfl, hm, he⟩ := h
  cases he with
  | none =>
    rw [List.append_nil]
    cases hm with
    | whole hs hne => exact hdigits (u := []) hs hne
    | @point s f hs hf hne =>
      by_cases hempty : f = []
      · exact ⟨s, '.', by rw [hempty], by decide⟩
      · rw [List.append_cons]
        exact hdigits hf hempty
  | @some e sign s he hsign hs hne =>
    obtain ⟨s', c, hlast, hc⟩ := hdigits (u := m ++ e :: sign) hs hne
    exact ⟨s', c, by rw [← hlast]; simp, hc⟩

theorem isFactor_trails (inner : List Char → Expr → Prop) : Trails (IsFactor inner) := by
  intro s t h
  cases h with
  | @parens w s w' _ => exact ⟨w ++ '(' :: (s ++ w'), ')', by simp, by decide⟩
  | @x w => exact ⟨w, 'x', rfl, by decide⟩
  | @literal w _ _ hs =>
    obtain ⟨s', c, rfl, hc⟩ := isDecimal_last hs
    exact ⟨w ++ s', c, by simp, hc⟩

theorem isSigned_trails {factor : List Char → Expr → Prop} (h : Trails factor) :
    Trails (IsSigned factor) := by
  rintro s t ⟨negative, u, hs, -⟩
  induction hs with
  | bare hs => exact h _ _ hs
  | @plus _ w s _ _ _ ih =>
    obtain ⟨s', c, rfl, hc⟩ := ih
    exact ⟨w ++ '+' :: s', c, by simp, hc⟩
  | @minus _ w s _ _ _ ih =>
    obtain ⟨s', c, rfl, hc⟩ := ih
    exact ⟨w ++ '-' :: s', c, by simp, hc⟩

theorem isChain_trails {operator : Char → Option Operation} {item : List Char → Expr → Prop}
    (h : Trails item) : Trails (IsChain operator item) := by
  intro s t hs
  cases hs with
  | one hs => exact h _ _ hs
  | @more s w _ d _ _ _ _ _ _ hs' =>
    obtain ⟨s', c, rfl, hc⟩ := h _ _ hs'
    exact ⟨s ++ (w ++ d :: s'), c, by simp, hc⟩

theorem isSum_trails (room : ℕ) : Trails (IsSum room) := by
  cases room <;>
    exact isChain_trails (isChain_trails (isSigned_trails (isFactor_trails _)))

/-! ### Trimming -/

theorem trimmed_spec (text : List Char) :
    ∃ w w', Blank w ∧ Blank w' ∧ text = w ++ (trimmed text ++ w') := by
  obtain ⟨w, hw, htext⟩ := exists_blank text
  refine ⟨w, (skipWhitespace text).rtakeWhile whitespace, hw,
    fun c hc => List.mem_rtakeWhile_imp hc, ?_⟩
  rw [trimmed, show text.dropWhile whitespace = skipWhitespace text from rfl,
    List.rdropWhile_append_rtakeWhile, ← htext]

theorem trimmed_blank {w : List Char} (hw : Blank w) : trimmed w = [] := by
  have h : w.dropWhile whitespace = [] := List.dropWhile_eq_nil_iff.2 hw
  rw [trimmed, h, List.rdropWhile_nil]

/-- Trimming takes the whitespace around the tokens away, and nothing else. -/
theorem trimmed_tokens {w s w' : List Char} {c d : Char} {s' s'' : List Char} (hw : Blank w)
    (hw' : Blank w') (hc : ¬ whitespace c) (hd : ¬ whitespace d) (hfirst : s = c :: s')
    (hlast : s = s'' ++ [d]) : trimmed (w ++ (s ++ w')) = s := by
  have hskip : (w ++ (s ++ w')).dropWhile whitespace = s ++ w' := by
    rw [List.dropWhile_append_of_pos hw, hfirst, List.cons_append, List.dropWhile_cons_of_neg hc]
  have hreverse : ∀ a ∈ w'.reverse, whitespace a := fun a ha => hw' a (List.mem_reverse.1 ha)
  rw [trimmed, hskip, List.rdropWhile, List.reverse_append, List.dropWhile_append_of_pos hreverse,
    ← List.rdropWhile, hlast, List.rdropWhile_concat_neg _ _ _ hd]

/-! ### Compiling -/

variable {α : Type} {A : Arithmetic α}

/-- **What is accepted is an expression**, and the code is that of its tree. -/
theorem compile_sound {text : List Char} {program : List (Instruction α)}
    (h : compile A text = .ok program) :
    ∃ t value, IsExpression text t ∧ constant A t = some value ∧ program = code A t := by
  obtain ⟨w, w', hw, hw', htext⟩ := trimmed_spec text
  simp only [compile] at h
  split at h
  · rename_i hempty
    cases h
    rw [hempty] at htext
    exact ⟨.x, none, htext ▸ .blank (blank_append hw hw'), rfl, rfl⟩
  · rename_i c tail htrimmed
    split at h
    · cases h
    · rename_i v p hparser
      cases h
      rw [htrimmed] at htext
      simp only [Parser.compile] at hparser
      split at hparser
      · cases hparser
      · rename_i v' q hsum
        obtain ⟨s, u, t, hrest, hu, hs, hconst, hcode⟩ := Parser.sum_sound _ _ _ _ _ hsum
        obtain ⟨u', hu', hq⟩ := exists_blank q.rest
        split at hparser
        · rename_i hend
          cases hparser
          rw [hend, List.append_nil] at hq
          change c :: tail = _ at hrest
          -- the blanks in front of the trimmed text belong to the first token
          obtain ⟨b, d, s', rfl, hb, -, hany⟩ := isSum_leads _ _ _ hs
          refine ⟨t, v, ?_, hconst, by rw [hcode]; rfl⟩
          have hexpr := IsExpression.sum (hany (w ++ b) (blank_append hw hb))
            (blank_append hu (blank_append hu' hw'))
          rw [htext, hrest, hq]
          simpa only [List.append_assoc, List.cons_append] using hexpr
        · cases hparser

/-- **Every expression that folds is accepted.** -/
theorem compile_complete {text : List Char} {t : Expr} {value : Option α}
    (h : IsExpression text t) (hvalue : constant A t = some value) :
    compile A text = .ok (code A t) := by
  cases h with
  | blank hw =>
    simp only [compile, trimmed_blank hw]
    rfl
  | @sum s w _ hs hw =>
    obtain ⟨b, c, s', rfl, hb, hc, hany⟩ := isSum_leads _ _ _ hs
    have hsum : IsSum Parser.kMaximumNesting (c :: s') t := hany [] blank_nil
    obtain ⟨s'', d, hlast, hd⟩ := isSum_trails _ _ _ hsum
    have htrimmed : trimmed (b ++ c :: s' ++ w) = c :: s' := by
      rw [List.append_assoc]
      exact trimmed_tokens hb hw hc hd rfl hlast
    obtain ⟨r, hskip, hok⟩ := Parser.sum_completes (c :: s').length Parser.kMaximumNesting
      (c :: s') t value hsum hvalue [] [] (sumEnd_blank blank_nil)
    rw [List.append_nil] at hok
    have hend : skipWhitespace r = [] := hskip
    simp only [compile, htrimmed, Parser.compile, hok, hend, List.nil_append]

/-! ### One parse tree -/

/-- Trees as numbers: no operation fails, and none loses anything. -/
def treeArithmetic : Arithmetic Expr where
  value digits := some (.literal digits)
  isFinite _ := true
  isZero _ := false
  add := .binary .add
  sub := .binary .sub
  mul := .binary .mul
  div := .binary .div
  neg := .negate

theorem apply_treeArithmetic (operation : Operation) (l r : Expr) :
    apply treeArithmetic operation l r = .ok (.binary operation l r) := by
  cases operation <;> rfl

theorem eval_treeArithmetic (t : Expr) : eval treeArithmetic .x t = .ok t := by
  induction t with
  | literal digits => rfl
  | x => rfl
  | negate t ih => simp only [eval, ih]; rfl
  | binary operation l r ihl ihr => simp only [eval, ihl, ihr, apply_treeArithmetic]

theorem constant_treeArithmetic (t : Expr) : ∃ value, constant treeArithmetic t = some value := by
  induction t with
  | literal digits => exact ⟨_, rfl⟩
  | x => exact ⟨_, rfl⟩
  | negate t ih =>
    obtain ⟨value, h⟩ := ih
    exact ⟨value.map .negate, by rw [constant, h]; rfl⟩
  | binary operation l r ihl ihr =>
    obtain ⟨left, hl⟩ := ihl
    obtain ⟨right, hr⟩ := ihr
    have hzero : ¬ (operation = .div ∧ right.any treeArithmetic.isZero) := by
      rintro ⟨-, h⟩
      cases right <;> cases h
    simp only [constant, hl, hr, combine, if_neg hzero]
    cases left with
    | none => exact ⟨_, rfl⟩
    | some a =>
      cases right with
      | none => exact ⟨_, rfl⟩
      | some b =>
        simp only [apply_treeArithmetic]
        exact ⟨_, rfl⟩

/-- **A text has at most one parse tree.** -/
theorem isExpression_unique {text : List Char} {t t' : Expr} (h : IsExpression text t)
    (h' : IsExpression text t') : t = t' := by
  obtain ⟨v, hv⟩ := constant_treeArithmetic t
  obtain ⟨v', hv'⟩ := constant_treeArithmetic t'
  have hcode : code treeArithmetic t = code treeArithmetic t' :=
    Except.ok.inj ((compile_complete h hv).symm.trans (compile_complete h' hv'))
  have hrun := run_code hv .x [] []
  rw [hcode, run_code hv' .x [] [], eval_treeArithmetic, eval_treeArithmetic] at hrun
  simpa [run] using hrun.symm

/-! ### Evaluating -/

/-- The code of a tree, run from the empty stack, leaves the value of the tree on it. -/
theorem run_code_nil {t : Expr} {value : Option α} (h : constant A t = some value) (x : α) :
    run A x (code A t) [] = some ((eval A x t).map fun value => [value]) := by
  have hrun := run_code h x [] []
  rw [List.append_nil] at hrun
  rw [hrun]
  cases eval A x t <;> rfl

theorem evaluate_code {t : Expr} {value : Option α} (h : constant A t = some value) {x : α}
    (hx : A.isFinite x) : evaluate A (code A t) x = some (eval A x t) := by
  simp only [evaluate, finite, if_pos hx, run_code_nil h]
  cases eval A x t <;> rfl

/-- **The compiler and the machine are correct.**  A text is accepted just when it is an expression
that no constant error spoils, and such an error is raised at every value of the variable.  The code
of an accepted text gives the value of its parse tree, or its failure, at every finite value of the
variable; it never reads an empty stack, and one value is left on the stack at the end. -/
theorem compile_evaluate_correct {α : Type} (A : Arithmetic α) (text : List Char) :
    ((∃ program, compile A text = .ok program) ↔ ∃ t, IsExpression text t ∧ ¬ Doomed A t) ∧
    (∀ t, Doomed A t → ∀ x value, eval A x t ≠ .ok value) ∧
    (∀ program, compile A text = .ok program →
      ∃ t, (∀ t', IsExpression text t' ↔ t' = t) ∧ ∀ x, A.isFinite x →
        evaluate A program x = some (eval A x t) ∧
        run A x program [] = some ((eval A x t).map fun value => [value])) := by
  refine ⟨⟨?_, ?_⟩, fun t h => eval_of_doomed h, ?_⟩
  · rintro ⟨program, h⟩
    obtain ⟨t, value, ht, hvalue, -⟩ := compile_sound h
    refine ⟨t, ht, fun hdoomed => ?_⟩
    rw [constant_eq_none.2 hdoomed] at hvalue
    cases hvalue
  · rintro ⟨t, ht, hdoomed⟩
    obtain ⟨value, hvalue⟩ := Option.ne_none_iff_exists'.1 (mt constant_eq_none.1 hdoomed)
    exact ⟨_, compile_complete ht hvalue⟩
  · intro program h
    obtain ⟨t, value, ht, hvalue, rfl⟩ := compile_sound h
    refine ⟨t, fun t' => ⟨fun ht' => isExpression_unique ht' ht, fun h => h ▸ ht⟩, fun x hx => ?_⟩
    exact ⟨evaluate_code hvalue hx, run_code_nil hvalue x⟩

end FastEcu.Expression
