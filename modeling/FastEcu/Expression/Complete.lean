import FastEcu.Expression.Sound

/-!
# What the parser does not miss

A text of the grammar whose tree folds is read to its end, whatever stands behind it, as long as
that cannot continue the text.  `Completes` says this for a parsing function; where the function
leaves whitespace behind is not said, because a chain skips it and a factor does not.

* `chain_completes` : by induction on the chain, the loop comes to the last item with fuel left.
* `sum_completes` : the parser of sums, at every nesting.
-/

namespace FastEcu.Expression

variable {α : Type} {A : Arithmetic α}

/-- A parsing function reads every text of `P` that folds, if what is behind the text is in
`behind`. -/
def Completes (A : Arithmetic α) (parse : Parser α → CompileResult α)
    (P : List Char → Expr → Prop) (behind : List Char → Prop) : Prop :=
  ∀ s t value, P s t → constant A t = some value → ∀ r instructions, behind r →
    ∃ r', skipWhitespace r' = skipWhitespace r ∧
      parse ⟨s ++ r, instructions⟩ = .ok (value, ⟨r', instructions ++ code A t⟩)

/-- The next token is no operator of the chain. -/
def Stops (operator : Char → Option Operation) (r : List Char) : Prop :=
  ∀ c tail, skipWhitespace r = c :: tail → operator c = none

/-- What may be behind a product. -/
def ProductEnd (r : List Char) : Prop := Follow r ∧ Stops Parser.productOperator r

/-- What may be behind a sum. -/
def SumEnd (r : List Char) : Prop := ProductEnd r ∧ Stops Parser.sumOperator r

theorem follow_blank {w : List Char} {c : Char} {r : List Char} (hw : Blank w)
    (hc : Follow (c :: r)) : Follow (w ++ c :: r) := by
  cases w with
  | nil => exact hc
  | cons d w => exact follow_cons.2 (.inl (hw d List.mem_cons_self))

theorem stops_blank {operator : Char → Option Operation} {w : List Char} {c : Char} {r : List Char}
    (hw : Blank w) (hspace : ¬ whitespace c) (hc : operator c = none) :
    Stops operator (w ++ c :: r) := by
  intro d tail h
  rw [skipWhitespace_blank hw, skipWhitespace_cons hspace] at h
  cases h
  exact hc

theorem sumEnd_paren {w : List Char} (hw : Blank w) (r : List Char) : SumEnd (w ++ ')' :: r) :=
  ⟨⟨follow_blank hw (follow_cons.2 (by decide)), stops_blank hw (by decide) rfl⟩,
    stops_blank hw (by decide) rfl⟩

theorem sumEnd_blank {w : List Char} (hw : Blank w) : SumEnd w := by
  have hstops : ∀ operator, Stops operator w := by
    intro operator c tail h
    rw [← List.append_nil w, skipWhitespace_blank hw] at h
    cases h
  refine ⟨⟨?_, hstops _⟩, hstops _⟩
  cases w with
  | nil => exact follow_nil
  | cons c w => exact follow_cons.2 (.inl (hw c List.mem_cons_self))

namespace Parser

/-! ### Factors -/

theorem isDecimal_head {s : List Char} (h : IsDecimal s) :
    ∃ c s', s = c :: s' ∧ (c = '.' ∨ c.isDigit) := by
  obtain ⟨m, e, rfl, hm, -⟩ := h
  cases hm with
  | whole hs hne =>
    obtain ⟨c, m, rfl⟩ := List.exists_cons_of_ne_nil hne
    exact ⟨c, m ++ e, rfl, .inr (hs c List.mem_cons_self)⟩
  | @point s f hs _ _ =>
    cases s with
    | nil => exact ⟨'.', f ++ e, rfl, .inl rfl⟩
    | cons c s => exact ⟨c, s ++ '.' :: f ++ e, by simp, .inr (hs c List.mem_cons_self)⟩

/-- The first token of a factor. -/
theorem isFactor_head {inner : List Char → Expr → Prop} {s : List Char} {t : Expr}
    (h : IsFactor inner s t) :
    ∃ w c s', s = w ++ c :: s' ∧ Blank w ∧ (c = '(' ∨ c = 'x' ∨ c = '.' ∨ c.isDigit) := by
  cases h with
  | parens hw => exact ⟨_, '(', _, rfl, hw, .inl rfl⟩
  | x hw => exact ⟨_, 'x', [], rfl, hw, .inr (.inl rfl)⟩
  | literal hw hs =>
    obtain ⟨c, s', rfl, hc⟩ := isDecimal_head hs
    exact ⟨_, c, s', rfl, hw, .inr (.inr hc)⟩

theorem factor_token {c : Char} (h : c = '(' ∨ c = 'x' ∨ c = '.' ∨ c.isDigit) :
    ¬ whitespace c ∧ c ≠ '+' ∧ c ≠ '-' := by
  obtain rfl | rfl | rfl | h := h
  · decide
  · decide
  · decide
  · refine ⟨not_whitespace_of_isDigit h, ?_, ?_⟩ <;> rintro rfl <;> simp at h

theorem number_completes {size : ℕ} {w s r : List Char} {value : Option α} (hw : Blank w)
    (hs : IsDecimal s) (hvalue : constant A (.literal s) = some value) (hr : Follow r)
    (instructions : List (Instruction α)) :
    number A size ⟨w ++ (s ++ r), instructions⟩ =
      .ok (value, ⟨r, instructions ++ code A (.literal s)⟩) := by
  obtain ⟨c, s', hcs, hc⟩ := isDecimal_head hs
  have hskip : skipWhitespace (w ++ (s ++ r)) = c :: (s' ++ r) := by
    rw [skipWhitespace_blank hw, hcs, List.cons_append,
      skipWhitespace_cons (factor_token (.inr (.inr hc))).1]
  have hscan : scanNumber (c :: (s' ++ r)) = some (s, r) := by
    rw [← List.cons_append, ← hcs, scanNumber_complete hs hr]
  have hhead : ¬ (c ≠ '.' ∧ ¬ c.isDigit) := by
    rintro ⟨hpoint, hdigit⟩
    exact hc.elim hpoint hdigit
  simp only [constant, Option.map_eq_some_iff] at hvalue
  obtain ⟨v, hv, rfl⟩ := hvalue
  cases hlit : literalValue A s with
  | error e => rw [hlit] at hv; cases hv
  | ok v' =>
    rw [hlit] at hv
    cases hv
    cases hval : A.value s with
    | none => simp [literalValue, hval] at hlit
    | some u =>
      simp only [literalValue, hval] at hlit
      simp only [number, hskip, if_neg hhead, fromChars, hscan, hval, Option.map_some, hlit, code,
        literalValue]
      rfl

theorem primary_completes {size : ℕ} {sum : Option (Parser α → CompileResult α)}
    {inner : List Char → Expr → Prop}
    (hsum : ∀ s t, inner s t → ∃ parse, sum = some parse ∧ Completes A parse inner SumEnd) :
    Completes A (primary A size sum) (IsFactor inner) Follow := by
  intro s t value h hvalue r instructions hr
  refine ⟨r, rfl, ?_⟩
  cases h with
  | @parens w s w' _ hw hs hw' =>
    obtain ⟨parse, rfl, hparse⟩ := hsum s t hs
    obtain ⟨r', hskip, hok⟩ :=
      hparse s t value hs hvalue (w' ++ ')' :: r) instructions (sumEnd_paren hw' r)
    have hclose : consume ')' r' = some r := by
      simp only [consume, hskip, skipWhitespace_blank hw',
        skipWhitespace_cons (show ¬ whitespace ')' by decide), if_pos]
    simp only [primary, List.append_assoc, List.cons_append, List.nil_append,
      consume_blank hw (show ¬ whitespace '(' by decide), if_pos, hok, hclose]
  | @x w hw =>
    cases hvalue
    simp only [primary, List.append_assoc, List.cons_append, List.nil_append,
      consume_blank hw (show ¬ whitespace 'x' by decide), if_pos, code]
    rfl
  | @literal w s hw hs =>
    -- a literal starts with neither a parenthesis nor the variable
    obtain ⟨c, s', hcs, hc⟩ := isDecimal_head hs
    have hspace := (factor_token (.inr (.inr hc))).1
    have hne : c ≠ '(' ∧ c ≠ 'x' := by
      constructor <;> rintro rfl <;> simp at hc
    have htext : w ++ s ++ r = w ++ c :: (s' ++ r) := by rw [hcs]; simp
    simp only [primary, htext, consume_blank hw hspace, if_neg hne.1, if_neg hne.2]
    rw [← htext, List.append_assoc]
    exact number_completes hw hs hvalue hr instructions

/-! ### Signs -/

/-- The loop over the signs comes to the factor. -/
theorem signs_complete {inner : List Char → Expr → Prop} {flip : Bool} {s r : List Char} {t : Expr}
    (h : HasSigns (IsFactor inner) flip s t) {fuel : ℕ} (hfuel : (s ++ r).length ≤ fuel)
    (negative : Bool) :
    ∃ s', IsFactor inner s' t ∧ signs fuel negative (s ++ r) = ((negative ^^ flip), s' ++ r) := by
  induction h generalizing fuel negative with
  | @bare s t hs =>
    refine ⟨s, hs, ?_⟩
    obtain ⟨w, c, s', rfl, hw, hc⟩ := isFactor_head hs
    obtain ⟨hspace, hplus, hminus⟩ := factor_token hc
    cases fuel with
    | zero => simp [signs]
    | succ fuel =>
      simp only [signs, List.append_assoc, List.cons_append, consume_blank hw hspace, if_neg hplus,
        if_neg hminus, Bool.xor_false]
  | @plus flip w s t hw _ ih =>
    cases fuel with
    | zero => simp at hfuel
    | succ fuel =>
      have hfuel' : (s ++ r).length ≤ fuel := by
        simp only [List.length_append, List.length_cons] at hfuel ⊢
        omega
      obtain ⟨s', hs', hsigns⟩ := ih hfuel' negative
      refine ⟨s', hs', ?_⟩
      rw [← hsigns]
      simp [signs, List.append_assoc, consume_blank hw (show ¬ whitespace '+' by decide)]
  | @minus flip w s t hw _ ih =>
    cases fuel with
    | zero => simp at hfuel
    | succ fuel =>
      have hfuel' : (s ++ r).length ≤ fuel := by
        simp only [List.length_append, List.length_cons] at hfuel ⊢
        omega
      obtain ⟨s', hs', hsigns⟩ := ih hfuel' (!negative)
      refine ⟨s', hs', ?_⟩
      have hxor : (negative ^^ !flip) = (!negative ^^ flip) := by cases negative <;> simp
      rw [hxor, ← hsigns]
      simp [signs, List.append_assoc, consume_blank hw (show ¬ whitespace '-' by decide)]

theorem unary_completes {parse : Parser α → CompileResult α} {inner : List Char → Expr → Prop}
    (hparse : Completes A parse (IsFactor inner) Follow) :
    Completes A (unary A parse) (IsSigned (IsFactor inner)) Follow := by
  rintro s t value ⟨negative, u, hs, rfl⟩ hvalue r instructions hr
  obtain ⟨s', hs', hsigns⟩ := signs_complete (r := r) hs le_rfl false
  rw [Bool.false_xor] at hsigns
  cases negative with
  | false =>
    obtain ⟨r', hskip, hok⟩ := hparse s' u value hs' hvalue r instructions hr
    refine ⟨r', hskip, ?_⟩
    simp only [unary, hsigns, hok]
    rfl
  | true =>
    simp only [if_true, constant, Option.map_eq_some_iff] at hvalue
    obtain ⟨v, hv, rfl⟩ := hvalue
    obtain ⟨r', hskip, hok⟩ := hparse s' u v hs' hv r instructions hr
    refine ⟨r', hskip, ?_⟩
    simp only [unary, hsigns, hok, if_true, code, List.append_assoc]

/-! ### Chains -/

variable {operator : Char → Option Operation}
  {refused : Operation → Option α → Parser α → Option EvaluationError}
  {item : Parser α → CompileResult α} {P : List Char → Expr → Prop} {behind : List Char → Prop}

theorem combine_some {operation : Operation} {left right value : Option α}
    (h : combine A operation left right = some value) :
    ¬ (operation = .div ∧ right.any A.isZero) := by
  intro hdiv
  simp only [combine, if_pos hdiv, reduceCtorEq] at h

/-- Having read the chain `s`, the loop is about to look at what is behind it, with fuel for as
many turns as there are characters. -/
theorem chain_reaches (hitem : Completes A item P behind) (hrefused : Refuses A operator refused)
    (hspace : ∀ c operation, operator c = some operation → ¬ whitespace c)
    (hbehind : ∀ w c operation r, Blank w → operator c = some operation → behind (w ++ c :: r))
    {s : List Char} {t : Expr} {value : Option α} (h : IsChain operator P s t)
    (hvalue : constant A t = some value) {r : List Char} (hr : behind r)
    (instructions : List (Instruction α)) :
    ∃ fuel r', skipWhitespace r' = skipWhitespace r ∧ (skipWhitespace r).length ≤ fuel ∧
      chain A operator refused item ⟨s ++ r, instructions⟩ =
        chainLoop A operator refused item fuel value ⟨r', instructions ++ code A t⟩ := by
  induction h generalizing value r with
  | @one s t hs =>
    obtain ⟨r', hskip, hok⟩ := hitem s t value hs hvalue r instructions hr
    refine ⟨r'.length, r', hskip, ?_, by simp only [chain, hok]⟩
    rw [← hskip]
    exact (List.dropWhile_suffix _).length_le
  | @more s w s' c operation l u hs hw hc hs' ih =>
    obtain ⟨left, right, hl, hu, hcombine⟩ := constant_binary.1 hvalue
    obtain ⟨fuel, r₁, hskip, hfuel, hchain⟩ :=
      ih (r := w ++ c :: (s' ++ r)) hl (hbehind w c operation _ hw hc)
    rw [skipWhitespace_blank hw, skipWhitespace_cons (hspace c operation hc)] at hskip hfuel
    obtain ⟨r₂, hskip₂, hok⟩ := hitem s' u right hs' hu r (instructions ++ code A l) hr
    cases fuel with
    | zero => simp at hfuel
    | succ fuel =>
      refine ⟨fuel, r₂, hskip₂, ?_, ?_⟩
      · have hdrop : (skipWhitespace r).length ≤ r.length :=
          (List.dropWhile_suffix _).length_le
        simp only [List.length_cons, List.length_append] at hfuel
        omega
      · have hnone := (hrefused c operation right ⟨r₂, instructions ++ code A l ++ code A u⟩ hc).2
          (combine_some hcombine)
        have hbinary := (binary_eq_ok (p := ⟨r₂, instructions ++ code A l ++ code A u⟩)
          (combine_some hcombine)).2 ⟨hcombine, rfl⟩
        have htext : s ++ (w ++ c :: s') ++ r = s ++ (w ++ c :: (s' ++ r)) := by simp
        rw [htext, hchain]
        simp only [chainLoop, hskip, hc, hok, hnone, hbinary]
        simp only [code, List.append_assoc]

theorem chainLoop_stops {fuel : ℕ} {value : Option α} {r : List Char}
    {instructions : List (Instruction α)} (hr : Stops operator r) :
    ∃ r', skipWhitespace r' = skipWhitespace r ∧
      chainLoop A operator refused item fuel value ⟨r, instructions⟩ =
        .ok (value, ⟨r', instructions⟩) := by
  cases fuel with
  | zero => exact ⟨r, rfl, rfl⟩
  | succ fuel =>
    refine ⟨skipWhitespace r, List.dropWhile_idempotent _ _, ?_⟩
    simp only [chainLoop]
    split
    · rename_i hnil
      rw [hnil]
    · rename_i c tail hcons
      rw [hr c tail hcons, hcons]

/-- **The loop of a chain reads it to its end.** -/
theorem chain_completes (hitem : Completes A item P behind) (hrefused : Refuses A operator refused)
    (hspace : ∀ c operation, operator c = some operation → ¬ whitespace c)
    (hbehind : ∀ w c operation r, Blank w → operator c = some operation → behind (w ++ c :: r)) :
    Completes A (chain A operator refused item) (IsChain operator P)
      (fun r => behind r ∧ Stops operator r) := by
  intro s t value h hvalue r instructions hr
  obtain ⟨fuel, r₁, hskip₁, -, hchain⟩ :=
    chain_reaches hitem hrefused hspace hbehind h hvalue hr.1 instructions
  have hstops : Stops operator r₁ := fun c tail hc => hr.2 c tail (hskip₁ ▸ hc)
  obtain ⟨r', hskip, hok⟩ := chainLoop_stops hstops
  exact ⟨r', hskip.trans hskip₁, hchain.trans hok⟩

/-! ### Sums -/

theorem productOperator_eq_some {c : Char} {operation : Operation}
    (h : productOperator c = some operation) : c = '*' ∨ c = '/' := by
  simp only [productOperator] at h
  split at h
  · exact .inl rfl
  · exact .inr rfl
  · cases h

theorem sumOperator_eq_some {c : Char} {operation : Operation}
    (h : sumOperator c = some operation) : c = '+' ∨ c = '-' := by
  simp only [sumOperator] at h
  split at h
  · exact .inl rfl
  · exact .inr rfl
  · cases h

theorem product_completes {size : ℕ} {sum : Option (Parser α → CompileResult α)}
    {inner : List Char → Expr → Prop}
    (hsum : ∀ s t, inner s t → ∃ parse, sum = some parse ∧ Completes A parse inner SumEnd) :
    Completes A (product A size sum) (IsProduct inner) ProductEnd := by
  refine chain_completes (unary_completes (primary_completes hsum)) (refuses_product size) ?_ ?_
  · intro c operation hc
    obtain rfl | rfl := productOperator_eq_some hc <;> decide
  · intro w c operation r hw hc
    refine follow_blank hw (follow_cons.2 ?_)
    obtain rfl | rfl := productOperator_eq_some hc <;> decide

theorem sumChain_completes {size : ℕ} {sum : Option (Parser α → CompileResult α)}
    {inner : List Char → Expr → Prop}
    (hsum : ∀ s t, inner s t → ∃ parse, sum = some parse ∧ Completes A parse inner SumEnd) :
    Completes A (chain A sumOperator (fun _ _ _ => none) (product A size sum))
      (IsChain sumOperator (IsProduct inner)) SumEnd := by
  refine chain_completes (product_completes hsum) refuses_sum ?_ ?_
  · intro c operation hc
    obtain rfl | rfl := sumOperator_eq_some hc <;> decide
  · intro w c operation r hw hc
    obtain rfl | rfl := sumOperator_eq_some hc
    · exact ⟨follow_blank hw (follow_cons.2 (by decide)), stops_blank hw (by decide) rfl⟩
    · exact ⟨follow_blank hw (follow_cons.2 (by decide)), stops_blank hw (by decide) rfl⟩

/-- **The parser of sums misses no sum that folds.** -/
theorem sum_completes (size room : ℕ) : Completes A (sum A size room) (IsSum room) SumEnd := by
  induction room with
  | zero => exact sumChain_completes fun _ _ h => h.elim
  | succ room ih => exact sumChain_completes fun _ _ _ => ⟨_, rfl, ih⟩

end Parser

end FastEcu.Expression
