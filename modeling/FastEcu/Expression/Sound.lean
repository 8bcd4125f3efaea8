import FastEcu.Expression.Code
import FastEcu.Expression.Literal

/-!
# What the parser accepts

Every parsing function that succeeds has read a text of its part of the grammar, has written the
code of the tree and has folded the tree.  `Parsed` says this once for all of them, and each
function gets it from the ones it calls.

* `chainLoop_sound` : a turn of the loop takes one operator and one item more into the tree.
* `sum_sound` : the parser of sums, at every nesting.
-/

namespace FastEcu.Expression

variable {α : Type} {A : Arithmetic α}

/-! ### Whitespace and tokens -/

theorem blank_nil : Blank [] := fun _ h => nomatch h

theorem blank_append {w w' : List Char} (hw : Blank w) (hw' : Blank w') : Blank (w ++ w') := by
  intro c hc
  obtain hc | hc := List.mem_append.1 hc
  · exact hw c hc
  · exact hw' c hc

theorem skipWhitespace_blank {w : List Char} (hw : Blank w) (s : List Char) :
    skipWhitespace (w ++ s) = skipWhitespace s :=
  List.dropWhile_append_of_pos hw

theorem skipWhitespace_cons {c : Char} (hc : ¬ whitespace c) (s : List Char) :
    skipWhitespace (c :: s) = c :: s :=
  List.dropWhile_cons_of_neg hc

theorem exists_blank (s : List Char) : ∃ w, Blank w ∧ s = w ++ skipWhitespace s :=
  ⟨s.takeWhile whitespace, fun _ hc => List.mem_takeWhile_imp hc,
    List.takeWhile_append_dropWhile.symm⟩

theorem consume_sound {token : Char} {rest tail : List Char} (h : consume token rest = some tail) :
    ∃ w, Blank w ∧ rest = w ++ token :: tail := by
  obtain ⟨w, hw, hrest⟩ := exists_blank rest
  simp only [consume] at h
  split at h
  · cases h
  · rename_i hskip
    split at h
    · rename_i htoken
      cases h
      exact ⟨w, hw, by rw [← htoken, ← hskip, ← hrest]⟩
    · cases h

theorem consume_blank {w : List Char} {c : Char} (hw : Blank w) (hc : ¬ whitespace c)
    (token : Char) (s : List Char) :
    consume token (w ++ c :: s) = if c = token then some s else none := by
  simp only [consume, skipWhitespace_blank hw, skipWhitespace_cons hc]

namespace Parser

/-- From the text `rest` and the code `instructions` a parser has come to `p` by reading a text of
`P`, with the whitespace behind it, and has folded it to `value`. -/
def Parsed (A : Arithmetic α) (P : List Char → Expr → Prop) (rest : List Char)
    (instructions : List (Instruction α)) (value : Option α) (p : Parser α) : Prop :=
  ∃ s w t, rest = s ++ (w ++ p.rest) ∧ Blank w ∧ P s t ∧ constant A t = some value ∧
    p.instructions = instructions ++ code A t

/-- A parsing function reads texts of `P` only. -/
def Sound (A : Arithmetic α) (parse : Parser α → CompileResult α)
    (P : List Char → Expr → Prop) : Prop :=
  ∀ p value p', parse p = .ok (value, p') → Parsed A P p.rest p.instructions value p'

/-! ### Factors -/

theorem number_sound {size : ℕ} {inner : List Char → Expr → Prop} :
    Sound A (number A size) (IsFactor inner) := by
  intro p value p' h
  obtain ⟨w, hw, hrest⟩ := exists_blank p.rest
  simp only [number] at h
  split at h
  · cases h
  · rename_i c tail hskip
    split at h
    · cases h
    · simp only [fromChars] at h
      split at h
      · cases h
      · rename_i v rest hfrom
        split at hfrom
        · cases hfrom
        · rename_i literal behind hscan
          obtain ⟨v, hv, hpair⟩ := Option.map_eq_some_iff.1 hfrom
          obtain ⟨rfl, rfl⟩ := Prod.mk.inj hpair
          obtain ⟨htext, hdecimal⟩ := scanNumber_sound hscan
          split at h
          · cases h
          · rename_i v' hfinite
            cases h
            have hliteral : literalValue A literal = .ok v' := by
              simp only [literalValue, hv, hfinite]
            refine ⟨w ++ literal, [], .literal literal, ?_, blank_nil, .literal hw hdecimal, ?_, ?_⟩
            · rw [hrest, hskip, htext, List.append_assoc]
              rfl
            · simp [constant, hliteral, Except.toOption]
            · simp [code, hliteral, Except.toOption]

theorem primary_sound {size : ℕ} {sum : Option (Parser α → CompileResult α)}
    {inner : List Char → Expr → Prop} (hsum : ∀ parse, sum = some parse → Sound A parse inner) :
    Sound A (primary A size sum) (IsFactor inner) := by
  intro p value p' h
  simp only [primary] at h
  split at h
  · rename_i tail hopen
    obtain ⟨w, hw, hrest⟩ := consume_sound hopen
    split at h
    · cases h
    · rename_i parse
      split at h
      · cases h
      · rename_i v q hparse
        obtain ⟨s, u, t, htail, hu, hs, hconst, hcode⟩ := hsum parse rfl _ _ _ hparse
        split at h
        · cases h
        · rename_i tail' hclose
          cases h
          obtain ⟨w', hw', hq⟩ := consume_sound hclose
          refine ⟨_, [], t, ?_, blank_nil, .parens hw hs (blank_append hu hw'), hconst, hcode⟩
          change tail = _ at htail
          rw [hrest, htail, hq]
          simp
  · split at h
    · rename_i tail hx
      cases h
      obtain ⟨w, hw, hrest⟩ := consume_sound hx
      exact ⟨w ++ ['x'], [], .x, by simp [hrest], blank_nil, .x hw, rfl, rfl⟩
    · exact number_sound p value p' h

/-! ### Signs -/

theorem signs_sound (factor : List Char → Expr → Prop) (fuel : ℕ) (negative : Bool)
    (rest : List Char) :
    ∃ s flip, rest = s ++ (signs fuel negative rest).2 ∧
      (signs fuel negative rest).1 = (negative ^^ flip) ∧
      ∀ s' t, factor s' t → HasSigns factor flip (s ++ s') t := by
  induction fuel generalizing negative rest with
  | zero => exact ⟨[], false, rfl, by simp [signs], fun _ _ h => .bare h⟩
  | succ fuel ih =>
    simp only [signs]
    split
    · rename_i tail hminus
      obtain ⟨w, hw, hrest⟩ := consume_sound hminus
      obtain ⟨s, flip, htail, hflip, hsigns⟩ := ih (!negative) tail
      refine ⟨w ++ '-' :: s, !flip, ?_, by simp [hflip], fun s' t h => ?_⟩
      · rw [hrest, List.append_assoc, List.cons_append, ← htail]
      · rw [List.append_assoc, List.cons_append]
        exact .minus hw (hsigns s' t h)
    · split
      · rename_i tail hplus
        obtain ⟨w, hw, hrest⟩ := consume_sound hplus
        obtain ⟨s, flip, htail, hflip, hsigns⟩ := ih negative tail
        refine ⟨w ++ '+' :: s, flip, ?_, hflip, fun s' t h => ?_⟩
        · rw [hrest, List.append_assoc, List.cons_append, ← htail]
        · rw [List.append_assoc, List.cons_append]
          exact .plus hw (hsigns s' t h)
      · exact ⟨[], false, rfl, by simp, fun _ _ h => .bare h⟩

theorem unary_sound {parse : Parser α → CompileResult α} {factor : List Char → Expr → Prop}
    (hparse : Sound A parse factor) : Sound A (unary A parse) (IsSigned factor) := by
  intro p value p' h
  obtain ⟨s, flip, hrest, hflip, hsigns⟩ := signs_sound factor p.rest.length false p.rest
  rw [Bool.false_xor] at hflip
  simp only [unary, hflip] at h
  split at h
  · cases h
  · rename_i v q hq
    obtain ⟨s', w, t, hs', hw, ht, hconst, hcode⟩ := hparse _ _ _ hq
    have htext : p.rest = (s ++ s') ++ (w ++ q.rest) := by
      rw [List.append_assoc, ← hs', ← hrest]
    cases flip with
    | false =>
      cases h
      exact ⟨s ++ s', w, t, htext, hw, ⟨false, t, hsigns s' t ht, rfl⟩, hconst, hcode⟩
    | true =>
      cases h
      refine ⟨s ++ s', w, .negate t, htext, hw, ⟨true, t, hsigns s' t ht, rfl⟩, ?_, ?_⟩
      · simp only [constant, hconst, Option.map_some]
      · simp only [hcode, code, List.append_assoc]

/-! ### Chains -/

/-- The check of a chain refuses the constant zero divisors, of the operations it can meet. -/
def Refuses (A : Arithmetic α) (operator : Char → Option Operation)
    (refused : Operation → Option α → Parser α → Option EvaluationError) : Prop :=
  ∀ c operation right p, operator c = some operation →
    (refused operation right p = none ↔ ¬ (operation = .div ∧ right.any A.isZero))

theorem refuses_product (size : ℕ) : Refuses A productOperator (zeroDivisor A size) := by
  intro c operation right p _
  simp only [zeroDivisor]
  split <;> simp_all

theorem sumOperator_ne_div {c : Char} {operation : Operation} (h : sumOperator c = some operation) :
    operation ≠ .div := by
  rintro rfl
  simp only [sumOperator] at h
  split at h <;> cases h

theorem refuses_sum : Refuses A sumOperator (fun _ _ _ => none) := by
  intro c operation right p hc
  simp [sumOperator_ne_div hc]

/-- `Binary` folds as the tree does. -/
theorem binary_eq_ok {operation : Operation} {left right value : Option α} {p p' : Parser α}
    (hdiv : ¬ (operation = .div ∧ right.any A.isZero)) :
    binary A operation left right p = .ok (value, p') ↔
      combine A operation left right = some value ∧
        p' = { p with instructions := p.instructions ++ [.binary operation] } := by
  simp only [binary, combine, if_neg hdiv]
  cases left with
  | none => simp [eq_comm]
  | some a =>
    cases right with
    | none => simp [eq_comm]
    | some b => cases hab : apply A operation a b <;> simp [hab, Except.toOption, eq_comm]

variable {operator : Char → Option Operation}
  {refused : Operation → Option α → Parser α → Option EvaluationError}
  {item : Parser α → CompileResult α} {P : List Char → Expr → Prop}

/-- **The loop of a chain**: what is parsed when it starts is parsed when it ends. -/
theorem chainLoop_sound (hitem : Sound A item P) (hrefused : Refuses A operator refused)
    {rest : List Char} {instructions : List (Instruction α)} {fuel : ℕ} {left value : Option α}
    {p p' : Parser α} (hleft : Parsed A (IsChain operator P) rest instructions left p)
    (h : chainLoop A operator refused item fuel left p = .ok (value, p')) :
    Parsed A (IsChain operator P) rest instructions value p' := by
  induction fuel generalizing left p with
  | zero =>
    cases h
    exact hleft
  | succ fuel ih =>
    obtain ⟨s, w, t, hrest, hw, hs, hconst, hcode⟩ := hleft
    obtain ⟨u, hu, hp⟩ := exists_blank p.rest
    simp only [chainLoop] at h
    split at h
    · rename_i hskip
      cases h
      rw [hp, hskip] at hrest
      exact ⟨s, w ++ u, t, by simpa using hrest, blank_append hw hu, hs, hconst, hcode⟩
    · rename_i c tail hskip
      rw [hp, hskip] at hrest
      split at h
      · cases h
        exact ⟨s, w ++ u, t, by simpa using hrest, blank_append hw hu, hs, hconst, hcode⟩
      · rename_i operation hc
        split at h
        · cases h
        · rename_i right q hq
          obtain ⟨s', w', t', hs', hw', ht', hconst', hcode'⟩ := hitem _ _ _ hq
          split at h
          · cases h
          · rename_i hnone
            split at h
            · cases h
            · rename_i v q' hbinary
              -- the turn has read the operator and the right operand
              obtain ⟨hcombine, rfl⟩ := (binary_eq_ok ((hrefused c _ _ _ hc).1 hnone)).1 hbinary
              change tail = _ at hs'
              refine ih ⟨s ++ ((w ++ u) ++ c :: s'), w', .binary operation t t', ?_, hw',
                .more hs (blank_append hw hu) hc ht', ?_, ?_⟩ h
              · rw [hrest, hs']
                simp
              · exact constant_binary.2 ⟨left, right, hconst, hconst', hcombine⟩
              · simp [hcode', hcode, code]

theorem chain_sound (hitem : Sound A item P) (hrefused : Refuses A operator refused) :
    Sound A (chain A operator refused item) (IsChain operator P) := by
  intro p value p' h
  simp only [chain] at h
  split at h
  · cases h
  · rename_i left q hq
    obtain ⟨s, w, t, hrest, hw, hs, hconst, hcode⟩ := hitem _ _ _ hq
    exact chainLoop_sound hitem hrefused ⟨s, w, t, hrest, hw, .one hs, hconst, hcode⟩ h

/-! ### Sums -/

theorem product_sound {size : ℕ} {sum : Option (Parser α → CompileResult α)}
    {inner : List Char → Expr → Prop} (hsum : ∀ parse, sum = some parse → Sound A parse inner) :
    Sound A (product A size sum) (IsProduct inner) :=
  chain_sound (unary_sound (primary_sound hsum)) (refuses_product size)

/-- **The parser of sums reads sums only.** -/
theorem sum_sound (size room : ℕ) : Sound A (sum A size room) (IsSum room) := by
  induction room with
  | zero => exact chain_sound (product_sound fun _ h => nomatch h) refuses_sum
  | succ room ih =>
    refine chain_sound (product_sound fun parse h => ?_) refuses_sum
    cases h
    exact ih

end Parser

end FastEcu.Expression
