import FastEcu.Expression.Compile

/-!
# The language of expressions

What the expression compiler is for, said without it: the parse trees, their value, the texts that
each tree has, and the trees that a constant error spoils.

* `IsExpression` : the texts of the language, with their parse tree.
* `eval` : the value of a tree, by recursion on it.
* `Doomed` : a constant part of the tree has no value, or a constant divisor is zero.
* `eval_of_doomed` : a doomed tree has no value, whatever the variable is.
-/

namespace FastEcu.Expression

/-- A parse tree. -/
inductive Expr where
  | literal (digits : List Char)
  | x
  | negate (operand : Expr)
  | binary (operation : Operation) (left right : Expr)

/-! ### The grammar -/

/-- A text of whitespace. -/
def Blank (w : List Char) : Prop := ∀ c ∈ w, whitespace c

/-- A run of digits. -/
def Digits (s : List Char) : Prop := ∀ c ∈ s, c.isDigit

/-- Digits, with a point among them or around them. -/
inductive IsMantissa : List Char → Prop
  | whole {s : List Char} (hs : Digits s) (hne : s ≠ []) : IsMantissa s
  | point {s f : List Char} (hs : Digits s) (hf : Digits f) (hne : s ≠ [] ∨ f ≠ []) :
      IsMantissa (s ++ '.' :: f)

/-- A sign, or none. -/
inductive IsSign : List Char → Prop
  | none : IsSign []
  | plus : IsSign ['+']
  | minus : IsSign ['-']

/-- An exponent, or none. -/
inductive IsExponent : List Char → Prop
  | none : IsExponent []
  | some {e : Char} {sign s : List Char} (he : e = 'e' ∨ e = 'E') (hsign : IsSign sign)
      (hs : Digits s) (hne : s ≠ []) : IsExponent (e :: (sign ++ s))

/-- A decimal literal. -/
def IsDecimal (s : List Char) : Prop :=
  ∃ m e, s = m ++ e ∧ IsMantissa m ∧ IsExponent e

/-- A decimal literal, the variable or a text of `inner` in parentheses. -/
inductive IsFactor (inner : List Char → Expr → Prop) : List Char → Expr → Prop
  | parens {w s w' : List Char} {t : Expr} (hw : Blank w) (hs : inner s t) (hw' : Blank w') :
      IsFactor inner (w ++ '(' :: (s ++ (w' ++ [')']))) t
  | x {w : List Char} (hw : Blank w) : IsFactor inner (w ++ ['x']) .x
  | literal {w s : List Char} (hw : Blank w) (hs : IsDecimal s) :
      IsFactor inner (w ++ s) (.literal s)

/-- A factor behind any number of signs; the flag is set by an odd number of minus signs. -/
inductive HasSigns (factor : List Char → Expr → Prop) : Bool → List Char → Expr → Prop
  | bare {s : List Char} {t : Expr} (hs : factor s t) : HasSigns factor false s t
  | plus {negative : Bool} {w s : List Char} {t : Expr} (hw : Blank w)
      (hs : HasSigns factor negative s t) : HasSigns factor negative (w ++ '+' :: s) t
  | minus {negative : Bool} {w s : List Char} {t : Expr} (hw : Blank w)
      (hs : HasSigns factor negative s t) : HasSigns factor (!negative) (w ++ '-' :: s) t

/-- A factor, negated by an odd number of minus signs. -/
def IsSigned (factor : List Char → Expr → Prop) (s : List Char) (t : Expr) : Prop :=
  ∃ negative u, HasSigns factor negative s u ∧ t = if negative then .negate u else u

/-- Items with operators between them; the tree leans to the left. -/
inductive IsChain (operator : Char → Option Operation) (item : List Char → Expr → Prop) :
    List Char → Expr → Prop
  | one {s : List Char} {t : Expr} (hs : item s t) : IsChain operator item s t
  | more {s w s' : List Char} {c : Char} {operation : Operation} {l r : Expr}
      (hs : IsChain operator item s l) (hw : Blank w) (hc : operator c = some operation)
      (hs' : item s' r) : IsChain operator item (s ++ (w ++ c :: s')) (.binary operation l r)

/-- Products and quotients of signed factors. -/
def IsProduct (inner : List Char → Expr → Prop) : List Char → Expr → Prop :=
  IsChain Parser.productOperator (IsSigned (IsFactor inner))

/-- Sums and differences of products, with at most `room` parentheses inside one another. -/
def IsSum : ℕ → List Char → Expr → Prop
  | 0 => IsChain Parser.sumOperator (IsProduct fun _ _ => False)
  | room + 1 => IsChain Parser.sumOperator (IsProduct (IsSum room))

/-- **The language**: blank text, which stands for the variable, or a sum. -/
inductive IsExpression : List Char → Expr → Prop
  | blank {w : List Char} (hw : Blank w) : IsExpression w .x
  | sum {s w : List Char} {t : Expr} (hs : IsSum Parser.kMaximumNesting s t) (hw : Blank w) :
      IsExpression (s ++ w) t

/-! ### The value of a tree -/

variable {α : Type} (A : Arithmetic α)

/-- The value of a literal. -/
def literalValue (digits : List Char) : Except EvaluationError α :=
  match A.value digits with
  | none => .error ⟨"invalid numeric literal"⟩
  | some value => finite A value

/-- **The value of a tree**, at a value of the variable. -/
def eval (x : α) : Expr → Except EvaluationError α
  | .literal digits => literalValue A digits
  | .x => .ok x
  | .negate t =>
    match eval x t with
    | .error e => .error e
    | .ok value => .ok (A.neg value)
  | .binary operation l r =>
    match eval x l with
    | .error e => .error e
    | .ok left =>
      match eval x r with
      | .error e => .error e
      | .ok right => apply A operation left right

/-- The tree has no variable. -/
def Closed : Expr → Prop
  | .literal _ => True
  | .x => False
  | .negate t => Closed t
  | .binary _ l r => Closed l ∧ Closed r

/-- The parts of a tree, itself among them. -/
inductive Part : Expr → Expr → Prop
  | refl {t : Expr} : Part t t
  | negate {u t : Expr} (h : Part u t) : Part u (.negate t)
  | left {u l r : Expr} {operation : Operation} (h : Part u l) : Part u (.binary operation l r)
  | right {u l r : Expr} {operation : Operation} (h : Part u r) : Part u (.binary operation l r)

/-- A tree without a variable that has no value, or a quotient whose divisor has no variable and is
zero. -/
inductive ConstantError : Expr → Prop
  | closed {u : Expr} (hu : Closed u) (h : ∀ x value, eval A x u ≠ .ok value) : ConstantError u
  | divisor {l d : Expr} {zero : α} (hd : Closed d) (h : ∀ x, eval A x d = .ok zero)
      (hzero : A.isZero zero) : ConstantError (.binary .div l d)

/-- **A constant error spoils the tree.** -/
def Doomed (t : Expr) : Prop := ∃ u, Part u t ∧ ConstantError A u

variable {A}

theorem eval_negate_eq_ok {x : α} {t : Expr} {value : α} :
    eval A x (.negate t) = .ok value ↔ ∃ u, eval A x t = .ok u ∧ A.neg u = value := by
  simp only [eval]
  split <;> simp_all

theorem eval_binary_eq_ok {x : α} {operation : Operation} {l r : Expr} {value : α} :
    eval A x (.binary operation l r) = .ok value ↔
      ∃ left right, eval A x l = .ok left ∧ eval A x r = .ok right ∧
        apply A operation left right = .ok value := by
  simp only [eval]
  split
  · simp_all
  · split <;> simp_all

theorem eval_of_part {x : α} {u t : Expr} (h : Part u t) (hu : ∀ value, eval A x u ≠ .ok value)
    (value : α) : eval A x t ≠ .ok value := by
  induction h generalizing value with
  | refl => exact hu value
  | negate _ ih =>
    rw [Ne, eval_negate_eq_ok]
    rintro ⟨v, hv, -⟩
    exact ih v hv
  | left _ ih =>
    rw [Ne, eval_binary_eq_ok]
    rintro ⟨left, -, hl, -, -⟩
    exact ih left hl
  | right _ ih =>
    rw [Ne, eval_binary_eq_ok]
    rintro ⟨-, right, -, hr, -⟩
    exact ih right hr

theorem eval_of_constantError {x : α} {u : Expr} (h : ConstantError A u) (value : α) :
    eval A x u ≠ .ok value := by
  cases h with
  | closed _ h => exact h x value
  | divisor _ h hzero =>
    rw [Ne, eval_binary_eq_ok]
    rintro ⟨left, right, -, hr, hap⟩
    obtain rfl := Except.ok.inj ((h x).symm.trans hr)
    rw [apply, if_pos hzero] at hap
    cases hap

/-- **A constant error is raised for every value of the variable.** -/
theorem eval_of_doomed {t : Expr} (h : Doomed A t) (x value : α) :
    eval A x t ≠ .ok value := by
  obtain ⟨u, hut, hu⟩ := h
  exact eval_of_part hut (eval_of_constantError hu) value

end FastEcu.Expression
