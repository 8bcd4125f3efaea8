import FastEcu.Expression.Correct

/-!
# Evaluating a text, and reading a number

The two entry points of `src/algorithms/expression/expression.cpp` that the calibration code uses:
`EvaluateChecked` compiles a text and evaluates it at once, and `ParseFiniteNumber` reads one signed
decimal number.

* `Numbers` : the operations of `double` that the calibration code uses beside the arithmetic of
  expressions; `integers` is an instance to run the model with.
* `evaluate_isSome` : compiled code has a result, so that `evaluateChecked` is total.
-/

namespace FastEcu.Expression

/-- The operations of `double`: those of expressions, and the conversions, comparisons and roundings
of the calibration code. -/
structure Numbers (α : Type) extends Arithmetic α where
  /-- What `std::from_chars` reads from `inf` and from `nan`. -/
  infinity : α
  nan : α
  /-- `operator<` and `operator==`. -/
  lt : α → α → Bool
  eq : α → α → Bool
  /-- The conversion of an integer, and of the bits of a `float`. -/
  ofInt : ℤ → α
  ofFloat : UInt32 → α
  /-- The conversion to an integer, and to the bits of a `float`. -/
  toInt : α → ℤ
  toFloat : α → UInt32
  /-- The largest finite `float`. -/
  floatMax : α
  round : α → α
  abs : α → α
  lerp : α → α → α → α
  /-- What `std::format` writes. -/
  format : α → String

/-- The integers as numbers, which the model can be run with: on integers of a few digits, `double`
does the same. -/
def integers : Numbers ℤ where
  value digits :=
    if digits.all Char.isDigit then
      some (digits.foldl (fun n c => 10 * n + (c.toNat - '0'.toNat : ℕ)) 0)
    else none
  isFinite _ := true
  isZero n := n == 0
  add := (· + ·)
  sub := (· - ·)
  mul := (· * ·)
  div := (· / ·)
  neg := (- ·)
  infinity := 0
  nan := 0
  lt m n := decide (m < n)
  eq m n := m == n
  ofInt n := n
  ofFloat bits := bits.toNat
  toInt n := n
  toFloat n := UInt32.ofNat n.toNat
  floatMax := 2 ^ 32 - 1
  round n := n
  abs n := n.natAbs
  lerp m n t := m + (n - m) * t
  format n := toString n

variable {α : Type}

/-! ### `EvaluateChecked` -/

theorem evaluate_isSome {A : Arithmetic α} {text : List Char} {program : List (Instruction α)}
    (h : compile A text = .ok program) (x : α) : (evaluate A program x).isSome := by
  obtain ⟨t, value, -, hvalue, rfl⟩ := compile_sound h
  by_cases hx : A.isFinite x
  · rw [evaluate_code hvalue hx]
    rfl
  · simp [evaluate, finite, hx]

/-- `EvaluateChecked`. -/
def evaluateChecked (A : Arithmetic α) (expression : List Char) (x : α) :
    Except EvaluationError α :=
  match h : compile A expression with
  | .error e => .error e
  | .ok program => (evaluate A program x).get (evaluate_isSome h x)

/-! ### `ParseFiniteNumber` -/

variable (N : Numbers α)

/-- What is behind `word`, in either case. -/
def stripWord (word text : List Char) : Option (List Char) :=
  if (text.take word.length).map Char.toLower = word then some (text.drop word.length) else none

/-- The characters in parentheses that `nan` may have. -/
def skipPayload (text : List Char) : List Char :=
  match text with
  | '(' :: tail =>
    match tail.dropWhile fun c => c.isAlphanum || c == '_' with
    | ')' :: behind => behind
    | _ => text
  | _ => text

/-- `std::from_chars` of an unsigned text, the words included. -/
def fromCharsUnsigned (text : List Char) : Option (α × List Char) :=
  match stripWord "infinity".toList text with
  | some behind => some (N.infinity, behind)
  | none =>
    match stripWord "inf".toList text with
    | some behind => some (N.infinity, behind)
    | none =>
      match stripWord "nan".toList text with
      | some behind => some (N.nan, skipPayload behind)
      | none => fromChars N.toArithmetic text

/-- `std::from_chars` of a text that may have a minus sign. -/
def fromCharsSigned (text : List Char) : Option (α × List Char) :=
  match text with
  | '-' :: tail => (fromCharsUnsigned N tail).map fun r => (N.neg r.1, r.2)
  | _ => fromCharsUnsigned N text

/-- The number that is all of a text, without a plus sign. -/
def parseWhole (text : List Char) : Except EvaluationError α :=
  if text = [] then .error ⟨"numeric literal is empty"⟩
  else
    match fromCharsSigned N text with
    | some (value, []) => finite N.toArithmetic value
    | _ => .error ⟨"invalid numeric literal"⟩

/-- `ParseFiniteNumber`. -/
def parseFiniteNumber (text : List Char) : Except EvaluationError α :=
  match trimmed text with
  | '+' :: '-' :: _ => .error ⟨"numeric literal has multiple signs"⟩
  | '+' :: '+' :: _ => .error ⟨"numeric literal has multiple signs"⟩
  | '+' :: tail => parseWhole N tail
  | text => parseWhole N text

end FastEcu.Expression
