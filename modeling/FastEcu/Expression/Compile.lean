import Mathlib.Data.List.DropRight
import Mathlib.Algebra.Order.Ring.Int

/-!
# The expression compiler

The conversion expressions of a definition (`src/algorithms/expression/expression.cpp`).  `compile`
is a recursive-descent parser that appends stack code as it goes and folds the constants it meets,
so that a constant error is found at once; `evaluate` runs the code.

The numbers are a parameter: an `Arithmetic` has the operations of `double` that the code uses, and
none of their laws.  A text is a list of characters, and the parser holds the characters it has not
read; `position_` is what the size of the text leaves.
-/

namespace FastEcu.Expression

/-- `EvaluationError`. -/
structure EvaluationError where
  detail : String
  deriving Repr, DecidableEq

/-- The operations on numbers.  `value` is the number that `std::from_chars` reads from a decimal
literal, if it is in range. -/
structure Arithmetic (α : Type) where
  value : List Char → Option α
  isFinite : α → Bool
  isZero : α → Bool
  add : α → α → α
  sub : α → α → α
  mul : α → α → α
  div : α → α → α
  neg : α → α

/-- The binary operations, `'+'`, `'-'`, `'*'` and `'/'`. -/
inductive Operation where
  | add
  | sub
  | mul
  | div
  deriving Repr, DecidableEq

/-- `Instruction`: `'n'`, `'x'`, `'~'` or a binary operation. -/
inductive Instruction (α : Type) where
  | number (value : α)
  | x
  | negate
  | binary (operation : Operation)
  deriving Repr, DecidableEq

/-- `Whitespace`. -/
def whitespace (character : Char) : Bool :=
  character == ' ' || character == '\t' || character == '\n' || character == '\r' ||
    character == '\x0c' || character == '\x0b'

/-- `Trimmed`. -/
def trimmed (text : List Char) : List Char :=
  (text.dropWhile whitespace).rdropWhile whitespace

/-- `SkipWhitespace`. -/
def skipWhitespace (rest : List Char) : List Char := rest.dropWhile whitespace

/-- `Consume`: the text behind the token. -/
def consume (token : Char) (rest : List Char) : Option (List Char) :=
  match skipWhitespace rest with
  | [] => none
  | c :: tail => if c = token then some tail else none

/-! ### Decimal literals -/

/-- The sign that an exponent may have. -/
def exponentSign : List Char → List Char
  | '+' :: _ => ['+']
  | '-' :: _ => ['-']
  | _ => []

/-- The exponent that a literal may have: nothing is read where no digit follows. -/
def scanExponent (text : List Char) : List Char × List Char :=
  match text with
  | [] => ([], [])
  | e :: tail =>
    let sign := exponentSign tail
    let digits := (tail.drop sign.length).takeWhile Char.isDigit
    if (e = 'e' ∨ e = 'E') ∧ digits ≠ [] then
      (e :: (sign ++ digits), (tail.drop sign.length).dropWhile Char.isDigit)
    else ([], text)

/-- The fraction that a literal may have. -/
def scanFraction (text : List Char) : List Char × List Char :=
  match text with
  | '.' :: tail => ('.' :: tail.takeWhile Char.isDigit, tail.dropWhile Char.isDigit)
  | _ => ([], text)

/-- The longest literal that `std::chars_format::general` reads from an unsigned text, and what is
behind it. -/
def scanNumber (text : List Char) : Option (List Char × List Char) :=
  let whole := text.takeWhile Char.isDigit
  let fraction := scanFraction (text.dropWhile Char.isDigit)
  let exponent := scanExponent fraction.2
  if whole = [] ∧ fraction.1.length ≤ 1 then none
  else some (whole ++ fraction.1 ++ exponent.1, exponent.2)

variable {α : Type} (A : Arithmetic α)

/-- `std::from_chars`. -/
def fromChars (text : List Char) : Option (α × List Char) :=
  match scanNumber text with
  | none => none
  | some (literal, behind) => (A.value literal).map (·, behind)

/-- `Finite`. -/
def finite (value : α) : Except EvaluationError α :=
  if A.isFinite value then .ok value else .error ⟨"numeric value is not finite"⟩

/-- `Apply`. -/
def apply (operation : Operation) (left right : α) : Except EvaluationError α :=
  match operation with
  | .add => finite A (A.add left right)
  | .sub => finite A (A.sub left right)
  | .mul => finite A (A.mul left right)
  | .div =>
    if A.isZero right then .error ⟨"cannot divide by zero"⟩ else finite A (A.div left right)

/-! ### The parser -/

/-- The text that `Parser` has not read and the code that it has written. -/
structure Parser (α : Type) where
  rest : List Char
  instructions : List (Instruction α)

/-- What a parsing function returns: the constant that it has folded, if the text has no variable,
and the parser behind it. -/
abbrev CompileResult (α : Type) := Except EvaluationError (Option α × Parser α)

namespace Parser

variable (size : ℕ)

/-- `Error`. -/
def error (detail : String) (rest : List Char) : EvaluationError :=
  ⟨s!"{detail} at position {size - rest.length}"⟩

/-- `Binary`. -/
def binary (operation : Operation) (left right : Option α) (p : Parser α) : CompileResult α :=
  let p := { p with instructions := p.instructions ++ [.binary operation] }
  match left, right with
  | some left, some right =>
    match apply A operation left right with
    | .error e => .error e
    | .ok value => .ok (some value, p)
  | _, _ => .ok (none, p)

/-- The loop that `Sum` and `Product` share.  Each turn reads an operator, so the characters that
are left bound the turns. -/
def chainLoop (operator : Char → Option Operation)
    (refused : Operation → Option α → Parser α → Option EvaluationError)
    (item : Parser α → CompileResult α) : ℕ → Option α → Parser α → CompileResult α
  | 0, left, p => .ok (left, p)
  | fuel + 1, left, p =>
    match skipWhitespace p.rest with
    | [] => .ok (left, { p with rest := [] })
    | c :: tail =>
      match operator c with
      | none => .ok (left, { p with rest := c :: tail })
      | some operation =>
        match item { p with rest := tail } with
        | .error e => .error e
        | .ok (right, p) =>
          match refused operation right p with
          | some e => .error e
          | none =>
            match binary A operation left right p with
            | .error e => .error e
            | .ok (left, p) => chainLoop operator refused item fuel left p

/-- An item, and then the loop. -/
def chain (operator : Char → Option Operation)
    (refused : Operation → Option α → Parser α → Option EvaluationError)
    (item : Parser α → CompileResult α) (p : Parser α) : CompileResult α :=
  match item p with
  | .error e => .error e
  | .ok (left, p) => chainLoop A operator refused item p.rest.length left p

/-- The signs of `Unary`; the flag is set by an odd number of minus signs. -/
def signs : ℕ → Bool → List Char → Bool × List Char
  | 0, negative, rest => (negative, rest)
  | fuel + 1, negative, rest =>
    match consume '-' rest with
    | some tail => signs fuel (!negative) tail
    | none =>
      match consume '+' rest with
      | some tail => signs fuel negative tail
      | none => (negative, rest)

/-- `Unary`. -/
def unary (primary : Parser α → CompileResult α) (p : Parser α) : CompileResult α :=
  let (negative, rest) := signs p.rest.length false p.rest
  match primary { p with rest } with
  | .error e => .error e
  | .ok (value, p) =>
    if negative then
      .ok (value.map A.neg, { p with instructions := p.instructions ++ [.negate] })
    else .ok (value, p)

/-- The literal of `Primary`. -/
def number (p : Parser α) : CompileResult α :=
  match skipWhitespace p.rest with
  | [] => .error (error size "expected a number, x, or parenthesized expression" [])
  | c :: tail =>
    if c ≠ '.' ∧ ¬ c.isDigit then
      .error (error size "expected a number, x, or parenthesized expression" (c :: tail))
    else
      match fromChars A (c :: tail) with
      | none => .error (error size "invalid numeric literal" (c :: tail))
      | some (value, rest) =>
        match finite A value with
        | .error e => .error e
        | .ok value =>
          .ok (some value, { p with rest, instructions := p.instructions ++ [.number value] })

/-- `Primary`, with the parser of what stands in parentheses, unless `nesting_` has reached
`kMaximumNesting`. -/
def primary (sum : Option (Parser α → CompileResult α)) (p : Parser α) : CompileResult α :=
  match consume '(' p.rest with
  | some tail =>
    match sum with
    | none => .error (error size "expression nesting is too deep" tail)
    | some sum =>
      match sum { p with rest := tail } with
      | .error e => .error e
      | .ok (value, p) =>
        match consume ')' p.rest with
        | none => .error (error size "missing closing parenthesis" (skipWhitespace p.rest))
        | some tail => .ok (value, { p with rest := tail })
  | none =>
    match consume 'x' p.rest with
    | some tail =>
      .ok (none, { p with rest := tail, instructions := p.instructions ++ [.x] })
    | none => number A size p

/-- The operators of `Product`. -/
def productOperator : Char → Option Operation
  | '*' => some .mul
  | '/' => some .div
  | _ => none

/-- The operators of `Sum`. -/
def sumOperator : Char → Option Operation
  | '+' => some .add
  | '-' => some .sub
  | _ => none

/-- The check that only `Product` makes: a constant zero does not divide, whatever it divides. -/
def zeroDivisor (operation : Operation) (right : Option α) (p : Parser α) :
    Option EvaluationError :=
  if operation = .div ∧ right.any A.isZero then some (error size "cannot divide by zero" p.rest)
  else none

/-- `Product`. -/
def product (sum : Option (Parser α → CompileResult α)) : Parser α → CompileResult α :=
  chain A productOperator (zeroDivisor A size) (unary A (primary A size sum))

/-- `Sum`, where `room` more parentheses may be opened: `kMaximumNesting - nesting_`. -/
def sum : ℕ → Parser α → CompileResult α
  | 0 => chain A sumOperator (fun _ _ _ => none) (product A size none)
  | room + 1 => chain A sumOperator (fun _ _ _ => none) (product A size (some (sum room)))

/-- `kMaximumNesting`. -/
def kMaximumNesting : ℕ := 8

/-- `Parser::Compile`. -/
def compile (text : List Char) : CompileResult α :=
  match sum A text.length kMaximumNesting ⟨text, []⟩ with
  | .error e => .error e
  | .ok (value, p) =>
    match skipWhitespace p.rest with
    | [] => .ok (value, { p with rest := [] })
    | c :: tail => .error (error text.length "unexpected token" (c :: tail))

end Parser

/-! ### The compiled expression -/

/-- `Compile`. -/
def compile (expression : List Char) : Except EvaluationError (List (Instruction α)) :=
  match trimmed expression with
  | [] => .ok [.x]
  | c :: tail =>
    match Parser.compile A (c :: tail) with
    | .error e => .error e
    | .ok (_, p) => .ok p.instructions

/-- The loop of `Evaluate` over the instructions; the head of the list is the back of `values`.
There is no result where the code would read the back of an empty vector. -/
def run (x : α) : List (Instruction α) → List α → Option (Except EvaluationError (List α))
  | [], values => some (.ok values)
  | .number value :: program, values => run x program (value :: values)
  | .x :: program, values => run x program (x :: values)
  | .negate :: program, back :: values => run x program (A.neg back :: values)
  | .binary operation :: program, right :: left :: values =>
    match apply A operation left right with
    | .error e => some (.error e)
    | .ok value => run x program (value :: values)
  | .negate :: _, [] => none
  | .binary _ :: _, [] => none
  | .binary _ :: _, [_] => none

/-- `CompiledExpression::Evaluate`. -/
def evaluate (program : List (Instruction α)) (x : α) : Option (Except EvaluationError α) :=
  match finite A x with
  | .error e => some (.error e)
  | .ok _ =>
    match run A x program [] with
    | none => none
    | some (.error e) => some (.error e)
    | some (.ok values) => values.head?.map .ok

end FastEcu.Expression
