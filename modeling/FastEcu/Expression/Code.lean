import FastEcu.Expression.Grammar

/-!
# The code of a tree

What the compiler writes for a parse tree and what it folds on the way, as functions of the tree,
and what the code does when it runs.

* `constant_eq_none` : the folding fails exactly on the doomed trees.
* `run_code` : the code of a tree leaves the values below it alone and puts the value of the tree on
  top of them.
-/

namespace FastEcu.Expression

variable {α : Type} (A : Arithmetic α)

/-- The folding of a binary operation: no result is an error. -/
def combine (operation : Operation) (left right : Option α) : Option (Option α) :=
  if operation = .div ∧ right.any A.isZero then none
  else
    match left, right with
    | some left, some right => (apply A operation left right).toOption.map some
    | _, _ => some none

/-- The folding of a tree: the constant that it is, if it has no variable. -/
def constant : Expr → Option (Option α)
  | .literal digits => (literalValue A digits).toOption.map some
  | .x => some none
  | .negate t => (constant t).map (Option.map A.neg)
  | .binary operation l r =>
    match constant l, constant r with
    | some left, some right => combine A operation left right
    | _, _ => none

/-- The code of a tree: the operands first. -/
def code : Expr → List (Instruction α)
  | .literal digits => (literalValue A digits).toOption.toList.map .number
  | .x => [.x]
  | .negate t => code t ++ [.negate]
  | .binary operation l r => code l ++ (code r ++ [.binary operation])

variable {A}

/-! ### The folding -/

theorem constant_binary {operation : Operation} {l r : Expr} {v : Option α} :
    constant A (.binary operation l r) = some v ↔
      ∃ left right, constant A l = some left ∧ constant A r = some right ∧
        combine A operation left right = some v := by
  simp only [constant]
  constructor
  · intro h
    split at h
    · exact ⟨_, _, ‹_›, ‹_›, h⟩
    · exact absurd h (by simp)
  · rintro ⟨left, right, hl, hr, h⟩
    rw [hl, hr]
    exact h

/-- A folding that succeeds finds a constant just in the trees without a variable, and it is the
value of the tree. -/
theorem constant_spec {t : Expr} {v : Option α} (h : constant A t = some v) :
    (v = none ∧ ¬ Closed t) ∨ ∃ c, v = some c ∧ Closed t ∧ ∀ x, eval A x t = .ok c := by
  induction t generalizing v with
  | literal digits =>
    simp only [constant, Option.map_eq_some_iff] at h
    obtain ⟨c, hc, rfl⟩ := h
    refine .inr ⟨c, rfl, trivial, fun x => ?_⟩
    simp only [eval]
    cases hv : literalValue A digits with
    | error e => rw [hv] at hc; cases hc
    | ok value => rw [hv] at hc; cases hc; rfl
  | x =>
    cases h
    exact .inl ⟨rfl, id⟩
  | negate t ih =>
    simp only [constant, Option.map_eq_some_iff] at h
    obtain ⟨u, hu, rfl⟩ := h
    obtain ⟨rfl, hopen⟩ | ⟨c, rfl, hclosed, hc⟩ := ih hu
    · exact .inl ⟨rfl, hopen⟩
    · exact .inr ⟨A.neg c, rfl, hclosed, fun x => by simp only [eval, hc x]⟩
  | binary operation l r ihl ihr =>
    obtain ⟨left, right, hl, hr, h⟩ := constant_binary.1 h
    simp only [combine] at h
    split at h
    · cases h
    · obtain ⟨rfl, hopen⟩ | ⟨a, rfl, hla, ha⟩ := ihl hl
      · cases h
        exact .inl ⟨rfl, fun hc => hopen hc.1⟩
      · obtain ⟨rfl, hopen⟩ | ⟨b, rfl, hrb, hb⟩ := ihr hr
        · cases h
          exact .inl ⟨rfl, fun hc => hopen hc.2⟩
        · simp only [Option.map_eq_some_iff] at h
          obtain ⟨c, hc, rfl⟩ := h
          refine .inr ⟨c, rfl, ⟨hla, hrb⟩, fun x => ?_⟩
          simp only [eval, ha x, hb x]
          cases hap : apply A operation a b with
          | error e => rw [hap] at hc; cases hc
          | ok value => rw [hap] at hc; cases hc; rfl

theorem constant_closed {t : Expr} {v : Option α} (h : constant A t = some v) (ht : Closed t) :
    ∃ c, v = some c ∧ ∀ x, eval A x t = .ok c := by
  obtain ⟨-, hopen⟩ | ⟨c, hc, -, heval⟩ := constant_spec h
  · exact absurd ht hopen
  · exact ⟨c, hc, heval⟩

theorem constant_of_part {u t : Expr} (h : Part u t) (hu : constant A u = none) :
    constant A t = none := by
  induction h with
  | refl => exact hu
  | negate _ ih => simp only [constant, ih, Option.map_none]
  | left _ ih => simp only [constant, ih]
  | right _ ih =>
    simp only [constant, ih]
    split <;> simp_all

theorem constant_of_constantError {u : Expr} (h : ConstantError A u) : constant A u = none := by
  rw [Option.eq_none_iff_forall_ne_some]
  intro v hv
  cases h with
  | closed hu h =>
    obtain ⟨c, -, hc⟩ := constant_closed hv hu
    exact h c c (hc c)
  | @divisor l d zero hd h hzero =>
    obtain ⟨left, right, -, hr, hv⟩ := constant_binary.1 hv
    obtain ⟨c, rfl, hc⟩ := constant_closed hr hd
    obtain rfl : c = zero := Except.ok.inj ((hc c).symm.trans (h c))
    simp [combine, hzero] at hv

theorem toOption_eq_none {β : Type} {r : Except EvaluationError β} (h : r.toOption = none)
    (value : β) : r ≠ .ok value := by
  rintro rfl
  cases h

theorem doomed_of_constant {t : Expr} (h : constant A t = none) : Doomed A t := by
  induction t with
  | literal digits =>
    refine ⟨_, .refl, .closed trivial fun x => ?_⟩
    simp only [constant, Option.map_eq_none_iff] at h
    exact toOption_eq_none h
  | x => cases h
  | negate t ih =>
    simp only [constant, Option.map_eq_none_iff] at h
    obtain ⟨u, hut, hu⟩ := ih h
    exact ⟨u, .negate hut, hu⟩
  | binary operation l r ihl ihr =>
    cases hl : constant A l with
    | none =>
      obtain ⟨u, hul, hu⟩ := ihl hl
      exact ⟨u, .left hul, hu⟩
    | some left =>
      cases hr : constant A r with
      | none =>
        obtain ⟨u, hur, hu⟩ := ihr hr
        exact ⟨u, .right hur, hu⟩
      | some right =>
        -- both operands fold, so the operation itself is at fault
        simp only [constant, hl, hr, combine] at h
        refine ⟨_, .refl, ?_⟩
        obtain ⟨rfl, -⟩ | ⟨b, rfl, hrb, hb⟩ := constant_spec hr
        · simp at h
        · split at h
          · rename_i hzero
            obtain ⟨rfl, hzero⟩ := hzero
            exact .divisor hrb hb hzero
          · obtain ⟨rfl, -⟩ | ⟨a, rfl, hla, ha⟩ := constant_spec hl
            · simp at h
            · refine .closed ⟨hla, hrb⟩ fun x => ?_
              simp only [Option.map_eq_none_iff] at h
              simp only [eval, ha x, hb x]
              exact toOption_eq_none h

/-- **The folding fails exactly on the doomed trees.** -/
theorem constant_eq_none {t : Expr} : constant A t = none ↔ Doomed A t := by
  refine ⟨doomed_of_constant, ?_⟩
  rintro ⟨u, hut, hu⟩
  exact constant_of_part hut (constant_of_constantError hu)

/-! ### Running the code -/

/-- **The stack discipline**: from any stack, the code of a tree that folds pushes the value of the
tree and nothing else, or stops at the error of the tree. -/
theorem run_code {t : Expr} {v : Option α} (h : constant A t = some v) (x : α)
    (program : List (Instruction α)) (values : List α) :
    run A x (code A t ++ program) values =
      match eval A x t with
      | .error e => some (.error e)
      | .ok value => run A x program (value :: values) := by
  induction t generalizing v program values with
  | literal digits =>
    simp only [constant, Option.map_eq_some_iff] at h
    obtain ⟨c, hc, -⟩ := h
    cases hv : literalValue A digits with
    | error e => rw [hv] at hc; cases hc
    | ok value => simp [code, eval, hv, Except.toOption, run]
  | x => simp [code, eval, run]
  | negate t ih =>
    simp only [constant, Option.map_eq_some_iff] at h
    obtain ⟨u, hu, -⟩ := h
    rw [code, List.append_assoc, ih hu]
    cases ht : eval A x t with
    | error e => simp only [eval, ht]
    | ok value => simp [eval, ht, run]
  | binary operation l r ihl ihr =>
    obtain ⟨left, right, hl, hr, -⟩ := constant_binary.1 h
    rw [code, List.append_assoc, List.append_assoc, ihl hl]
    cases hevl : eval A x l with
    | error e => simp only [eval, hevl]
    | ok a =>
      simp only [ihr hr]
      cases hevr : eval A x r with
      | error e => simp only [eval, hevl, hevr]
      | ok b =>
        cases hab : apply A operation a b with
        | error e => simp [eval, hevl, hevr, run, hab]
        | ok c => simp [eval, hevl, hevr, run, hab]

end FastEcu.Expression
