import FastEcu.Calibration.NumericEdit

/-!
# The variable of an assignment

`CalculateAssignment` reads the current value of a cell only if the formula has the variable, and
`UsesCurrentValue` finds that out by a scan of its own over the text
(`src/backend/calibration/numeric_map_edit.cpp`).

* `scan_sum` : the scan of a text of the grammar finds the variable of its parse tree.
* `usesCurrentValue_of_compile` : the scan accepts what the compiler accepts, and agrees with its code.
* `calculateAssignment_of_not_uses` : without the variable, every current value gives the same patch.
-/

namespace FastEcu.Calibration

open Memory Expression

variable {α : Type} (N : Numbers α)

/-! ### The scan -/

/-- The scan of a text, as often as it has characters. -/
def scan (uses : Bool) (text : List Char) : Except Error Bool :=
  usesCurrentValueFrom N text.length uses text

variable {N}

/-- A literal is not empty, so that the scan gets on. -/
theorem length_fromChars {text behind : List Char} {value : α}
    (h : fromChars N.toArithmetic text = some (value, behind)) : behind.length < text.length := by
  simp only [fromChars] at h
  split at h
  · cases h
  · rename_i literal behind' hscan
    obtain ⟨v, -, hpair⟩ := Option.map_eq_some_iff.1 h
    obtain ⟨rfl, rfl⟩ := Prod.mk.inj hpair
    obtain ⟨rfl, hdecimal⟩ := scanNumber_sound hscan
    obtain ⟨c, s, rfl, -⟩ := Parser.isDecimal_head hdecimal
    simp only [List.length_append, List.length_cons]
    omega

/-- More turns than characters change nothing. -/
theorem usesCurrentValueFrom_fuel {fuel : ℕ} {text : List Char} (h : text.length ≤ fuel) (uses : Bool) :
    usesCurrentValueFrom N fuel uses text = scan N uses text := by
  have key : ∀ bound, ∀ text : List Char, text.length ≤ bound → ∀ fuel fuel' uses, text.length ≤ fuel →
      text.length ≤ fuel' →
      usesCurrentValueFrom N fuel uses text = usesCurrentValueFrom N fuel' uses text := by
    intro bound
    induction bound with
    | zero =>
      intro text hbound fuel fuel' uses _ _
      obtain rfl := List.length_eq_zero_iff.1 (Nat.le_zero.1 hbound)
      cases fuel <;> cases fuel' <;> rfl
    | succ bound ih =>
      intro text hbound fuel fuel' uses hfuel hfuel'
      cases text with
      | nil => cases fuel <;> cases fuel' <;> rfl
      | cons token rest =>
        rw [List.length_cons] at hbound hfuel hfuel'
        obtain ⟨fuel, rfl⟩ : ∃ n, fuel = n + 1 := ⟨fuel - 1, by omega⟩
        obtain ⟨fuel', rfl⟩ : ∃ n, fuel' = n + 1 := ⟨fuel' - 1, by omega⟩
        have hrest := fun uses => ih rest (by omega) fuel fuel' uses (by omega) (by omega)
        simp only [usesCurrentValueFrom, hrest]
        cases hnumber : fromChars N.toArithmetic (token :: rest) with
        | none => rfl
        | some read =>
          obtain ⟨number, behind⟩ := read
          have hbehind := length_fromChars hnumber
          rw [List.length_cons] at hbehind
          simp only [ih behind (by omega) fuel fuel' uses (by omega) (by omega)]
  exact key text.length text le_rfl fuel text.length uses h le_rfl

@[simp] theorem scan_nil (uses : Bool) : scan N uses [] = .ok uses := rfl

theorem scan_x (uses : Bool) (rest : List Char) : scan N uses ('x' :: rest) = scan N true rest := by
  rw [scan, List.length_cons, usesCurrentValueFrom, if_pos rfl, scan]

/-- Whitespace, an operator or a parenthesis. -/
def IsSeparator (token : Char) : Prop := whitespace token ∨ token ∈ "+-*/()".toList

instance : DecidablePred IsSeparator := fun _ => inferInstanceAs (Decidable (_ ∨ _))

theorem scan_separator {token : Char} (h : IsSeparator token) (uses : Bool) (rest : List Char) :
    scan N uses (token :: rest) = scan N uses rest := by
  have hx : token ≠ 'x' := by
    rintro rfl
    exact absurd h (by decide)
  have hnumber : ¬ (token = '.' ∨ token.isDigit) := by
    rintro (rfl | hdigit)
    · exact absurd h (by decide)
    · obtain hspace | hmem := h
      · exact not_whitespace_of_isDigit hdigit hspace
      · have hall : ("+-*/()".toList.all fun c => ! c.isDigit) = true := by decide
        have hnone := List.all_eq_true.1 hall token hmem
        rw [hdigit] at hnone
        cases hnone
  rw [scan, List.length_cons, usesCurrentValueFrom, if_neg hx, if_neg hnumber]
  exact if_pos h

theorem scan_blank {w : List Char} (hw : Blank w) (uses : Bool) (rest : List Char) :
    scan N uses (w ++ rest) = scan N uses rest := by
  induction w with
  | nil => rfl
  | cons c w ih =>
    rw [List.cons_append, scan_separator (.inl (hw c List.mem_cons_self)),
      ih fun d hd => hw d (List.mem_cons_of_mem _ hd)]

/-- The scan takes the whole of a literal that has a value. -/
theorem scan_literal {s r : List Char} {value : α} (hs : IsDecimal s) (hr : Follow r)
    (hvalue : literalValue N.toArithmetic s = .ok value) (uses : Bool) :
    scan N uses (s ++ r) = scan N uses r := by
  obtain ⟨c, s', hcs, hc⟩ := Parser.isDecimal_head hs
  have hx : c ≠ 'x' := by
    rintro rfl
    exact absurd hc (by decide)
  cases hread : N.value s with
  | none => simp [literalValue, hread] at hvalue
  | some number =>
    have hfinite : N.isFinite number = true := by
      by_contra hnot
      simp [literalValue, hread, finite, hnot] at hvalue
    have hchars : fromChars N.toArithmetic (s ++ r) = some (number, r) := by
      simp [fromChars, scanNumber_complete hs hr, hread]
    rw [hcs, List.cons_append] at hchars ⊢
    rw [scan, List.length_cons, usesCurrentValueFrom, if_neg hx, if_pos hc, hchars]
    dsimp only
    rw [if_pos hfinite]
    exact usesCurrentValueFrom_fuel (by simp) uses

/-! ### The grammar -/

/-- The tree has the variable. -/
def hasX : Expr → Bool
  | .literal _ => false
  | .x => true
  | .negate t => hasX t
  | .binary _ l r => hasX l || hasX r

/-- The code of a tree reads the variable if the tree has it. -/
theorem x_mem_code {t : Expr} : Instruction.x ∈ code N.toArithmetic t ↔ hasX t = true := by
  induction t with
  | literal digits => simp [code, hasX]
  | x => simp [code, hasX]
  | negate t ih => simpa [code, hasX] using ih
  | binary operation l r ihl ihr => simp [code, hasX, ihl, ihr]

/-- The scan takes a text of `P` that folds, with its variable, from what may be behind it. -/
def Scans (N : Numbers α) (P : List Char → Expr → Prop) : Prop :=
  ∀ s t, P s t → constant N.toArithmetic t ≠ none → ∀ r, Follow r → ∀ uses,
    scan N uses (s ++ r) = scan N (uses || hasX t) r

theorem scan_factor {inner : List Char → Expr → Prop} (hinner : Scans N inner) :
    Scans N (IsFactor inner) := by
  intro s t h hconst r hr uses
  cases h with
  | @parens w s w' _ hw hs hw' =>
    have hclose : Follow (w' ++ ')' :: r) := follow_blank hw' (follow_cons.2 (by simp))
    have hscan := hinner s t hs hconst (w' ++ ')' :: r) hclose uses
    simp only [List.append_assoc, List.cons_append, List.nil_append]
    rw [scan_blank hw, scan_separator (.inr (by decide)), hscan, scan_blank hw',
      scan_separator (.inr (by decide))]
  | @x w hw =>
    rw [List.append_assoc, scan_blank hw, List.singleton_append, scan_x, hasX, Bool.or_true]
  | @literal w s hw hs =>
    obtain ⟨v, hv⟩ := Option.ne_none_iff_exists'.1 hconst
    obtain ⟨value, hvalue, -⟩ := Option.map_eq_some_iff.1 hv
    have hok : literalValue N.toArithmetic s = .ok value := by
      cases hlit : literalValue N.toArithmetic s with
      | error e => rw [hlit] at hvalue; cases hvalue
      | ok v => rw [hlit] at hvalue; cases hvalue; rfl
    rw [List.append_assoc, scan_blank hw, scan_literal hs hr hok, hasX, Bool.or_false]

theorem scan_signed {factor : List Char → Expr → Prop} (hfactor : Scans N factor) :
    Scans N (IsSigned factor) := by
  rintro s t ⟨negative, u, hs, rfl⟩ hconst r hr uses
  have hu : constant N.toArithmetic u ≠ none := by
    cases negative with
    | true =>
      intro hnone
      exact hconst (by simp [constant, hnone])
    | false => exact hconst
  have hvariable : hasX (if negative then .negate u else u) = hasX u := by
    cases negative <;> rfl
  rw [hvariable]
  clear hconst hvariable
  induction hs with
  | bare hs => exact hfactor _ _ hs hu r hr uses
  | plus hw _ ih =>
    rw [List.append_assoc, scan_blank hw, List.cons_append, scan_separator (.inr (by decide)), ih hu]
  | minus hw _ ih =>
    rw [List.append_assoc, scan_blank hw, List.cons_append, scan_separator (.inr (by decide)), ih hu]

/-- The operators of a chain are separators, and may stand behind an item. -/
def Separates (operator : Char → Option Operation) : Prop :=
  ∀ c operation, operator c = some operation → IsSeparator c ∧ ∀ r, Follow (c :: r)

theorem scan_chain {operator : Char → Option Operation} {item : List Char → Expr → Prop}
    (hoperator : Separates operator) (hitem : Scans N item) : Scans N (IsChain operator item) := by
  intro s t h
  induction h with
  | one hs => exact hitem _ _ hs
  | @more s w s' c operation l r _ hw hc hs' ih =>
    intro hconst rest hrest uses
    obtain ⟨v, hv⟩ := Option.ne_none_iff_exists'.1 hconst
    obtain ⟨left, right, hl, hr, -⟩ := constant_binary.1 hv
    obtain ⟨hseparator, hfollow⟩ := hoperator c operation hc
    have hleft := ih (by simp [hl]) (w ++ c :: (s' ++ rest)) (follow_blank hw (hfollow _)) uses
    have hright := hitem s' r hs' (by simp [hr]) rest hrest (uses || hasX l)
    simp only [List.append_assoc, List.cons_append]
    rw [hleft, scan_blank hw, scan_separator hseparator, hright, hasX, Bool.or_assoc]

theorem separates_product : Separates Parser.productOperator := by
  intro c operation h
  obtain rfl | rfl : c = '*' ∨ c = '/' := by
    simp only [Parser.productOperator] at h
    split at h <;> simp_all
  · exact ⟨.inr (by decide), fun r => follow_cons.2 (by simp)⟩
  · exact ⟨.inr (by decide), fun r => follow_cons.2 (by simp)⟩

theorem separates_sum : Separates Parser.sumOperator := by
  intro c operation h
  obtain rfl | rfl : c = '+' ∨ c = '-' := by
    simp only [Parser.sumOperator] at h
    split at h <;> simp_all
  · exact ⟨.inr (by decide), fun r => follow_cons.2 (by simp)⟩
  · exact ⟨.inr (by decide), fun r => follow_cons.2 (by simp)⟩

/-- **The scan of a sum finds the variable of its parse tree**, at every nesting. -/
theorem scan_sum (room : ℕ) : Scans N (IsSum room) := by
  induction room with
  | zero =>
    exact scan_chain separates_sum (scan_chain separates_product
      (scan_signed (scan_factor fun _ _ h => h.elim)))
  | succ room ih =>
    exact scan_chain separates_sum (scan_chain separates_product (scan_signed (scan_factor ih)))

/-- **The scan accepts what the compiler accepts**, and finds the variable that the code reads. -/
theorem usesCurrentValue_of_compile {formula : String} {program : List (Instruction α)}
    (h : compile N.toArithmetic formula.toList = .ok program) :
    ∃ uses, usesCurrentValue N formula = .ok uses ∧ (uses = true ↔ Instruction.x ∈ program) := by
  obtain ⟨t, value, htext, hconst, rfl⟩ := compile_sound h
  generalize htoList : formula.toList = text at htext
  cases htext with
  | blank hw =>
    have hblank : isBlank formula = true := by
      rw [isBlank, htoList, List.all_eq_true]
      exact hw
    exact ⟨true, by rw [usesCurrentValue, if_pos hblank], by simp [code]⟩
  | @sum s w _ hs hw =>
    -- a sum has a token, so the text is not blank
    have hblank : ¬ isBlank formula = true := by
      obtain ⟨u, c, s', rfl, -, hc, -⟩ := isSum_leads _ _ _ hs
      rw [isBlank, htoList, List.all_eq_true]
      exact fun hall => hc (hall c (by simp))
    have hscan := scan_sum (N := N) Parser.kMaximumNesting s t hs (by simp [hconst]) w
      (sumEnd_blank hw).1.1 false
    rw [Bool.false_or, ← List.append_nil w, scan_blank hw, List.append_nil, scan_nil] at hscan
    refine ⟨hasX t, ?_, x_mem_code.symm⟩
    rw [usesCurrentValue, if_neg hblank, htoList]
    exact hscan

/-! ### Assignments -/

/-- A tree without the variable has one value. -/
theorem eval_of_not_hasX {t : Expr} (h : hasX t = false) (x y : α) :
    eval N.toArithmetic x t = eval N.toArithmetic y t := by
  induction t with
  | literal digits => rfl
  | x => cases h
  | negate t ih => simp only [eval, ih h]
  | binary operation l r ihl ihr =>
    obtain ⟨hl, hr⟩ := Bool.or_eq_false_iff.1 h
    simp only [eval, ihl hl, ihr hr]

/-- A formula without the variable has the same value at every finite current value. -/
theorem evaluateChecked_of_not_uses {formula : String} (h : usesCurrentValue N formula = .ok false)
    {x y : α} (hx : N.isFinite x) (hy : N.isFinite y) :
    evaluateChecked N.toArithmetic formula.toList x = evaluateChecked N.toArithmetic formula.toList y := by
  unfold evaluateChecked
  split
  · rfl
  · rename_i program hprogram
    obtain ⟨uses, huses, hreads⟩ := usesCurrentValue_of_compile hprogram
    obtain rfl : false = uses := Except.ok.inj (h.symm.trans huses)
    obtain ⟨t, value, -, hconst, rfl⟩ := compile_sound hprogram
    have hclosed : hasX t = false := by
      by_contra hx
      exact absurd (hreads.2 (x_mem_code.2 (Bool.eq_true_of_not_eq_false hx))) (by decide)
    simp only [evaluate_code hconst hx, evaluate_code hconst hy, Option.get_some,
      eval_of_not_hasX hclosed x y]

/-- What an assignment asks for where the formula is evaluated at `current`. -/
def evaluatedAt (N : Numbers α) (formula : String) (current : α) : Except Error α :=
  match evaluateChecked N.toArithmetic formula.toList current with
  | .error e => invalidConfig e.detail
  | .ok value => .ok value

/-- **Without the variable, every finite current value gives the same patch.** -/
theorem calculateAssignment_of_not_uses {formula : String}
    (h : usesCurrentValue N formula = .ok false) (hzero : N.isFinite (N.ofInt 0))
    (rom : DefinitionBytes) (spec : MapElementSpec α) (width : ℕ) (cells : NumericRun α)
    (range : SelectionRange) {current : ℕ → α} (hcurrent : ∀ index, N.isFinite (current index)) :
    calculateAssignment N rom spec width cells range formula =
      buildPatch N rom spec width cells range fun index _ _ => evaluatedAt N formula (current index) := by
  have hvalue : ∀ index, assigned N cells false formula index =
      evaluatedAt N formula (current index) := by
    intro index
    rw [evaluatedAt, evaluateChecked_of_not_uses h (hcurrent index) hzero]
    rfl
  simp only [calculateAssignment, h, hvalue]

/-! ### Other current cells -/

/-- The same cells and values, whatever the old values are. -/
def SameValues (request request' : Request α) : Prop :=
  request.index = request'.index ∧ request.value = request'.value

/-- The old value decides the reason of a patch that changes nothing, and nothing else. -/
theorem writes_appendWrite (rom : DefinitionBytes) (spec : MapElementSpec α) (limits : Limits α)
    (index : ℕ) (requested : α) (old old' : Option (Except Error α)) {result result' : NumericEditResult}
    (h : result.writes = result'.writes) :
    (appendWrite N rom spec limits index requested old result).map (·.writes) =
      (appendWrite N rom spec limits index requested old' result').map (·.writes) := by
  unfold appendWrite
  split
  · rfl
  · dsimp only
    cases encodeValue N spec (clamp N limits requested) with
    | error e => rfl
    | ok encoded =>
      dsimp only
      cases rom.at (elementByteAddress spec index) encoded.length with
      | none => rfl
      | some current =>
        dsimp only
        split
        · exact congrArg Except.ok h
        · simp only [Except.map, h]

/-- Two outcomes with the same view are two errors or two results. -/
theorem map_eq_map {ε β γ : Type} {f : β → γ} {first second : Except ε β}
    (h : first.map f = second.map f) : (∃ e, first = .error e ∧ second = .error e) ∨
      ∃ value value', first = .ok value ∧ second = .ok value' ∧ f value = f value' := by
  cases first with
  | error e =>
    cases second with
    | error e' => exact .inl ⟨e, rfl, by rw [Except.error.inj h]⟩
    | ok value' => cases h
  | ok value =>
    cases second with
    | error e' => cases h
    | ok value' => exact .inr ⟨value, value', rfl, rfl, Except.ok.inj h⟩

theorem writes_appendRequests (rom : DefinitionBytes) (spec : MapElementSpec α) (limits : Limits α)
    {requests requests' : List (Request α)} (hrequests : List.Forall₂ SameValues requests requests')
    {result result' : NumericEditResult} (h : result.writes = result'.writes) :
    (appendRequests N rom spec limits requests result).map (·.writes) =
      (appendRequests N rom spec limits requests' result').map (·.writes) := by
  induction hrequests generalizing result result' with
  | nil => exact congrArg Except.ok h
  | @cons request request' _ _ hsame _ ih =>
    obtain ⟨hindex, hvalue⟩ := hsame
    simp only [appendRequests, ← hindex, ← hvalue]
    cases request.value with
    | error e => rfl
    | ok value =>
      obtain ⟨e, hfirst, hsecond⟩ | ⟨next, next', hfirst, hsecond, hnext⟩ :=
        map_eq_map (writes_appendWrite (N := N) rom spec limits request.index value request.old
          request'.old h)
      · simp only [hfirst, hsecond]
      · simp only [hfirst, hsecond]
        exact ih hnext

theorem writes_buildPatch (rom : DefinitionBytes) (spec : MapElementSpec α) (width : ℕ)
    {cells cells' : NumericRun α} (hlength : cells.length = cells'.length) (range : SelectionRange)
    (candidate : ℕ → ℕ → ℕ → Except Error α) :
    (buildPatch N rom spec width cells range candidate).map (·.writes) =
      (buildPatch N rom spec width cells' range candidate).map (·.writes) := by
  have hrequests : List.Forall₂ SameValues (selectedRequests width cells range candidate)
      (selectedRequests width cells' range candidate) := by
    unfold selectedRequests
    rw [List.forall₂_map_left_iff, List.forall₂_map_right_iff]
    exact List.forall₂_same.2 fun _ _ => ⟨rfl, rfl⟩
  unfold buildPatch buildRequests
  rw [hlength]
  cases validateSelection width cells'.length range with
  | error e => rfl
  | ok valid =>
    dsimp only
    cases limitsFor N spec with
    | error e => rfl
    | ok limits =>
      dsimp only
      obtain ⟨e, hfirst, hsecond⟩ | ⟨next, next', hfirst, hsecond, hnext⟩ :=
        map_eq_map (@writes_appendRequests α N rom spec limits _ _ hrequests ⟨[], .unchanged⟩
          ⟨[], .unchanged⟩ rfl)
      · simp only [hfirst, hsecond]
      · have hchosen : ∀ result : NumericEditResult,
            (if result.writes = [] then result else { result with noChange := .none }).writes =
              result.writes := fun result => by split <;> rfl
        simp only [hfirst, hsecond]
        exact congrArg Except.ok ((hchosen next).trans (hnext.trans (hchosen next').symm))

/-! ### The scan and the code -/

/-- **The scan and the compiler agree on the variable.**  It answers whether the compiled code reads
the variable, for every formula that compiles; where it answers no, the patch is that of any other
finite current value, and other current cells do not change what is written. -/
theorem usesCurrentValue_iff_reads (N : Numbers α) (formula : String) :
    (∀ program, compile N.toArithmetic formula.toList = .ok program →
      ∃ uses, usesCurrentValue N formula = .ok uses ∧ (uses = true ↔ Instruction.x ∈ program)) ∧
    (N.isFinite (N.ofInt 0) → usesCurrentValue N formula = .ok false →
      ∀ rom spec width cells range,
        (∀ current : ℕ → α, (∀ index, N.isFinite (current index)) →
          calculateAssignment N rom spec width cells range formula =
            buildPatch N rom spec width cells range fun index _ _ =>
              evaluatedAt N formula (current index)) ∧
        ∀ cells' : NumericRun α, cells'.length = cells.length →
          (calculateAssignment N rom spec width cells' range formula).map (·.writes) =
            (calculateAssignment N rom spec width cells range formula).map (·.writes)) := by
  refine ⟨fun program h => usesCurrentValue_of_compile h, fun hzero huses rom spec width cells range =>
    ⟨fun current hcurrent => calculateAssignment_of_not_uses huses hzero rom spec width cells range
      hcurrent, fun cells' hlength => ?_⟩⟩
  rw [calculateAssignment_of_not_uses huses hzero rom spec width cells' range fun _ => hzero,
    calculateAssignment_of_not_uses huses hzero rom spec width cells range fun _ => hzero]
  exact writes_buildPatch rom spec width hlength range _

theorem usesCurrentValue_iff_reads_integers :
    (∃ uses, usesCurrentValue integers "2*(x+1)" = .ok uses ∧
      (uses = true ↔ Instruction.x ∈ [.number (2 : ℤ), .x, .number 1, .binary .add, .binary .mul])) ∧
    ∀ rom spec width cells range (current : ℕ → ℤ),
      calculateAssignment integers rom spec width cells range "2*3" =
        buildPatch integers rom spec width cells range fun index _ _ =>
          evaluatedAt integers "2*3" (current index) :=
  ⟨(usesCurrentValue_iff_reads integers "2*(x+1)").1
      [.number 2, .x, .number 1, .binary .add, .binary .mul] (by decide +kernel),
    fun rom spec width cells range current =>
      ((usesCurrentValue_iff_reads integers "2*3").2 rfl (by decide +kernel) rom spec width cells
        range).1 current fun _ => rfl⟩

end FastEcu.Calibration
