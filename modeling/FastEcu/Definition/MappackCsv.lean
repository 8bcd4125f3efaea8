import FastEcu.Calibration.Definition

/-!
# The table of a map pack

`ParseCsv` (`src/backend/definition/mappack_converter.cpp`) reads the exported table of a map pack:
rows of fields with `;` between them, and a field in quotes may hold separators, line breaks and
doubled quotes.

* `parseField`, `parseCsv` : the parser; a text is a list of characters.
* `Written` : a text that rows are written as.
* `parseRecords_isSome` : the parser ends on every text.
* `parseCsv_spec` : it ends, and it reads what was written.
-/

namespace FastEcu.Definition

open Calibration (Error invalidConfig)

/-- `Row`. -/
abbrev Row := List (List Char)

/-! ### The parser -/

/-- `ContainsXmlControl`. -/
def containsXmlControl (text : List Char) : Bool :=
  text.any fun ch => decide (ch.toNat < 0x20) && ch != '\t' && ch != '\n' && ch != '\r'

/-- `Invalid`, with the number of the column. -/
def invalidCsv {β : Type} (row column : ℕ) (reason : String) : Except Error β :=
  invalidConfig s!"CSV row {row}, column {column}: {reason}"

/-- What ends a field: `";\r\n"`. -/
def isSeparator (ch : Char) : Bool := ch == ';' || ch == '\r' || ch == '\n'

/-- The loop of `ParseField` over a field in quotes, character by character, with what it has of the
field: the field and what is left, or why there is none. -/
def parseQuoted : List Char → List Char → Except String (List Char × List Char)
  | _, [] => .error "unterminated quoted field"
  | field, '"' :: '"' :: csv => parseQuoted (field ++ ['"']) csv
  | field, '"' :: csv =>
    if csv.head?.all isSeparator then .ok (field, csv)
    else .error "unexpected character after quoted field"
  | field, ch :: csv => parseQuoted (field ++ [ch]) csv

/-- `ParseField`: one field, and what is left from the separator on. -/
def parseField (csv : List Char) : Except String (List Char × List Char) :=
  match csv with
  | '"' :: csv => parseQuoted [] csv
  | csv =>
    let field := csv.takeWhile (! isSeparator ·)
    if '"' ∈ field then .error "unexpected quote in unquoted field"
    else .ok (field, csv.dropWhile (! isSeparator ·))

/-- The end of `ParseCsv`: a row that has begun is the last one. -/
def finishRows (rows : List Row) (row : Row) : List Row := if row = [] then rows else rows ++ [row]

/-- What the loop of `ParseCsv` works on: what is left of the text, the rows so far and the fields of
the present row. -/
structure CsvState where
  csv : List Char
  rows : List Row := []
  row : Row := []

/-- One turn of the loop of `ParseCsv`: the result, or what the next turn works on. -/
def csvTurn (state : CsvState) : Except Error (List Row) ⊕ CsvState :=
  match parseField state.csv with
  | .error reason => .inl (invalidCsv (state.rows.length + 1) (state.row.length + 1) reason)
  | .ok (field, left) =>
    if containsXmlControl field then
      .inl (invalidCsv (state.rows.length + 1) (state.row.length + 1) "XML-invalid control character")
    else
      let row := state.row ++ [field]
      match left with
      | [] => .inl (.ok (finishRows state.rows row))
      | ';' :: csv =>
        -- nothing behind the last separator is an empty field
        .inr ⟨csv, state.rows, if csv = [] then row ++ [[]] else row⟩
      | '\r' :: '\n' :: csv => .inr ⟨csv, state.rows ++ [row], []⟩
      | _ :: csv => .inr ⟨csv, state.rows ++ [row], []⟩

/-- The loop of `ParseCsv`; `none` where a number of turns is not enough. -/
def parseRecords (turns : ℕ) (state : CsvState) : Option (Except Error (List Row)) :=
  if state.csv = [] then some (.ok (finishRows state.rows state.row))
  else
    match turns with
    | 0 => none
    | turns + 1 =>
      match csvTurn state with
      | .inl result => some result
      | .inr state => parseRecords turns state

/-- `ParseCsv`: no text takes more turns than it has characters. -/
def parseCsv (csv : List Char) : Option (Except Error (List Row)) :=
  parseRecords csv.length ⟨csv, [], []⟩

/-! ### What is written -/

/-- A field in quotes, its quotes doubled. -/
def quoteField (field : List Char) : List Char :=
  '"' :: field.flatMap (fun ch => if ch = '"' then ['"', '"'] else [ch]) ++ ['"']

/-- A row: its fields in quotes, with `;` between them. -/
def writeRow (row : Row) : List Char := [';'].intercalate (row.map quoteField)

/-- What stands after a row. -/
inductive LineEnd
  | lf
  | crlf
deriving DecidableEq, Repr

/-- The characters of a line end. -/
def LineEnd.chars : LineEnd → List Char
  | .lf => ['\n']
  | .crlf => ['\r', '\n']

/-- The text is the rows, each with a line end after it, which the last row may do without. -/
inductive Written : List Row → List Char → Prop
  | unended (row : Row) : Written [row] (writeRow row)
  | ended (row : Row) (lineEnd : LineEnd) : Written [row] (writeRow row ++ lineEnd.chars)
  | cons (row : Row) (lineEnd : LineEnd) {rows : List Row} {text : List Char}
      (h : Written rows text) : Written (row :: rows) (writeRow row ++ lineEnd.chars ++ text)

/-- A field without control characters other than tabs and line breaks. -/
def PlainField (field : List Char) : Prop :=
  ∀ ch ∈ field, 0x20 ≤ ch.toNat ∨ ch = '\t' ∨ ch = '\n' ∨ ch = '\r'

instance (field : List Char) : Decidable (PlainField field) := List.decidableBAll _ field

theorem containsXmlControl_of_plain {field : List Char} (h : PlainField field) :
    containsXmlControl field = false := by
  rw [containsXmlControl, List.any_eq_false]
  intro ch hch
  rcases h ch hch with hge | rfl | rfl | rfl
  · simp only [Bool.and_eq_true, decide_eq_true_eq]
    omega
  · decide
  · decide
  · decide

/-! ### Termination -/

theorem length_parseQuoted {field csv parsed left : List Char}
    (h : parseQuoted field csv = .ok (parsed, left)) : left.length < csv.length := by
  fun_induction parseQuoted field csv with
  | case1 => cases h
  | case2 field csv ih =>
    have hlt := ih h
    simp only [List.length_cons]
    omega
  | case3 field csv _ hsep =>
    cases h
    exact Nat.lt_succ_self _
  | case4 => cases h
  | case5 field ch csv _ _ ih =>
    have hlt := ih h
    simp only [List.length_cons]
    omega

/-- A field leaves no more than there was. -/
theorem length_parseField {csv field left : List Char} (h : parseField csv = .ok (field, left)) :
    left.length ≤ csv.length := by
  unfold parseField at h
  split at h
  · exact (length_parseQuoted h).le.trans (Nat.le_succ _)
  · dsimp only at h
    split at h
    · cases h
    · cases h
      exact (List.dropWhile_sublist _).length_le

/-- Every turn that is not the last one takes a character. -/
theorem length_csvTurn {state state' : CsvState} (h : csvTurn state = .inr state') :
    state'.csv.length < state.csv.length := by
  unfold csvTurn at h
  split at h
  · cases h
  · rename_i field left hfield
    have hle := length_parseField hfield
    dsimp only at h
    split at h
    · cases h
    · split at h
      · cases h
      · cases h
        exact hle
      · cases h
        simp only [List.length_cons] at hle ⊢
        omega
      · cases h
        exact hle

/-- **The parser ends.**  As many turns as the text has characters are enough, and more make no
difference. -/
theorem parseRecords_eq_some {turns : ℕ} {state : CsvState} (h : state.csv.length ≤ turns) :
    ∃ result, ∀ turns', state.csv.length ≤ turns' → parseRecords turns' state = some result := by
  induction turns generalizing state with
  | zero =>
    have hnil : state.csv = [] := List.length_eq_zero_iff.1 (Nat.le_zero.1 h)
    refine ⟨.ok (finishRows state.rows state.row), fun turns' _ => ?_⟩
    rw [parseRecords.eq_def, if_pos hnil]
  | succ turns ih =>
    by_cases hnil : state.csv = []
    · refine ⟨.ok (finishRows state.rows state.row), fun turns' _ => ?_⟩
      rw [parseRecords.eq_def, if_pos hnil]
    · have hpos := List.length_pos_of_ne_nil hnil
      cases hturn : csvTurn state with
      | inl result =>
        refine ⟨result, fun turns' hle => ?_⟩
        obtain ⟨n, rfl⟩ := Nat.exists_eq_succ_of_ne_zero (hpos.trans_le hle).ne'
        rw [parseRecords.eq_def, if_neg hnil]
        dsimp only
        rw [hturn]
      | inr next =>
        have hlt := length_csvTurn hturn
        obtain ⟨result, hresult⟩ := @ih next (by omega)
        refine ⟨result, fun turns' hle => ?_⟩
        obtain ⟨n, rfl⟩ := Nat.exists_eq_succ_of_ne_zero (hpos.trans_le hle).ne'
        rw [parseRecords.eq_def, if_neg hnil]
        dsimp only
        rw [hturn]
        exact hresult n (by omega)

/-! ### Reading what was written -/

section RoundTrip

variable {state next : CsvState} {field : List Char} {rows : List Row} {row : Row}

/-- The rows of a state: the loop, with as many turns as it needs. -/
def CsvState.parse (state : CsvState) : Option (Except Error (List Row)) :=
  parseRecords state.csv.length state

theorem CsvState.parse_of_turn (hne : state.csv ≠ []) (h : csvTurn state = .inr next) :
    state.parse = next.parse := by
  obtain ⟨n, hn⟩ := Nat.exists_eq_succ_of_ne_zero (List.length_pos_of_ne_nil hne).ne'
  have hlt := length_csvTurn h
  obtain ⟨result, hresult⟩ := @parseRecords_eq_some _ next le_rfl
  rw [CsvState.parse, CsvState.parse, hn, parseRecords, if_neg hne, h, hresult _ le_rfl]
  exact hresult n (by omega)

theorem CsvState.parse_of_last {result : Except Error (List Row)} (hne : state.csv ≠ [])
    (h : csvTurn state = .inl result) : state.parse = some result := by
  obtain ⟨n, hn⟩ := Nat.exists_eq_succ_of_ne_zero (List.length_pos_of_ne_nil hne).ne'
  rw [CsvState.parse, hn, parseRecords, if_neg hne, h]

/-- A field in quotes is read up to the quote that ends it: the one that no other follows. -/
theorem parseQuoted_quoted (field : List Char) (before left : List Char)
    (hleft : left.head?.all isSeparator = true) :
    parseQuoted before (field.flatMap (fun ch => if ch = '"' then ['"', '"'] else [ch]) ++
      '"' :: left) = .ok (before ++ field, left) := by
  induction field generalizing before with
  | nil =>
    have hquote : ∀ csv, left ≠ '"' :: csv := by
      rintro csv rfl
      have hseparator : isSeparator '"' = true := hleft
      exact absurd hseparator (by decide)
    rw [List.flatMap_nil, List.nil_append, List.append_nil, parseQuoted.eq_3 _ _ hquote,
      if_pos hleft]
  | cons ch field ih =>
    rw [List.flatMap_cons]
    by_cases hquote : ch = '"'
    · subst hquote
      rw [if_pos rfl, List.cons_append, List.singleton_append, List.cons_append, List.cons_append,
        parseQuoted, ih, List.append_assoc, List.singleton_append]
    · rw [if_neg hquote, List.singleton_append, List.cons_append, parseQuoted, ih, List.append_assoc,
        List.singleton_append]
      · exact fun _ h _ => hquote h
      · exact hquote

theorem parseField_quoteField (field : List Char) {left : List Char}
    (hleft : left.head?.all isSeparator = true) :
    parseField (quoteField field ++ left) = .ok (field, left) := by
  have htext : quoteField field ++ left = '"' :: (field.flatMap
      (fun ch => if ch = '"' then ['"', '"'] else [ch]) ++ '"' :: left) := by
    simp [quoteField]
  rw [htext, parseField]
  exact parseQuoted_quoted field [] left hleft

theorem csvTurn_separator (h : PlainField field) {csv : List Char} (hcsv : csv ≠ []) :
    csvTurn ⟨quoteField field ++ ';' :: csv, rows, row⟩ = .inr ⟨csv, rows, row ++ [field]⟩ := by
  rw [csvTurn, parseField_quoteField field (by rfl)]
  dsimp only
  rw [containsXmlControl_of_plain h, if_neg (by decide)]
  show Sum.inr (CsvState.mk csv rows (if csv = [] then row ++ [field] ++ [[]] else row ++ [field])) = _
  rw [if_neg hcsv]

theorem csvTurn_lineEnd (h : PlainField field) (lineEnd : LineEnd) (csv : List Char) :
    csvTurn ⟨quoteField field ++ (lineEnd.chars ++ csv), rows, row⟩ =
      .inr ⟨csv, rows ++ [row ++ [field]], []⟩ := by
  cases lineEnd with
  | lf =>
    rw [csvTurn, LineEnd.chars, List.singleton_append, parseField_quoteField field (by rfl)]
    dsimp only
    rw [containsXmlControl_of_plain h, if_neg (by decide)]
    rfl
  | crlf =>
    rw [csvTurn, LineEnd.chars, List.cons_append, List.singleton_append,
      parseField_quoteField field (by rfl)]
    dsimp only
    rw [containsXmlControl_of_plain h, if_neg (by decide)]
    rfl

theorem csvTurn_end (h : PlainField field) :
    csvTurn ⟨quoteField field, rows, row⟩ = .inl (.ok (rows ++ [row ++ [field]])) := by
  have hfield := @parseField_quoteField field [] rfl
  rw [List.append_nil] at hfield
  rw [csvTurn, hfield]
  dsimp only
  rw [containsXmlControl_of_plain h, if_neg (by decide), finishRows, if_neg (by simp)]

theorem quoteField_ne_nil (field : List Char) : quoteField field ≠ [] := List.cons_ne_nil _ _

theorem writeRow_cons (field field' : List Char) (fields : Row) :
    writeRow (field :: field' :: fields) =
      quoteField field ++ ';' :: writeRow (field' :: fields) := by
  rw [writeRow, List.map_cons, List.map_cons, List.intercalate_cons_cons, List.append_assoc,
    ← List.map_cons, ← writeRow]
  rfl

theorem writeRow_singleton (field : List Char) : writeRow [field] = quoteField field := by
  rw [writeRow, List.map_singleton, List.intercalate_singleton]

theorem writeRow_ne_nil (field : List Char) (fields : Row) : writeRow (field :: fields) ≠ [] := by
  cases fields with
  | nil =>
    rw [writeRow_singleton]
    exact quoteField_ne_nil field
  | cons field' fields =>
    rw [writeRow_cons]
    exact List.append_ne_nil_of_left_ne_nil (quoteField_ne_nil field) _

/-- A row with a line end after it is read, and the next row begins. -/
theorem parse_writeRow_lineEnd (hrow : row ≠ []) (hplain : ∀ field ∈ row, PlainField field)
    (lineEnd : LineEnd) (csv : List Char) (rows : List Row) (before : Row) :
    CsvState.parse ⟨writeRow row ++ (lineEnd.chars ++ csv), rows, before⟩ =
      CsvState.parse ⟨csv, rows ++ [before ++ row], []⟩ := by
  induction row generalizing before with
  | nil => exact absurd rfl hrow
  | cons field fields ih =>
    have hfield := hplain field (List.mem_cons_self ..)
    cases fields with
    | nil =>
      rw [writeRow_singleton]
      exact CsvState.parse_of_turn (List.append_ne_nil_of_left_ne_nil (quoteField_ne_nil field) _)
        (csvTurn_lineEnd hfield lineEnd csv)
    | cons field' fields =>
      have hrest := ih (List.cons_ne_nil _ _) (fun f hf => hplain f (List.mem_cons_of_mem _ hf))
        (before ++ [field])
      rw [List.append_assoc, List.singleton_append] at hrest
      rw [← hrest, writeRow_cons, List.append_assoc, List.cons_append]
      exact CsvState.parse_of_turn (List.append_ne_nil_of_left_ne_nil (quoteField_ne_nil field) _)
        (csvTurn_separator hfield (List.append_ne_nil_of_left_ne_nil (writeRow_ne_nil _ _) _))

/-- A row at the end of the text is read as the last one. -/
theorem parse_writeRow (hrow : row ≠ []) (hplain : ∀ field ∈ row, PlainField field)
    (rows : List Row) (before : Row) :
    CsvState.parse ⟨writeRow row, rows, before⟩ = some (.ok (rows ++ [before ++ row])) := by
  induction row generalizing before with
  | nil => exact absurd rfl hrow
  | cons field fields ih =>
    have hfield := hplain field (List.mem_cons_self ..)
    cases fields with
    | nil =>
      rw [writeRow_singleton]
      exact CsvState.parse_of_last (quoteField_ne_nil field) (csvTurn_end hfield)
    | cons field' fields =>
      have hrest := ih (List.cons_ne_nil _ _) (fun f hf => hplain f (List.mem_cons_of_mem _ hf))
        (before ++ [field])
      rw [List.append_assoc, List.singleton_append] at hrest
      rw [← hrest, writeRow_cons]
      exact CsvState.parse_of_turn (List.append_ne_nil_of_left_ne_nil (quoteField_ne_nil field) _)
        (csvTurn_separator hfield (writeRow_ne_nil _ _))

/-- What rows are written as is read as these rows, behind those that were read before. -/
theorem parse_written {text : List Char} (h : Written rows text)
    (hplain : ∀ row ∈ rows, row ≠ [] ∧ ∀ field ∈ row, PlainField field) (before : List Row) :
    CsvState.parse ⟨text, before, []⟩ = some (.ok (before ++ rows)) := by
  induction h generalizing before with
  | unended row =>
    obtain ⟨hrow, hfields⟩ := hplain row (List.mem_singleton_self row)
    exact parse_writeRow hrow hfields before []
  | ended row lineEnd =>
    obtain ⟨hrow, hfields⟩ := hplain row (List.mem_singleton_self row)
    have hread := parse_writeRow_lineEnd hrow hfields lineEnd [] before []
    rw [List.append_nil] at hread
    exact hread
  | cons row lineEnd _ ih =>
    obtain ⟨hrow, hfields⟩ := hplain row (List.mem_cons_self ..)
    rw [List.append_assoc, parse_writeRow_lineEnd hrow hfields lineEnd,
      ih (fun row' hrow' => hplain row' (List.mem_cons_of_mem _ hrow')), List.append_assoc]
    rfl

/-- **The parser ends on every text**, with rows or an error, and more turns than it takes make no
difference; **and it reads what was written**: rows of quoted fields come back as they were. -/
theorem parseCsv_spec :
    (∀ csv, ∃ result, parseCsv csv = some result ∧
      ∀ turns, csv.length ≤ turns → parseRecords turns ⟨csv, [], []⟩ = some result) ∧
    ∀ rows text, Written rows text →
      (∀ row ∈ rows, row ≠ [] ∧ ∀ field ∈ row, PlainField field) →
      parseCsv text = some (.ok rows) := by
  refine ⟨fun csv => ?_, fun rows text h hplain => parse_written h hplain []⟩
  obtain ⟨result, hresult⟩ := @parseRecords_eq_some csv.length ⟨csv, [], []⟩ le_rfl
  exact ⟨result, hresult _ le_rfl, hresult⟩

theorem parseCsv_spec_quotes :
    parseCsv "\"a\"\";\n\";\"\"\r\n\"b\"\n".toList =
      some (.ok [[['a', '"', ';', '\n'], []], [['b']]]) := by
  refine parseCsv_spec.2 _ _ (.cons [['a', '"', ';', '\n'], []] .crlf (.ended [['b']] .lf)) ?_
  decide

end RoundTrip

end FastEcu.Definition
