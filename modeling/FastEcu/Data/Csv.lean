import Mathlib.Data.List.Basic

/-!
# Records of comma-separated fields

The parse of RFC 4180 as a machine that takes one symbol at a time, over any alphabet with four symbols
that stand for the comma, the quote and the two line breaks.  A record ends at a line feed, so that a blank
line is a record of one empty field; a carriage return has no place outside quotes.

* `Dialect` : the four symbols.
* `Csv.step`, `Csv.parse` : the machine and the parse.
* `FieldText`, `RecordText` : the texts a field and a record can be written as.
* `parse_recordTexts` : a text of written records is parsed into these records.
-/

namespace FastEcu

/-- The symbols of a dialect, all different. -/
structure Dialect (α : Type*) where
  comma : α
  quote : α
  cr : α
  lf : α
  quote_ne_comma : quote ≠ comma
  quote_ne_lf : quote ≠ lf
  lf_ne_comma : lf ≠ comma

namespace Csv

variable {α : Type*}

/-- Where in a field the machine is: before its first symbol, in a field without quotes, between the
quotes, or behind a quote that ends the field unless a second one follows. -/
inductive Mode
  | start
  | plain
  | quoted
  | closed
deriving DecidableEq, Repr

/-- The records so far, the fields of the present record and what there is of the present field. -/
structure State (α : Type*) where
  records : List (List (List α)) := []
  record : List (List α) := []
  field : List α := []
  mode : Mode := .start

namespace State

/-- The present field is complete and another one follows. -/
def endField (state : State α) : State α :=
  { state with record := state.record ++ [state.field], field := [], mode := .start }

/-- The present field is complete, and so is the record. -/
def endRecord (state : State α) : State α :=
  { records := state.records ++ [state.record ++ [state.field]] }

/-- The next symbol belongs to the present field. -/
def push (state : State α) (mode : Mode) (symbol : α) : State α :=
  { state with field := state.field ++ [symbol], mode := mode }

end State

/-- The machine has read a field, and all that is left of it is the symbol that separates it from the
next. -/
structure Read (records : List (List (List α))) (record : List (List α)) (field : List α)
    (state : State α) : Prop where
  records_eq : state.records = records
  record_eq : state.record = record
  field_eq : state.field = field
  outside : state.mode ≠ .quoted

theorem Read.endField {records : List (List (List α))} {record : List (List α)} {field : List α}
    {state : State α} (h : Read records record field state) :
    state.endField = { records := records, record := record ++ [field] } := by
  rw [State.endField, h.records_eq, h.record_eq, h.field_eq]

theorem Read.endRecord {records : List (List (List α))} {record : List (List α)} {field : List α}
    {state : State α} (h : Read records record field state) :
    state.endRecord = { records := records ++ [record ++ [field]] } := by
  rw [State.endRecord, h.records_eq, h.record_eq, h.field_eq]

variable [DecidableEq α] (d : Dialect α)

/-- What may follow a complete field. -/
def separate (state : State α) (symbol : α) : Option (State α) :=
  if symbol = d.comma then some state.endField
  else if symbol = d.lf then some state.endRecord
  else none

/-- A symbol of a field without quotes, or what follows the field. -/
def plainStep (state : State α) (symbol : α) : Option (State α) :=
  if symbol = d.comma ∨ symbol = d.lf then separate d state symbol
  else if symbol = d.quote ∨ symbol = d.cr then none
  else some (state.push .plain symbol)

/-- One symbol. -/
def step (state : State α) (symbol : α) : Option (State α) :=
  match state.mode with
  | .start =>
    if symbol = d.quote then some { state with mode := .quoted } else plainStep d state symbol
  | .plain => plainStep d state symbol
  | .quoted =>
    if symbol = d.quote then some { state with mode := .closed }
    else some (state.push .quoted symbol)
  | .closed =>
    if symbol = d.quote then some (state.push .quoted symbol) else separate d state symbol

/-- The end of the text: a record that has begun is the last one, and quotes have to be closed. -/
def finish (state : State α) : Option (List (List (List α))) :=
  match state.mode with
  | .quoted => none
  | .start =>
    if state.record = [] then some state.records else some state.endRecord.records
  | .plain => some state.endRecord.records
  | .closed => some state.endRecord.records

/-- A text, from a state on. -/
def run (state : State α) (text : List α) : Option (State α) := text.foldlM (step d) state

/-- The records of a text, if it has any parse. -/
def parse (text : List α) : Option (List (List (List α))) := (run d {} text).bind finish

/-! ### Texts of fields and records -/

/-- The symbol has a meaning of its own in a field without quotes. -/
def Special (symbol : α) : Prop :=
  symbol = d.comma ∨ symbol = d.quote ∨ symbol = d.cr ∨ symbol = d.lf

instance (symbol : α) : Decidable (Special d symbol) := inferInstanceAs (Decidable (_ ∨ _ ∨ _ ∨ _))

/-- A field with its quotes doubled. -/
def doubled (field : List α) : List α :=
  field.flatMap fun symbol => if symbol = d.quote then [d.quote, d.quote] else [symbol]

/-- The text is one that the field can be written as. -/
inductive FieldText (field : List α) : List α → Prop
  | plain (h : ∀ symbol ∈ field, ¬ Special d symbol) : FieldText field field
  | quoted : FieldText field (d.quote :: doubled d field ++ [d.quote])

/-- The text is one that the fields of a record can be written as, with its line end. -/
inductive RecordText : List (List α) → List α → Prop
  | last {field text : List α} (h : FieldText d field text) : RecordText [field] (text ++ [d.lf])
  | cons {field text : List α} {record : List (List α)} {rest : List α} (h : FieldText d field text)
      (hrest : RecordText record rest) : RecordText (field :: record) (text ++ d.comma :: rest)

variable {d}

theorem doubled_cons (symbol : α) (field : List α) : doubled d (symbol :: field) =
    (if symbol = d.quote then [d.quote, d.quote] else [symbol]) ++ doubled d field := rfl

/-! ### Reading a field -/

theorem run_append (state : State α) (text text' : List α) :
    run d state (text ++ text') = (run d state text).bind fun next => run d next text' := by
  rw [run, List.foldlM_append]
  rfl

theorem run_cons {state next : State α} {symbol : α} (h : step d state symbol = some next)
    (text : List α) : run d state (symbol :: text) = run d next text := by
  rw [run, List.foldlM_cons, h]
  rfl

/-- A symbol without a meaning of its own is taken into a field without quotes. -/
theorem step_plain {state : State α} {symbol : α} (hmode : state.mode = .start ∨ state.mode = .plain)
    (h : ¬ Special d symbol) : step d state symbol = some (state.push .plain symbol) := by
  simp only [Special, not_or] at h
  obtain ⟨hcomma, hquote, hcr, hlf⟩ := h
  have hplain : plainStep d state symbol = some (state.push .plain symbol) := by
    rw [plainStep, if_neg (not_or.2 ⟨hcomma, hlf⟩), if_neg (not_or.2 ⟨hquote, hcr⟩)]
  rcases hmode with hmode | hmode
  · rw [step, hmode]
    exact (if_neg hquote).trans hplain
  · rw [step, hmode]
    exact hplain

/-- Outside quotes the machine takes what separates fields. -/
theorem separate_of_read {state : State α} (h : state.mode ≠ .quoted) {symbol : α}
    (hsymbol : symbol = d.comma ∨ symbol = d.lf) : step d state symbol = separate d state symbol := by
  have hquote : symbol ≠ d.quote := by
    rcases hsymbol with rfl | rfl
    · exact d.quote_ne_comma.symm
    · exact d.quote_ne_lf.symm
  cases hmode : state.mode with
  | start =>
    rw [step, hmode]
    exact (if_neg hquote).trans (if_pos hsymbol)
  | plain =>
    rw [step, hmode]
    exact if_pos hsymbol
  | quoted => exact absurd hmode h
  | closed =>
    rw [step, hmode]
    exact if_neg hquote

theorem step_comma {state : State α} (h : state.mode ≠ .quoted) : step d state d.comma = some state.endField := by
  rw [separate_of_read h (.inl rfl), separate, if_pos rfl]

theorem step_lf {state : State α} (h : state.mode ≠ .quoted) : step d state d.lf = some state.endRecord := by
  rw [separate_of_read h (.inr rfl), separate, if_neg d.lf_ne_comma, if_pos rfl]

/-- The symbols of a field without quotes, from its start or from its middle. -/
theorem run_plain {state : State α} (field : List α)
    (hmode : state.mode = .start ∨ state.mode = .plain) (h : ∀ symbol ∈ field, ¬ Special d symbol) :
    ∃ mode, mode ≠ .quoted ∧
      run d state field = some { state with field := state.field ++ field, mode := mode } := by
  induction field generalizing state with
  | nil =>
    refine ⟨state.mode, ?_, ?_⟩
    · rcases hmode with hmode | hmode <;> rw [hmode] <;> decide
    · rw [List.append_nil]
      rfl
  | cons symbol field ih =>
    obtain ⟨hsymbol, hfield⟩ := List.forall_mem_cons.1 h
    obtain ⟨mode, hne, hrun⟩ := @ih (state.push .plain symbol) (.inr rfl) hfield
    refine ⟨mode, hne, ?_⟩
    rw [run_cons (step_plain hmode hsymbol), hrun]
    simp only [State.push, List.append_assoc, List.singleton_append]

/-- The symbols between quotes, whatever they are, as long as their quotes are doubled. -/
theorem run_doubled {state : State α} (field : List α) (hmode : state.mode = .quoted) :
    run d state (doubled d field) = some { state with field := state.field ++ field } := by
  induction field generalizing state with
  | nil =>
    rw [List.append_nil]
    rfl
  | cons symbol field ih =>
    have hrest := @ih (state.push .quoted symbol) rfl
    have hresult : ({ state.push .quoted symbol with field := state.field ++ [symbol] ++ field } :
        State α) = { state with field := state.field ++ symbol :: field } := by
      simp only [State.push, List.append_assoc, List.singleton_append, hmode]
    rw [doubled_cons]
    by_cases hquote : symbol = d.quote
    · -- the first quote could be the end of the field, the second one says that it is not
      have hfirst : step d state d.quote = some { state with mode := .closed } := by
        rw [step, hmode]
        exact if_pos rfl
      have hsecond : step d { state with mode := .closed } d.quote = some (state.push .quoted symbol) := by
        rw [step, hquote]
        exact if_pos rfl
      rw [if_pos hquote, List.cons_append, List.singleton_append, run_cons hfirst, run_cons hsecond,
        hrest]
      exact congrArg some hresult
    · have hpush : step d state symbol = some (state.push .quoted symbol) := by
        rw [step, hmode]
        exact if_neg hquote
      rw [if_neg hquote, List.singleton_append, run_cons hpush, hrest]
      exact congrArg some hresult

/-- **A field is read as it was**, quoted or not. -/
theorem run_fieldText {field text : List α} (h : FieldText d field text) (records : List (List (List α)))
    (record : List (List α)) :
    ∃ state, Read records record field state ∧
      run d { records := records, record := record } text = some state := by
  cases h with
  | plain hplain =>
    obtain ⟨mode, hne, hrun⟩ := @run_plain α _ d { records := records, record := record } field
      (.inl rfl) hplain
    exact ⟨_, ⟨rfl, rfl, List.nil_append _, hne⟩, hrun⟩
  | quoted =>
    have hopen : step d { records := records, record := record } d.quote =
        some { records := records, record := record, mode := .quoted } := if_pos rfl
    have hclose : step d { records := records, record := record, field := field, mode := .quoted } d.quote =
        some { records := records, record := record, field := field, mode := .closed } := if_pos rfl
    refine ⟨{ records := records, record := record, field := field, mode := .closed },
      ⟨rfl, rfl, rfl, (by decide : Mode.closed ≠ .quoted)⟩, ?_⟩
    rw [List.cons_append, run_cons hopen, run_append, run_doubled field rfl, List.nil_append,
      Option.bind_some, run_cons hclose]
    rfl

/-! ### Reading records -/

/-- **A record is read as it was**, and the next one begins. -/
theorem run_recordText {record : List (List α)} {text : List α} (h : RecordText d record text)
    (records : List (List (List α))) (before : List (List α)) :
    run d { records := records, record := before } text =
      some { records := records ++ [before ++ record] } := by
  induction h generalizing before with
  | last hfield =>
    obtain ⟨next, hread, hrun⟩ := run_fieldText hfield records before
    rw [run_append, hrun, Option.bind_some, run_cons (step_lf hread.outside), hread.endRecord]
    rfl
  | cons hfield _ ih =>
    obtain ⟨next, hread, hrun⟩ := run_fieldText hfield records before
    rw [run_append, hrun, Option.bind_some, run_cons (step_comma hread.outside), hread.endField, ih,
      List.append_assoc, List.singleton_append]

/-- A text of records, each written as `write` does, is read as these records. -/
theorem run_records {write : List (List α) → List α} {records : List (List (List α))}
    (h : ∀ record ∈ records, RecordText d record (write record)) (before : List (List (List α))) :
    run d { records := before } (records.flatMap write) = some { records := before ++ records } := by
  induction records generalizing before with
  | nil =>
    rw [List.append_nil]
    rfl
  | cons record records ih =>
    obtain ⟨hrecord, hrest⟩ := List.forall_mem_cons.1 h
    rw [List.flatMap_cons, run_append, run_recordText hrecord before [], Option.bind_some, ih hrest,
      List.nil_append, List.append_assoc, List.singleton_append]

/-- **A text of written records is parsed into these records.** -/
theorem parse_recordTexts {write : List (List α) → List α} {records : List (List (List α))}
    (h : ∀ record ∈ records, RecordText d record (write record)) :
    parse d (records.flatMap write) = some records := by
  rw [parse, run_records h [], Option.bind_some, List.nil_append, finish]
  exact if_pos rfl

end Csv

end FastEcu
