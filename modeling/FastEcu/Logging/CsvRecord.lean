import FastEcu.Bytes.Words
import FastEcu.Data.Csv

/-!
# The records of a logging file

`SerializeLoggingCsvRecord` (`src/backend/logging/logging_csv_record.cpp`) writes the fields of a record with
commas between them; a field with a comma, a quote or a line break in it goes in quotes.

* `serializeLoggingCsvRecord` : the serialiser, its loops as folds.
* `rfc4180` : the bytes that RFC 4180 gives a meaning.
* `recordText_serialize` : what is serialised is a text of the record.
* `serialize_roundTrip` : the parse of serialised records gives the records back.
-/

namespace FastEcu.Logging

/-- The comma, the quote and the line breaks of RFC 4180. -/
def rfc4180 : Dialect UInt8 where
  comma := 0x2C
  quote := 0x22
  cr := 0x0D
  lf := 0x0A
  quote_ne_comma := by decide
  quote_ne_lf := by decide
  lf_ne_comma := by decide

/-! ### The serialiser -/

/-- `field.find_first_of(",\"\r\n") != npos`. -/
def needsQuotes (field : Bytes) : Bool :=
  field.any fun character => character ∈ ([0x2C, 0x22, 0x0D, 0x0A] : List UInt8)

/-- The body of the inner loop: a quote is written twice. -/
def pushCharacter (record : Bytes) (character : UInt8) : Bytes :=
  (if character = 0x22 then record ++ [0x22] else record) ++ [character]

/-- The quote before and behind a field that needs it. -/
def pushQuote (quote : Bool) (record : Bytes) : Bytes := if quote then record ++ [0x22] else record

/-- The body of the outer loop, on the record so far and `first`. -/
def pushField (state : Bytes × Bool) (field : Bytes) : Bytes × Bool :=
  let record := if state.2 then state.1 else state.1 ++ [0x2C]
  let quote := needsQuotes field
  (pushQuote quote (field.foldl pushCharacter (pushQuote quote record)), false)

/-- `SerializeLoggingCsvRecord`. -/
def serializeLoggingCsvRecord (fields : List Bytes) : Bytes :=
  (fields.foldl pushField ([], true)).1 ++ [0x0A]

/-! ### The text of a field -/

/-- What the serialiser writes for a field. -/
def fieldText (field : Bytes) : Bytes :=
  pushQuote (needsQuotes field) (pushQuote (needsQuotes field) [] ++ Csv.doubled rfc4180 field)

theorem pushQuote_append (quote : Bool) (before record : Bytes) :
    pushQuote quote (before ++ record) = before ++ pushQuote quote record := by
  cases quote with
  | false => rfl
  | true => exact List.append_assoc _ _ _

/-- The inner loop doubles the quotes of the field. -/
theorem foldl_pushCharacter (field record : Bytes) :
    field.foldl pushCharacter record = record ++ Csv.doubled rfc4180 field := by
  induction field generalizing record with
  | nil => exact (List.append_nil _).symm
  | cons character field ih =>
    rw [List.foldl_cons, ih, Csv.doubled_cons, ← List.append_assoc]
    congr 1
    have hrfc : rfc4180.quote = 0x22 := rfl
    by_cases hquote : character = 0x22
    · rw [pushCharacter, hrfc, if_pos hquote, if_pos hquote, hquote, List.append_assoc]
      rfl
    · rw [pushCharacter, hrfc, if_neg hquote, if_neg hquote]

theorem pushField_first (field : Bytes) : pushField ([], true) field = (fieldText field, false) := by
  rw [pushField, foldl_pushCharacter]
  rfl

theorem pushField_next (record field : Bytes) :
    pushField (record, false) field = (record ++ 0x2C :: fieldText field, false) := by
  have hnext : (if (record, false).2 = true then record else record ++ [0x2C]) =
      record ++ [0x2C] ++ [] := (List.append_nil _).symm
  rw [pushField, hnext, pushQuote_append, foldl_pushCharacter, List.append_assoc (record ++ [0x2C]),
    pushQuote_append, ← fieldText, List.append_assoc, List.singleton_append]

/-- A field without quotes has none to double. -/
theorem doubled_of_not_special {field : Bytes} (h : ∀ character ∈ field, ¬ Csv.Special rfc4180 character) :
    Csv.doubled rfc4180 field = field := by
  have hsame : ∀ character ∈ field, (if character = rfc4180.quote then [rfc4180.quote, rfc4180.quote]
      else [character]) = [character] := fun character hcharacter =>
    if_neg fun heq => h character hcharacter (.inr (.inl heq))
  rw [Csv.doubled, List.flatMap_congr hsame, List.flatMap_singleton']

/-- The serialiser quotes exactly the fields in which a byte has a meaning of its own. -/
theorem needsQuotes_eq_false_iff (field : Bytes) :
    needsQuotes field = false ↔ ∀ character ∈ field, ¬ Csv.Special rfc4180 character := by
  rw [needsQuotes, List.any_eq_false]
  refine forall₂_congr fun character _ => ?_
  simp only [List.mem_cons, List.not_mem_nil, or_false, decide_eq_true_eq, Csv.Special, rfc4180]

/-- **What is written for a field is a text of the field.** -/
theorem fieldText_spec (field : Bytes) : Csv.FieldText rfc4180 field (fieldText field) := by
  cases hquote : needsQuotes field with
  | false =>
    have hplain := (needsQuotes_eq_false_iff field).1 hquote
    have htext : fieldText field = field := by
      rw [fieldText, hquote]
      exact doubled_of_not_special hplain
    rw [htext]
    exact .plain hplain
  | true =>
    have htext : fieldText field =
        rfc4180.quote :: Csv.doubled rfc4180 field ++ [rfc4180.quote] := by
      rw [fieldText, hquote]
      rfl
    rw [htext]
    exact .quoted

/-! ### The text of a record -/

/-- The fields behind the first one, each with a comma before it. -/
theorem foldl_pushField_next (fields : List Bytes) (record : Bytes) :
    (fields.foldl pushField (record, false)).1 =
      record ++ fields.flatMap fun field => 0x2C :: fieldText field := by
  induction fields generalizing record with
  | nil => exact (List.append_nil _).symm
  | cons field fields ih =>
    rw [List.foldl_cons, pushField_next, ih, List.flatMap_cons, List.append_assoc]

theorem recordText_next (field : Bytes) (fields : List Bytes) :
    Csv.RecordText rfc4180 (field :: fields)
      (fieldText field ++ (fields.flatMap (fun field => 0x2C :: fieldText field) ++ [0x0A])) := by
  induction fields generalizing field with
  | nil => exact .last (fieldText_spec field)
  | cons next fields ih =>
    rw [List.flatMap_cons, List.append_assoc]
    exact .cons (fieldText_spec field) (ih next)

/-- **What is serialised is a text of the record**, as long as the record has a field. -/
theorem recordText_serialize {fields : List Bytes} (h : fields ≠ []) :
    Csv.RecordText rfc4180 fields (serializeLoggingCsvRecord fields) := by
  obtain ⟨field, fields, rfl⟩ := List.exists_cons_of_ne_nil h
  rw [serializeLoggingCsvRecord, List.foldl_cons, pushField_first, foldl_pushField_next,
    List.append_assoc]
  exact recordText_next field fields

/-- The records can be read back from what they are serialised as. -/
theorem parse_serialize {records : List (List Bytes)} (h : ∀ record ∈ records, record ≠ []) :
    Csv.parse rfc4180 (records.flatMap serializeLoggingCsvRecord) = some records :=
  Csv.parse_recordTexts fun record hrecord => recordText_serialize (h record hrecord)

/-- **Serialised records are read back as they were**, whatever bytes are in their fields, so that no two
lists of records are serialised as the same text. -/
theorem serialize_roundTrip :
    (∀ records : List (List Bytes), (∀ record ∈ records, record ≠ []) →
      Csv.parse rfc4180 (records.flatMap serializeLoggingCsvRecord) = some records) ∧
    ∀ records records' : List (List Bytes), (∀ record ∈ records, record ≠ []) →
      (∀ record ∈ records', record ≠ []) →
      records.flatMap serializeLoggingCsvRecord = records'.flatMap serializeLoggingCsvRecord →
      records = records' := by
  refine ⟨fun records h => parse_serialize h, fun records records' h h' heq => ?_⟩
  have hparse := parse_serialize h
  rw [heq, parse_serialize h', Option.some_inj] at hparse
  exact hparse.symm

/-- A blank line between two records, and fields with commas, quotes and line breaks. -/
theorem serialize_roundTrip_lines :
    Csv.parse rfc4180 ([[[0x61, 0x2C], []], [[]], [[0x22, 0x0A], [0x0D]]].flatMap
      serializeLoggingCsvRecord) = some [[[0x61, 0x2C], []], [[]], [[0x22, 0x0A], [0x0D]]] :=
  serialize_roundTrip.1 _ (by simp)

end FastEcu.Logging
