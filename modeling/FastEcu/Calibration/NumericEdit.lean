import FastEcu.Calibration.Decode

/-!
# Calculating a numeric edit

`src/backend/calibration/numeric_map_edit.cpp`: an edit of a selection of cells is calculated into a
patch, a list of cells with their new bytes, before anything is written.  A cell whose bytes would
not change is left out of the patch, and the first cell that has no new value fails the edit.

* `Request` : a cell of an edit, with the value that is asked for it.
* `calculate` : the patch of an operation on the cells of a run.
-/

namespace FastEcu.Calibration

open Memory Expression

/-- `SelectionRange`. -/
structure SelectionRange where
  firstRow : ℤ
  firstCol : ℤ
  lastRow : ℤ
  lastCol : ℤ

/-- `IncrementStep`. -/
inductive IncrementStep
  | fineUp
  | fineDown
  | coarseUp
  | coarseDown
deriving DecidableEq, Repr

/-- `InterpolationMode`. -/
inductive InterpolationMode
  | horizontal
  | vertical
  | bidirectional
deriving DecidableEq, Repr

/-- `NumericEditOperation`. -/
inductive NumericEditOperation
  | increment (step : IncrementStep)
  | assignment (expression : String)
  | interpolation (mode : InterpolationMode)
  | paste (rows : List (List String))

/-- `NoChangeReason`. -/
inductive NoChangeReason
  | none
  | unchanged
  | belowStorageResolution
  | definitionLimit
  | multipleCauses
deriving DecidableEq, Repr

/-- `CellWrite`. -/
structure CellWrite where
  index : ℕ
  byteAddress : ℕ
  bytes : Bytes
deriving DecidableEq

/-- `NumericEditResult`. -/
structure NumericEditResult where
  writes : List CellWrite
  noChange : NoChangeReason

/-- `Limits`. -/
structure Limits (α : Type) where
  minimum : Option α
  maximum : Option α

variable {α : Type} (N : Numbers α)

/-! ### Limits and selections -/

/-- `ParseLimit`. -/
def parseLimit (text : String) : Except Error (Option α) :=
  if isBlank text then .ok none
  else
    match parseFiniteNumber N text.toList with
    | .error e => invalidConfig s!"invalid definition limit: {e.detail}"
    | .ok value => .ok (some value)

/-- `LimitsFor`. -/
def limitsFor (spec : MapElementSpec α) : Except Error (Limits α) :=
  match parseLimit N spec.minValue with
  | .error e => .error e
  | .ok minimum =>
    match parseLimit N spec.maxValue with
    | .error e => .error e
    | .ok maximum =>
      if minimum.any fun low => maximum.any fun high => N.lt high low then
        invalidConfig "definition minimum exceeds maximum"
      else .ok ⟨minimum, maximum⟩

/-- The selection is one of the run: what `ValidateSelection` lets through. -/
structure SelectionRange.Valid (range : SelectionRange) (width count : ℕ) : Prop where
  width_ne : width ≠ 0
  count_ne : count ≠ 0
  count_le : count ≤ u32Max
  mod_eq : count % width = 0
  firstRow_nonneg : 0 ≤ range.firstRow
  firstCol_nonneg : 0 ≤ range.firstCol
  row_le : range.firstRow ≤ range.lastRow
  col_le : range.firstCol ≤ range.lastCol
  lastCol_lt : range.lastCol.toNat < width
  lastRow_lt : range.lastRow.toNat < count / width

/-- `ValidateSelection`. -/
def validateSelection (width count : ℕ) (range : SelectionRange) : Except Error Unit :=
  if width = 0 ∨ count = 0 ∨ u32Max < count ∨ count % width ≠ 0 ∨ range.firstRow < 0 ∨
      range.firstCol < 0 ∨ range.lastRow < range.firstRow ∨ range.lastCol < range.firstCol ∨
      width ≤ range.lastCol.toNat ∨ count / width ≤ range.lastRow.toNat then
    invalidConfig "edit selection exceeds its numeric run"
  else .ok ()

theorem validateSelection_eq_ok {width count : ℕ} {range : SelectionRange}
    (h : validateSelection width count range = .ok ()) : range.Valid width count := by
  simp only [validateSelection] at h
  split at h
  · cases h
  · rename_i hvalid
    simp only [not_or, not_lt, not_le, ne_eq, not_not] at hvalid
    obtain ⟨h₁, h₂, h₃, h₄, h₅, h₆, h₇, h₈, h₉, h₁₀⟩ := hvalid
    exact ⟨h₁, h₂, h₃, h₄, h₅, h₆, h₇, h₈, h₉, h₁₀⟩

/-! ### The new bytes of a cell -/

/-- `WriteRawElement`. -/
def writeRawElement (spec : MapElementSpec α) (raw : ℤ) : Bytes :=
  let width := storageByteSize spec.storageType
  let packed := UInt32.ofNat (raw % 2 ^ 32).toNat
  let littleEndian := spec.storageType ≠ some .float ∧ spec.endian = "little"
  (List.range width).map fun k =>
    byteOf packed (UInt32.ofNat (if littleEndian then 8 * k else 8 * (width - 1 - k)))

/-- `EncodeValue`: the storage encoding of a value. -/
def encodeValue (spec : MapElementSpec α) (value : α) : Except Error Bytes :=
  if spec.storageType = none ∨ spec.storageType = some .bloblist ∨ spec.startPosition = 0 ∨
      spec.interval = 0 ∨ ¬ N.isFinite value then
    invalidConfig "edit has invalid numeric storage, stride, or value"
  else
    match evaluateChecked N.toArithmetic spec.toByte.toList value with
    | .error e => invalidConfig s!"encoding expression: {e.detail}"
    | .ok encoded =>
      if spec.storageType = some .float then
        if N.lt N.floatMax (N.abs encoded) then
          invalidConfig "value exceeds finite float storage range"
        else .ok (writeRawElement spec (N.toFloat encoded).toNat)
      else
        let bitCount := storageByteSize spec.storageType * 8
        let isUnsigned := isUnsignedStorage spec.storageType
        let minimum := if isUnsigned then N.ofInt 0 else N.neg (N.ofInt (2 ^ (bitCount - 1)))
        let maximum := N.ofInt (2 ^ (if isUnsigned then bitCount else bitCount - 1) - 1)
        let rounded := N.round encoded
        if N.lt rounded minimum ∨ N.lt maximum rounded then
          let low := N.format minimum
          let high := N.format maximum
          invalidConfig s!"encoded value is outside storage range [{low}, {high}]"
        else .ok (writeRawElement spec (N.toInt rounded))

/-- A value within the limits: `std::max` with the minimum, and then `std::min` with the maximum. -/
def clamp (limits : Limits α) (requested : α) : α :=
  let low := match limits.minimum with
    | none => requested
    | some minimum => if N.lt requested minimum then minimum else requested
  match limits.maximum with
  | none => low
  | some maximum => if N.lt maximum low then maximum else low

/-- `MergeReason`. -/
def mergeReason (previous next : NoChangeReason) : NoChangeReason :=
  if next = .unchanged then previous
  else if previous = .unchanged then next
  else if previous ≠ next then .multipleCauses
  else previous

/-- `AppendWrite`. -/
def appendWrite (rom : DefinitionBytes) (spec : MapElementSpec α) (limits : Limits α) (index : ℕ)
    (requested : α) (old : Option (Except Error α)) (result : NumericEditResult) :
    Except Error NumericEditResult :=
  if ¬ N.isFinite requested then invalidConfig "requested value is not finite"
  else
    let clamped := clamp N limits requested
    match encodeValue N spec clamped with
    | .error e => .error e
    | .ok encoded =>
      let address := elementByteAddress spec index
      match rom.at address encoded.length with
      | none => invalidConfig "edit byte range exceeds ROM size"
      | some current =>
        if current = encoded then
          let differs := match old with
            | some (.ok value) => ! N.eq value clamped
            | _ => false
          let reason :=
            if ! N.eq clamped requested then .definitionLimit
            else if differs then .belowStorageResolution
            else .unchanged
          .ok { result with noChange := mergeReason result.noChange reason }
        else .ok { result with writes := result.writes ++ [⟨index, address, encoded⟩] }

/-! ### The cells of an edit -/

/-- One cell of an edit: its index, the value that is asked for it, and its value so far, if the
edit looks at it. -/
structure Request (α : Type) where
  index : ℕ
  value : Except Error α
  old : Option (Except Error α)

/-- The loop over the cells of an edit. -/
def appendRequests (rom : DefinitionBytes) (spec : MapElementSpec α) (limits : Limits α) :
    List (Request α) → NumericEditResult → Except Error NumericEditResult
  | [], result => .ok result
  | request :: rest, result =>
    match request.value with
    | .error e => .error ⟨e.kind, s!"cell {request.index}: {e.detail}"⟩
    | .ok value =>
      match appendWrite N rom spec limits request.index value request.old result with
      | .error e => .error ⟨e.kind, s!"cell {request.index}: {e.detail}"⟩
      | .ok result => appendRequests rom spec limits rest result

/-- The patch of the cells. -/
def buildRequests (rom : DefinitionBytes) (spec : MapElementSpec α) (width count : ℕ)
    (range : SelectionRange) (requests : List (Request α)) : Except Error NumericEditResult :=
  match validateSelection width count range with
  | .error e => .error e
  | .ok () =>
    match limitsFor N spec with
    | .error e => .error e
    | .ok limits =>
      match appendRequests N rom spec limits requests ⟨[], .unchanged⟩ with
      | .error e => .error e
      | .ok result =>
        .ok (if result.writes = [] then result else { result with noChange := .none })

/-- The numbers from `first` up to `last`. -/
def span (first last : ℤ) : List ℕ := List.range' first.toNat (last.toNat + 1 - first.toNat)

/-- The rows and columns of a selection, row by row. -/
def SelectionRange.cells (range : SelectionRange) : List (ℕ × ℕ) :=
  (span range.firstRow range.lastRow).flatMap fun row =>
    (span range.firstCol range.lastCol).map fun col => (row, col)

/-- The index of a cell in a run of `width` columns. -/
def cellIndex (width row col : ℕ) : ℕ := u32 (row * width + col)

/-- The cells that `BuildPatch` goes through. -/
def selectedRequests (width : ℕ) (cells : NumericRun α) (range : SelectionRange)
    (candidate : ℕ → ℕ → ℕ → Except Error α) : List (Request α) :=
  range.cells.map fun (row, col) =>
    let index := cellIndex width row col
    ⟨index, candidate index row col, cells[index]?⟩

/-- `BuildPatch`. -/
def buildPatch (rom : DefinitionBytes) (spec : MapElementSpec α) (width : ℕ)
    (cells : NumericRun α) (range : SelectionRange) (candidate : ℕ → ℕ → ℕ → Except Error α) :
    Except Error NumericEditResult :=
  buildRequests N rom spec width cells.length range (selectedRequests width cells range candidate)

/-! ### The values that are asked for -/

/-- `CurrentValue`.  The selection is checked before any cell is read, so the index is in the run. -/
def currentValue (cells : NumericRun α) (index : ℕ) : Except Error α :=
  match cells[index]? with
  | some (.ok value) =>
    if N.isFinite value then .ok value else invalidConfig "current cell is not finite"
  | some (.error e) => .error e
  | none => invalidConfig "current cell is not finite"

/-- The loop of `UsesCurrentValue`; each turn takes a token off the formula. -/
def usesCurrentValueFrom : ℕ → Bool → List Char → Except Error Bool
  | 0, usesInput, _ => .ok usesInput
  | _, usesInput, [] => .ok usesInput
  | fuel + 1, usesInput, token :: rest =>
    if token = 'x' then usesCurrentValueFrom fuel true rest
    else if token = '.' ∨ token.isDigit then
      match fromChars N.toArithmetic (token :: rest) with
      | none => invalidConfig "assignment contains an invalid numeric literal"
      | some (number, behind) =>
        if N.isFinite number then usesCurrentValueFrom fuel usesInput behind
        else invalidConfig "assignment contains an invalid numeric literal"
    else if whitespace token ∨ token ∈ "+-*/()".toList then usesCurrentValueFrom fuel usesInput rest
    else invalidConfig "assignment contains an unsupported token"

/-- `UsesCurrentValue`. -/
def usesCurrentValue (formula : String) : Except Error Bool :=
  if isBlank formula then .ok true
  else usesCurrentValueFrom N formula.toList.length false formula.toList

/-- `InterpolatePair`. -/
def interpolatePair (cells : NumericRun α) (first last : ℕ) (fraction : α) : Except Error α :=
  match currentValue N cells (u32 first) with
  | .error e => .error e
  | .ok left =>
    match currentValue N cells (u32 last) with
    | .error e => .error e
    | .ok right => .ok (N.lerp left right fraction)

/-- How far `here` is from `first` to `last`. -/
def fractionOf (first last here : ℕ) : α :=
  if first = last then N.ofInt 0
  else N.div (N.ofInt (here - first : ℕ)) (N.ofInt (last - first : ℕ))

/-- `Interpolated`. -/
def interpolated (cells : NumericRun α) (width : ℕ) (range : SelectionRange)
    (mode : InterpolationMode) (row col : ℕ) : Except Error α :=
  let firstRow := range.firstRow.toNat
  let lastRow := range.lastRow.toNat
  let firstCol := range.firstCol.toNat
  let lastCol := range.lastCol.toNat
  let horizontal := fractionOf N firstCol lastCol col
  let vertical := fractionOf N firstRow lastRow row
  match mode with
  | .horizontal =>
    interpolatePair N cells (row * width + firstCol) (row * width + lastCol) horizontal
  | .vertical =>
    interpolatePair N cells (firstRow * width + col) (lastRow * width + col) vertical
  | .bidirectional =>
    match interpolatePair N cells (firstRow * width + firstCol) (firstRow * width + lastCol)
        horizontal with
    | .error e => .error e
    | .ok top =>
      match interpolatePair N cells (lastRow * width + firstCol) (lastRow * width + lastCol)
          horizontal with
      | .error e => .error e
      | .ok bottom => .ok (N.lerp top bottom vertical)

/-- The amount of an increment. -/
def incrementAmount (spec : MapElementSpec α) (step : IncrementStep) : α :=
  let fine := step = .fineUp ∨ step = .fineDown
  let down := step = .fineDown ∨ step = .coarseDown
  N.mul (if fine then spec.fineIncrement else spec.coarseIncrement)
    (if down then N.ofInt (-1) else N.ofInt 1)

/-- The value that `CalculateIncrement` asks for. -/
def incremented (cells : NumericRun α) (amount : α) (index : ℕ) : Except Error α :=
  match currentValue N cells index with
  | .error e => .error e
  | .ok current => .ok (N.add current amount)

/-- The value that `CalculateAssignment` asks for. -/
def assigned (cells : NumericRun α) (needsInput : Bool) (formula : String) (index : ℕ) :
    Except Error α :=
  match if needsInput then currentValue N cells index else .ok (N.ofInt 0) with
  | .error e => .error e
  | .ok current =>
    match evaluateChecked N.toArithmetic formula.toList current with
    | .error e => invalidConfig e.detail
    | .ok value => .ok value

/-- `CalculateIncrement`. -/
def calculateIncrement (rom : DefinitionBytes) (spec : MapElementSpec α) (width : ℕ)
    (cells : NumericRun α) (range : SelectionRange) (step : IncrementStep) :
    Except Error NumericEditResult :=
  let amount := incrementAmount N spec step
  if ¬ N.isFinite amount ∨ N.isZero amount then
    invalidConfig "increment must be finite and nonzero"
  else buildPatch N rom spec width cells range fun index _ _ => incremented N cells amount index

/-- `CalculateAssignment`. -/
def calculateAssignment (rom : DefinitionBytes) (spec : MapElementSpec α) (width : ℕ)
    (cells : NumericRun α) (range : SelectionRange) (formula : String) :
    Except Error NumericEditResult :=
  match usesCurrentValue N formula with
  | .error e => .error e
  | .ok needsInput =>
    buildPatch N rom spec width cells range fun index _ _ =>
      assigned N cells needsInput formula index

/-- `CalculateInterpolation`. -/
def calculateInterpolation (rom : DefinitionBytes) (spec : MapElementSpec α) (width : ℕ)
    (cells : NumericRun α) (range : SelectionRange) (mode : InterpolationMode) :
    Except Error NumericEditResult :=
  buildPatch N rom spec width cells range fun _ row col =>
    interpolated N cells width range mode row col

/-! ### Pasting -/

/-- The cells that `CalculatePaste` goes through: from the top left of the selection on, as many as
the run has room for, in rows no longer than the first. -/
def pasteRequests (width height : ℕ) (range : SelectionRange) (values : List (List α)) :
    List (Request α) :=
  let firstRow := range.firstRow.toNat
  let firstCol := range.firstCol.toNat
  let columns := (values.head?.map List.length).getD 0
  let rowsToUse := min values.length (height - firstRow)
  (values.take rowsToUse).zipIdx.flatMap fun (cells, row) =>
    let columnsToUse := min columns (min cells.length (width - firstCol))
    (cells.take columnsToUse).zipIdx.map fun (value, col) =>
      ⟨cellIndex width (firstRow + row) (firstCol + col), .ok value, none⟩

/-- `CalculatePaste`. -/
def calculatePaste (rom : DefinitionBytes) (spec : MapElementSpec α) (width height : ℕ)
    (range : SelectionRange) (values : List (List α)) : Except Error NumericEditResult :=
  buildRequests N rom spec width (width * height) range (pasteRequests width height range values)

/-- The numbers of one pasted row. -/
def parseRow : List String → Except Error (List α)
  | [] => .ok []
  | text :: rest =>
    match parseFiniteNumber N text.toList with
    | .error e => invalidConfig e.detail
    | .ok value =>
      match parseRow rest with
      | .error e => .error e
      | .ok values => .ok (value :: values)

/-- `ParsePaste`. -/
def parsePaste : List (List String) → Except Error (List (List α))
  | [] => .ok []
  | row :: rest =>
    match parseRow N row with
    | .error e => .error e
    | .ok values =>
      match parsePaste rest with
      | .error e => .error e
      | .ok rows => .ok (values :: rows)

/-- `Calculate`. -/
def calculate (rom : DefinitionBytes) (spec : MapElementSpec α) (range : SelectionRange)
    (width height : ℕ) (cells : NumericRun α) :
    NumericEditOperation → Except Error NumericEditResult
  | .increment step => calculateIncrement N rom spec width cells range step
  | .assignment expression => calculateAssignment N rom spec width cells range expression
  | .interpolation mode => calculateInterpolation N rom spec width cells range mode
  | .paste rows =>
    match parsePaste N rows with
    | .error e => .error e
    | .ok values => calculatePaste N rom spec width height range values

end FastEcu.Calibration
