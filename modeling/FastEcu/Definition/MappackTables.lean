import FastEcu.Definition.MappackConverter
import FastEcu.Definition.WriterReadBack

/-!
# Loading the tables of a map pack

The tables of a map pack are made for `ParseTable` of the RomRaider parser.  The two have their own ideas of the
axes: the parser wants a name for each, and the converter gives none to an axis that it locates, and a blank to
the axis of a map with one value.

* `Succeeds` : a step has a result.
* `ReadsTable`, `parseTables_succeeds_iff` : when a list of tables is read.
* `RowParts`, `convertRow_eq_ok` : what the converter makes of a row.
* `readsTable_base`, `readsTable_located` : when the two tables of a row are read.
-/

namespace FastEcu.Definition

open Data
open XmlNode hiding text
open Calibration (Error)
open Logging (fromCharsWhole)

/-! ### Steps that succeed -/

/-- The step has a result. -/
def Succeeds {α : Type} (x : Except Error α) : Prop := ∃ a, x = .ok a

theorem succeeds_ok {α : Type} (a : α) : Succeeds (.ok a : Except Error α) := ⟨a, rfl⟩

theorem not_succeeds_error {α : Type} (e : Error) : ¬ Succeeds (.error e : Except Error α) := by
  rintro ⟨a, h⟩
  cases h

theorem succeeds_bind {α β : Type} {x : Except Error α} {f : α → Except Error β} :
    Succeeds (x >>= f) ↔ ∃ a, x = .ok a ∧ Succeeds (f a) := by
  simp only [Succeeds, bind_eq_ok]
  constructor
  · rintro ⟨b, a, ha, hb⟩
    exact ⟨a, ha, b, hb⟩
  · rintro ⟨a, ha, b, hb⟩
    exact ⟨b, a, ha, hb⟩

/-- What a loop that succeeds has made of each element. -/
theorem forall₂_of_mapM {α β : Type} {f : α → Except Error β} {l : List α} {bs : List β}
    (h : l.mapM f = .ok bs) : List.Forall₂ (fun a b => f a = .ok b) l bs := by
  induction l generalizing bs with
  | nil =>
    cases h
    exact .nil
  | cons a l ih =>
    rw [List.mapM_cons] at h
    obtain ⟨b, hb, h⟩ := bind_eq_ok.1 h
    obtain ⟨rest, hrest, h⟩ := bind_eq_ok.1 h
    cases h
    exact .cons hb (ih hrest)

/-! ### The tables of a ROM -/

/-- When the table is read, and the identity that its map has then. -/
structure ReadsTable (parseTable : XmlNode → Except Error ParsedTable) (table : XmlNode) (fit : Prop)
    (name : String) : Prop where
  succeeds : Succeeds (parseTable table) ↔ fit
  identity : ∀ parsed, parseTable table = .ok parsed → mapIdentity parsed.1 = name

/-- The tables of a ROM are read when each of them is and their names are different. -/
theorem parseTables_succeeds_iff {ρ : Type} {parseTable : XmlNode → Except Error ParsedTable} {fit : ρ → Prop}
    {name : ρ → String} {rows : List ρ} {tables : List XmlNode} (source definitionId : String)
    (h : List.Forall₂ (fun row table => ReadsTable parseTable table (fit row) (name row)) rows tables)
    (maps : List UnresolvedCalibrationMap) (scalings : List UnresolvedScaling) :
    Succeeds (parseTables source definitionId parseTable tables maps scalings) ↔
      (∀ row ∈ rows, fit row) ∧ (rows.map name).Nodup ∧
        ∀ row ∈ rows, ∀ map ∈ maps, mapIdentity map ≠ name row := by
  induction h generalizing maps scalings with
  | nil => simp [parseTables, succeeds_ok]
  | @cons row table rows tables hread _ ih =>
    rw [parseTables, succeeds_bind]
    constructor
    · rintro ⟨⟨map, added⟩, hparse, hrest⟩
      have hname : mapIdentity map = name row := hread.identity _ hparse
      dsimp only at hrest
      split_ifs at hrest with hother
      · exact absurd hrest (not_succeeds_error _)
      · obtain ⟨hfit, hnodup, hmaps⟩ := (ih _ _).1 hrest
        rw [List.any_eq_true] at hother
        refine ⟨List.forall_mem_cons.2 ⟨hread.succeeds.1 ⟨_, hparse⟩, hfit⟩, ?_, ?_⟩
        · rw [List.map_cons, List.nodup_cons]
          refine ⟨fun hmem => ?_, hnodup⟩
          obtain ⟨other, hmem, heq⟩ := List.mem_map.1 hmem
          exact hmaps other hmem map (List.mem_append_right _ (List.mem_singleton_self _)) (hname.trans heq.symm)
        · refine List.forall_mem_cons.2 ⟨fun other hmem heq => hother ⟨other, hmem, ?_⟩, fun row' hrow' other hmem =>
            hmaps row' hrow' other (List.mem_append_left _ hmem)⟩
          rw [hname]
          exact decide_eq_true heq
    · rintro ⟨hfit, hnodup, hmaps⟩
      obtain ⟨hfirst, hfit⟩ := List.forall_mem_cons.1 hfit
      obtain ⟨hmap, hmaps⟩ := List.forall_mem_cons.1 hmaps
      rw [List.map_cons, List.nodup_cons] at hnodup
      obtain ⟨⟨map, added⟩, hparse⟩ := hread.succeeds.2 hfirst
      have hname : mapIdentity map = name row := hread.identity _ hparse
      refine ⟨(map, added), hparse, ?_⟩
      dsimp only
      have hother : ¬ (maps.any fun other => mapIdentity other = mapIdentity map) = true := by
        rw [List.any_eq_true]
        rintro ⟨other, hmem, heq⟩
        rw [hname] at heq
        exact hmap other hmem (of_decide_eq_true heq)
      rw [if_neg hother]
      refine (ih _ _).2 ⟨hfit, hnodup.2, fun row' hrow' other hmem heq => ?_⟩
      rcases List.mem_append.1 hmem with hmem | hmem
      · exact hmaps row' hrow' other hmem heq
      · rw [List.mem_singleton.1 hmem, hname] at heq
        exact hnodup.1 (List.mem_map.2 ⟨row', hrow', heq.symm⟩)

/-! ### Numbers -/

section Numbers

variable {base bound n : ℕ} {text : List Char}

theorem not_whitespace_of_digitValue {c : Char} {d : ℕ} (h : Logging.digitValue base c = some d) :
    ¬ Expression.whitespace c := by
  have hnone : ∀ c ∈ [' ', '\t', '\n', '\r', '\x0c', '\x0b'], Logging.digitValue base c = none := by
    intro c hc
    simp only [List.mem_cons, List.not_mem_nil, or_false] at hc
    rcases hc with rfl | rfl | rfl | rfl | rfl | rfl <;> rfl
  intro hspace
  have hmem : c ∈ [' ', '\t', '\n', '\r', '\x0c', '\x0b'] := by
    simpa [Expression.whitespace, or_assoc] using hspace
  rw [hnone c hmem] at h
  cases h

theorem exists_of_mapM_some {α β : Type} {f : α → Option β} {l : List α} {bs : List β} (h : l.mapM f = some bs) :
    ∀ a ∈ l, ∃ b, f a = some b := by
  induction l generalizing bs with
  | nil =>
    intro a ha
    cases ha
  | cons a l ih =>
    rw [List.mapM_cons] at h
    obtain ⟨b, hb, h⟩ := Option.bind_eq_some_iff.1 h
    obtain ⟨rest, hrest, -⟩ := Option.bind_eq_some_iff.1 h
    exact List.forall_mem_cons.2 ⟨⟨b, hb⟩, ih hrest⟩

/-- A text that is a number has no space in it, and is the number below every bound above it. -/
theorem fromCharsWhole_eq_some (h : fromCharsWhole base bound text = some n) :
    text ≠ [] ∧ (∀ c ∈ text, ¬ Expression.whitespace c) ∧ n < bound ∧
      ∀ bound', n < bound' → fromCharsWhole base bound' text = some n := by
  unfold fromCharsWhole at h
  split_ifs at h with hempty
  cases hdigits : text.mapM (Logging.digitValue base) with
  | none =>
    rw [hdigits] at h
    cases h
  | some digits =>
    rw [hdigits] at h
    dsimp only at h
    split_ifs at h with hlt
    cases h
    refine ⟨hempty, fun c hc => ?_, hlt, fun bound' hlt' => ?_⟩
    · obtain ⟨d, hd⟩ := exists_of_mapM_some hdigits c hc
      exact not_whitespace_of_digitValue hd
    · unfold fromCharsWhole
      rw [if_neg hempty, hdigits]
      exact if_pos hlt'

theorem trimmed_of_not_whitespace (h : ∀ c ∈ text, ¬ Expression.whitespace c) :
    Expression.trimmed text = text := by
  have hfront : text.dropWhile Expression.whitespace = text := by
    rw [List.dropWhile_eq_self_iff]
    exact fun hpos => h _ (List.getElem_mem hpos)
  rw [Expression.trimmed, hfront, List.rdropWhile_eq_self_iff]
  exact fun hne => h _ (List.getLast_mem hne)

theorem trimCopy_of_not_whitespace (h : ∀ c ∈ text, ¬ Expression.whitespace c) :
    trimCopy (String.ofList text) = String.ofList text := by
  rw [trimCopy, String.toList_ofList, trimmed_of_not_whitespace h]

/-- A positive `int` is written without a sign. -/
theorem parseInt_eq_some {value : ℤ} (h : parseInt text = some value) (hpos : 1 ≤ value) :
    ∃ n : ℕ, fromCharsWhole 10 2147483648 text = some n ∧ (n : ℤ) = value := by
  unfold parseInt at h
  split at h
  · obtain ⟨n, -, hn⟩ := Option.map_eq_some_iff.1 h
    omega
  · exact Option.map_eq_some_iff.1 h

end Numbers

/-! ### What is made of a row -/

/-- The converter gives the located table an axis. -/
def MapRow.Located (row : MapRow) (prefixName : String) : Prop :=
  row.contains (prefixName ++ "DataHeader") ∧
    ∃ header, parseInt (row.get (prefixName ++ "DataHeader")) = some header ∧ 0 < header

/-- What `AppendAxis` appends: an axis if there is more than one value, and an axis with an address if its
`DataHeader` says so. -/
structure AxisParts (row : MapRow) (prefixName type : String) (size : ℤ) (axis located : List XmlNode) : Prop where
  axis_of : 1 < size → ∃ precision, axis = [axisTable row prefixName type precision]
  axis_nil : ¬ 1 < size → axis = []
  located_of : row.Located prefixName → ∃ address, located = [locatedAxis type address]
  located_nil : ¬ row.Located prefixName → located = []

/-- The parts of the two tables of a row. -/
structure RowParts (row : MapRow) (table located : XmlNode) (sizex sizey : ℤ)
    (xAxis xLocated yAxis yLocated : List XmlNode) : Prop where
  columns : parseInt (row.get "Columns") = some sizex
  one_le_sizex : 1 ≤ sizex
  rows : parseInt (row.get "Rows") = some sizey
  one_le_sizey : 1 ≤ sizey
  address : ∃ value, fromCharsWhole 16 (2 ^ 64) (addressDigits (row.get "Fieldvalues.StartAddr")) = some value
  xParts : AxisParts row "AxisX." "X Axis" sizex xAxis xLocated
  yParts : AxisParts row "AxisY." "Y Axis" sizey yAxis yLocated
  table_eq : ∃ precision, table = mapTable row sizex sizey precision
    (xAxis ++ yAxis ++ if sizex = 1 ∧ sizey = 1 then [scalarAxis] else [])
  located_eq : located = locatedTable row
    ("0x" ++ String.ofList (addressDigits (row.get "Fieldvalues.StartAddr"))) (xLocated ++ yLocated)

section Converted

variable {readsFactor : List Char → Bool} {row : MapRow}

theorem dataHeader_eq_ok {prefixName : String} {header : ℤ} (h : dataHeader row prefixName = .ok header) :
    0 < header ↔ ∃ value, parseInt (row.get (prefixName ++ "DataHeader")) = some value ∧ 0 < value := by
  unfold dataHeader at h
  dsimp only at h
  split_ifs at h with hempty
  · cases h
    have hnone : parseInt (row.get (prefixName ++ "DataHeader")) = none := by
      rw [hempty]
      rfl
    rw [hnone]
    simp
  · cases hvalue : parseInt (row.get (prefixName ++ "DataHeader")) with
    | none =>
      rw [hvalue] at h
      cases h
    | some value =>
      rw [hvalue] at h
      dsimp only at h
      split_ifs at h
      · cases h
      · cases h
        simp

/-- **What `AppendAxis` appends.** -/
theorem appendAxis_eq_ok {prefixName type : String} {size : ℤ} {axis located : List XmlNode}
    (h : appendAxis readsFactor row prefixName type size = .ok (axis, located)) :
    AxisParts row prefixName type size axis located := by
  unfold appendAxis at h
  split_ifs at h with hnone
  · obtain ⟨hsize, hcontains⟩ := hnone
    cases h
    exact ⟨fun hlt => absurd hlt (not_lt.2 hsize), fun _ => rfl, fun hlocated => absurd hlocated.1 hcontains,
      fun _ => rfl⟩
  · cases hmissing : ["Name", "DataOrg", "Unit", "Factor", "Precision", "DataHeader", "DataAddr"].find?
        fun suffix => ¬ row.contains (prefixName ++ suffix) with
    | some suffix =>
      rw [hmissing] at h
      cases h
    | none =>
      rw [hmissing] at h
      obtain ⟨header, hheader, h⟩ := bind_eq_ok.1 h
      obtain ⟨axis', haxis, h⟩ := bind_eq_ok.1 h
      obtain ⟨located', hlocated, h⟩ := bind_eq_ok.1 h
      cases h
      have hcontains : row.contains (prefixName ++ "DataHeader") := by
        simpa using List.find?_eq_none.1 hmissing "DataHeader" (by decide)
      have hiff : row.Located prefixName ↔ 0 < header := by
        rw [dataHeader_eq_ok hheader, MapRow.Located]
        exact and_iff_right hcontains
      refine ⟨fun hlt => ?_, fun hlt => ?_, fun hpos => ?_, fun hpos => ?_⟩
      · rw [appendedAxis, if_pos hlt] at haxis
        obtain ⟨precision, -, haxis⟩ := bind_eq_ok.1 haxis
        cases haxis
        exact ⟨precision, rfl⟩
      · rw [appendedAxis, if_neg hlt] at haxis
        cases haxis
        rfl
      · rw [appendedLocation, if_pos (hiff.1 hpos)] at hlocated
        obtain ⟨address, -, hlocated⟩ := bind_eq_ok.1 hlocated
        cases hlocated
        exact ⟨address, rfl⟩
      · rw [appendedLocation, if_neg (mt hiff.2 hpos)] at hlocated
        cases hlocated
        rfl

theorem mapDimension_eq_ok {name : String} {size : ℤ} (h : mapDimension row name = .ok size) :
    parseInt (row.get name) = some size ∧ 1 ≤ size := by
  unfold mapDimension at h
  split at h
  · rename_i value hvalue
    split_ifs at h with hlt
    · cases h
    · cases h
      exact ⟨hvalue, not_lt.1 hlt⟩
  · cases h

/-- **What `AppendMap` makes of a row.** -/
theorem convertRow_eq_ok {table located : XmlNode} (h : convertRow readsFactor row = .ok (table, located)) :
    ∃ sizex sizey xAxis xLocated yAxis yLocated,
      RowParts row table located sizex sizey xAxis xLocated yAxis yLocated := by
  unfold convertRow at h
  split_ifs at h
  · cases h
  obtain ⟨sizex, hsizex, h⟩ := bind_eq_ok.1 h
  obtain ⟨sizey, hsizey, h⟩ := bind_eq_ok.1 h
  obtain ⟨precision, -, h⟩ := bind_eq_ok.1 h
  obtain ⟨address, haddress, h⟩ := bind_eq_ok.1 h
  obtain ⟨⟨xAxis, xLocated⟩, hxAxis, h⟩ := bind_eq_ok.1 h
  obtain ⟨⟨yAxis, yLocated⟩, hyAxis, h⟩ := bind_eq_ok.1 h
  cases h
  unfold storageAddress at haddress
  dsimp only at haddress
  split at haddress
  · rename_i value hvalue
    cases haddress
    obtain ⟨hx, hx'⟩ := mapDimension_eq_ok hsizex
    obtain ⟨hy, hy'⟩ := mapDimension_eq_ok hsizey
    exact ⟨sizex, sizey, xAxis, xLocated, yAxis, yLocated, hx, hx', hy, hy', ⟨value, hvalue⟩,
      appendAxis_eq_ok hxAxis, appendAxis_eq_ok hyAxis, ⟨precision, rfl⟩, rfl⟩
  · cases haddress

end Converted

/-! ### The identity of a map -/

section Identity

variable {source definitionId : String} {table : XmlNode}

/-- What the header of a map was read from. -/
theorem mapHeader_eq_ok {map : UnresolvedCalibrationMap} (h : mapHeader table source definitionId = .ok map) :
    mapIdentity map = (presentValue table "id").getD (valueOrEmpty table "name") ∧
      map.type = valueOrEmpty table "type" ∧ valueOrEmpty table "name" ≠ "" ∧
      Succeeds (optionalAddress table source definitionId) := by
  rw [mapHeader, bind_eq_ok] at h
  obtain ⟨common, hcommon, h⟩ := h
  have hread : mapIdentity common = (presentValue table "id").getD (valueOrEmpty table "name") ∧
      common.type = valueOrEmpty table "type" ∧ common.name = valueOrEmpty table "name" := by
    rw [commonMapAttributes] at hcommon
    obtain ⟨_, -, hcommon⟩ := bind_eq_ok.1 hcommon
    obtain ⟨_, -, hcommon⟩ := bind_eq_ok.1 hcommon
    obtain ⟨_, -, hcommon⟩ := bind_eq_ok.1 hcommon
    cases hcommon
    exact ⟨rfl, rfl, rfl⟩
  obtain ⟨hidentity, htype, hname⟩ := hread
  split_ifs at h with hempty
  · cases h
  · obtain ⟨address, haddress, h⟩ := bind_eq_ok.1 h
    cases h
    exact ⟨hidentity, htype, by rwa [← hname], address, haddress⟩

/-- What a table among the axes does to the map: nothing if it is none, or it is read and takes one of the slots. -/
theorem populateAxis_eq_ok {parseScaling : XmlNode → ScalingParser} {state state' : AxesState}
    (h : populateAxis source definitionId parseScaling state table = .ok state') :
    (state' = state ∧ fillsXAxisSlot (valueOrEmpty table "type") state.map.type = false ∧
        valueOrEmpty table "type" ≠ "Y Axis") ∨
      Succeeds (parseAxisDefinition table source definitionId (parseScaling table)) ∧
        mapIdentity state'.map = mapIdentity state.map := by
  unfold populateAxis at h
  dsimp only at h
  by_cases hno : (!fillsXAxisSlot (valueOrEmpty table "type") state.map.type &&
      valueOrEmpty table "type" != "Y Axis") = true
  · rw [if_pos hno] at h
    rw [Bool.and_eq_true, Bool.not_eq_true', bne_iff_ne] at hno
    exact .inl ⟨(Except.ok.inj h).symm, hno⟩
  rw [if_neg hno] at h
  refine .inr ?_
  by_cases htaken : (if fillsXAxisSlot (valueOrEmpty table "type") state.map.type then state.xAxisPopulated
      else state.yAxisPopulated) = true
  · rw [if_pos htaken] at h
    exact absurd ⟨_, h⟩ (not_succeeds_error _)
  rw [if_neg htaken] at h
  obtain ⟨axis, haxis, h⟩ := bind_eq_ok.1 h
  refine ⟨⟨axis, haxis⟩, ?_⟩
  -- the size of the map may be turned round for the axis
  split at h
  · rw [← Except.ok.inj h]
    dsimp only
    split_ifs <;> rfl
  · rw [← Except.ok.inj h]
    dsimp only
    split_ifs <;> rfl

/-- No axis changes what the map is called. -/
theorem mapIdentity_populateAxis {parseScaling : XmlNode → ScalingParser} {state state' : AxesState}
    (h : populateAxis source definitionId parseScaling state table = .ok state') :
    mapIdentity state'.map = mapIdentity state.map := by
  rcases populateAxis_eq_ok h with ⟨rfl, -⟩ | ⟨-, hidentity⟩
  · rfl
  · exact hidentity

theorem mapIdentity_populateAxes {parseScaling : XmlNode → ScalingParser} {map map' : UnresolvedCalibrationMap}
    {scalings scalings' : List UnresolvedScaling}
    (h : populateAxes source definitionId parseScaling table map scalings = .ok (map', scalings')) :
    mapIdentity map' = mapIdentity map := by
  rw [populateAxes, bind_eq_ok] at h
  obtain ⟨state', hfold, h⟩ := h
  cases h
  have hall : ∀ (tables : List XmlNode) (state state' : AxesState),
      tables.foldlM (populateAxis source definitionId parseScaling) state = .ok state' →
      mapIdentity state'.map = mapIdentity state.map := by
    intro tables
    induction tables with
    | nil =>
      intro state state' h
      cases h
      rfl
    | cons table tables ih =>
      intro state state' h
      rw [List.foldlM_cons] at h
      obtain ⟨next, hnext, h⟩ := bind_eq_ok.1 h
      exact (ih next state' h).trans (mapIdentity_populateAxis hnext)
  exact hall _ _ _ hfold

theorem keeps_adoptInlineScaling (scaling : UnresolvedScaling) (map : UnresolvedCalibrationMap) :
    mapIdentity (adoptInlineScaling scaling map) = mapIdentity map ∧
      (adoptInlineScaling scaling map).type = map.type := ⟨rfl, rfl⟩

/-- **What a table that is read has**: a name, an address if it says one, and axes that are read into a map of its
type. -/
theorem parseTable_eq_ok {parsed : ParsedTable} (htype : valueOrEmpty table "type" ≠ "Switch")
    (h : RomRaider.parseTable source definitionId table = .ok parsed) :
    mapIdentity parsed.1 = (presentValue table "id").getD (valueOrEmpty table "name") ∧
      valueOrEmpty table "name" ≠ "" ∧ Succeeds (optionalAddress table source definitionId) ∧
      ∃ map scalings, map.type = valueOrEmpty table "type" ∧ Succeeds
        (populateAxes source definitionId (RomRaider.parseScaling source definitionId) table map scalings) := by
  rw [RomRaider.parseTable, bind_eq_ok] at h
  obtain ⟨map₁, hheader, h⟩ := h
  obtain ⟨map₂, hsize, h⟩ := bind_eq_ok.1 h
  obtain ⟨map₃, horientation, h⟩ := bind_eq_ok.1 h
  obtain ⟨⟨map₄, scaling⟩, hscaling, h⟩ := bind_eq_ok.1 h
  obtain ⟨hidentity, htype₁, hname, haddress⟩ := mapHeader_eq_ok hheader
  -- neither the size nor the orientation nor the scaling changes what the map is called, or its type
  have h₂ : mapIdentity map₂ = mapIdentity map₁ ∧ map₂.type = map₁.type := by
    rw [populateMapSize] at hsize
    obtain ⟨_, -, hsize⟩ := bind_eq_ok.1 hsize
    obtain ⟨_, -, hsize⟩ := bind_eq_ok.1 hsize
    cases hsize
    exact ⟨rfl, rfl⟩
  have h₃ : mapIdentity map₃ = mapIdentity map₂ ∧ map₃.type = map₂.type := by
    rw [populateMapOrientation] at horientation
    obtain ⟨_, -, horientation⟩ := bind_eq_ok.1 horientation
    obtain ⟨_, -, horientation⟩ := bind_eq_ok.1 horientation
    obtain ⟨_, -, horientation⟩ := bind_eq_ok.1 horientation
    cases horientation
    exact ⟨rfl, rfl⟩
  have h₄ : mapIdentity map₄ = mapIdentity map₃ ∧ map₄.type = map₃.type := by
    rw [parseMapScaling] at hscaling
    generalize valueOrEmpty table "scaling" = scalingName at hscaling
    split at hscaling
    · cases hscaling
      exact ⟨rfl, rfl⟩
    · obtain ⟨_, -, hscaling⟩ := bind_eq_ok.1 hscaling
      rw [← (Prod.mk.inj (Except.ok.inj hscaling)).1, (keeps_adoptInlineScaling _ _).1,
        (keeps_adoptInlineScaling _ _).2]
      exact ⟨rfl, rfl⟩
  have hmap : map₄.type = valueOrEmpty table "type" := by rw [h₄.2, h₃.2, h₂.2, htype₁]
  rw [← hmap] at htype
  have hselect : ∀ scaling, RomRaider.selectable table map₄ scaling = (map₄, scaling) := fun _ => if_neg htype
  dsimp only at h
  rw [hselect] at h
  exact ⟨by rw [mapIdentity_populateAxes h, h₄.1, h₃.1, h₂.1, hidentity], hname, haddress, map₄, _, hmap, _, h⟩

end Identity

/-! ### Attributes that a table does not have -/

section Attributes

variable {node : XmlNode} {name : String} (source definitionId : String)

/-- What a node has no attribute for. -/
theorem trimmed_attributeValue_none (h : name ∉ node.attributes.map Prod.fst) :
    (trimmed node).attributeValue name = none := by
  rw [trimmed_attributeValue, attributeValue, Option.map_eq_none_iff, List.find?_eq_none]
  intro entry hentry heq
  rw [← of_decide_eq_true heq] at h
  exact h (List.mem_map_of_mem hentry)

theorem optionalHexAttribute_none (h : node.attributeValue name = none) :
    optionalHexAttribute node name source definitionId = .ok none := by
  rw [optionalHexAttribute, h]

theorem optionalHexAttribute32_none (h : node.attributeValue name = none) :
    optionalHexAttribute32 node name source definitionId = .ok none := by
  rw [optionalHexAttribute32, optionalHexAttribute_none source definitionId h]
  rfl

theorem optionalAddress_none (h : node.attributeValue "address" = none)
    (h' : node.attributeValue "storageaddress" = none) :
    optionalAddress node source definitionId = .ok none := by
  rw [optionalAddress, h]
  show (optionalHexAttribute node "storageaddress" source definitionId >>= _) = _
  rw [optionalHexAttribute_none source definitionId h']
  rfl

theorem optionalDimension_none (h : node.attributeValue name = none) :
    optionalDimension node name source definitionId = .ok none := by
  rw [optionalDimension, h]
  rfl

theorem optionalBoolean_none (h : node.attributeValue name = none) :
    optionalBoolean node name source definitionId = .ok none := by
  rw [optionalBoolean, h]

theorem optionalStorageType_none (h : node.attributeValue name = none) :
    optionalStorageTypeAttribute node name source definitionId = .ok none := by
  have hempty : valueOrEmpty node name = "" := by
    rw [valueOrEmpty, h]
    decide
  rw [optionalStorageTypeAttribute]
  exact if_pos hempty

/-- The storage types that the converter writes are known. -/
theorem optionalStorageType_storage {org : String}
    (h : node.attributeValue "storagetype" = (storage org).head?.map Prod.snd) :
    Succeeds (optionalStorageTypeAttribute node "storagetype" source definitionId) := by
  have hknown : ∀ text ∈ ["uint16", "uint32", "uint8"], node.attributeValue "storagetype" = some text →
      Succeeds (optionalStorageTypeAttribute node "storagetype" source definitionId) := by
    intro text htext hvalue
    have hread : ∀ text ∈ ["uint16", "uint32", "uint8"], trimCopy text = text ∧ text ≠ "" ∧
        (storageTypeFromText text).isSome := by decide
    obtain ⟨htrim, hne, hsome⟩ := hread text htext
    have hnode : valueOrEmpty node "storagetype" = text := by
      rw [valueOrEmpty, hvalue]
      exact htrim
    obtain ⟨type, htype⟩ := Option.isSome_iff_exists.1 hsome
    rw [optionalStorageTypeAttribute, hnode, if_neg hne]
    simp only [htype]
    exact succeeds_ok _
  simp only [storage, List.head?_cons, Option.map_some] at h
  split_ifs at h
  · exact hknown _ (by decide) h
  · exact hknown _ (by decide) h
  · exact hknown _ (by decide) h

end Attributes

/-! ### The axes -/

section Axes

variable (source definitionId : String) (row : MapRow)

theorem parseScaling_scaling {owner : XmlNode} (units : String) (factor : List Char) (precision : ℕ)
    (name : String)
    (howner : Succeeds (optionalStorageTypeAttribute owner "storagetype" source definitionId)) :
    Succeeds (RomRaider.parseScaling source definitionId owner (trimmed (scaling units factor precision)) name) := by
  obtain ⟨type, htype⟩ := howner
  have hnone : (trimmed (scaling units factor precision)).attributeValue "storagetype" = none := by
    rw [trimmed_attributeValue]
    simp [scaling, attributeValue, XmlNode.attributes]
  rw [RomRaider.parseScaling, optionalStorageType_none source definitionId hnone, ok_bind]
  simp only [Option.isSome_none, Bool.false_eq_true, if_false]
  rw [htype, ok_bind]
  exact succeeds_ok _

/-- An axis that is read has a name. -/
theorem name_of_parseAxis {node : XmlNode} {parseScaling : ScalingParser}
    (h : Succeeds (parseAxisDefinition node source definitionId parseScaling)) : valueOrEmpty node "name" ≠ "" := by
  rw [parseAxisDefinition, succeeds_bind] at h
  obtain ⟨axis, haxis, h⟩ := h
  have hname : axis.name = valueOrEmpty node "name" := by
    rw [commonAxisAttributes, bind_eq_ok] at haxis
    obtain ⟨_, -, haxis⟩ := haxis
    obtain ⟨_, -, haxis⟩ := bind_eq_ok.1 haxis
    obtain ⟨_, -, haxis⟩ := bind_eq_ok.1 haxis
    rw [← Except.ok.inj haxis]
  intro hempty
  rw [if_pos (hname.trans hempty)] at h
  exact not_succeeds_error _ h

/-- The axes of the base are read when they have one. -/
theorem parseAxis_axisTable (prefixName type : String) (precision : ℕ) :
    Succeeds (parseAxisDefinition (trimmed (axisTable row prefixName type precision)) source definitionId
      (RomRaider.parseScaling source definitionId (trimmed (axisTable row prefixName type precision)))) ↔
      trimCopy (row.text (prefixName ++ "Name")) ≠ "" := by
  have hvalue (name : String) : (trimmed (axisTable row prefixName type precision)).attributeValue name =
      ((([("type", type), ("name", row.text (prefixName ++ "Name"))] ++
        storage (row.text (prefixName ++ "DataOrg"))).find? fun entry => entry.1 = name).map Prod.snd) := by
    rw [trimmed_attributeValue]
    rfl
  have hname : valueOrEmpty (trimmed (axisTable row prefixName type precision)) "name" =
      trimCopy (row.text (prefixName ++ "Name")) := by
    rw [valueOrEmpty, hvalue]
    rfl
  have hstorage : Succeeds (optionalStorageTypeAttribute (trimmed (axisTable row prefixName type precision))
      "storagetype" source definitionId) := by
    refine @optionalStorageType_storage _ source definitionId (row.text (prefixName ++ "DataOrg")) ?_
    rw [hvalue]
    rfl
  constructor
  · intro h
    rw [← hname]
    exact name_of_parseAxis source definitionId h
  · intro hne
    have hscaling : child (some (trimmed (axisTable row prefixName type precision))) "scaling" =
        some (trimmed (scaling (row.text (prefixName ++ "Unit")) (row.get (prefixName ++ "Factor")) precision)) := by
      rw [child_trimmed]
      rfl
    have hnone (name : String) (h : name ∉ ["type", "name", "storagetype", "endian"]) :
        (trimmed (axisTable row prefixName type precision)).attributeValue name = none :=
      trimmed_attributeValue_none h
    have hsize : optionalDimension (trimmed (axisTable row prefixName type precision))
        (if ((trimmed (axisTable row prefixName type precision)).attributeValue "elements").isSome then "elements"
          else "size") source definitionId = .ok none := by
      rw [hnone "elements" (by decide)]
      exact optionalDimension_none source definitionId (hnone "size" (by decide))
    obtain ⟨storageType, htype⟩ := hstorage
    rw [parseAxisDefinition, commonAxisAttributes, htype, ok_bind,
      optionalHexAttribute32_none source definitionId (hnone "startpos" (by decide)), ok_bind,
      optionalHexAttribute32_none source definitionId (hnone "interval" (by decide)), ok_bind]
    refine succeeds_bind.2 ⟨_, rfl, ?_⟩
    rw [if_neg (by rwa [hname]), optionalAddress_none source definitionId (hnone "address" (by decide))
      (hnone "storageaddress" (by decide)), ok_bind]
    dsimp only
    rw [hsize, ok_bind, hscaling]
    dsimp only
    obtain ⟨axisScaling, hparse⟩ := parseScaling_scaling source definitionId _ _ _ _ ⟨storageType, htype⟩
    rw [hparse, ok_bind]
    exact succeeds_ok _

variable {source definitionId} {parseScaling : XmlNode → ScalingParser} {node : XmlNode} {state state' : AxesState}

/-- An axis table that is read is an axis with a name. -/
theorem name_of_populateAxis (h : Succeeds (populateAxis source definitionId parseScaling state node))
    (haxis : fillsXAxisSlot (valueOrEmpty node "type") state.map.type ∨ valueOrEmpty node "type" = "Y Axis") :
    valueOrEmpty node "name" ≠ "" := by
  obtain ⟨state', h⟩ := h
  rcases populateAxis_eq_ok h with ⟨-, hslot, htype⟩ | ⟨hparse, -⟩
  · rcases haxis with haxis | haxis
    · exact absurd haxis (by rw [hslot]; exact Bool.false_ne_true)
    · exact absurd haxis htype
  · exact name_of_parseAxis source definitionId hparse

/-- The first axis for the slot of the X axis is read when its table is; the slot of the Y axis stays as it is. -/
theorem populateAxis_xSlot (hparse : Succeeds (parseAxisDefinition node source definitionId (parseScaling node)))
    (hslot : fillsXAxisSlot (valueOrEmpty node "type") state.map.type = true)
    (hfree : state.xAxisPopulated = false) :
    ∃ state', populateAxis source definitionId parseScaling state node = .ok state' ∧
      state'.map.type = state.map.type ∧ state'.yAxisPopulated = state.yAxisPopulated := by
  obtain ⟨⟨axis, scalings⟩, hparse⟩ := hparse
  have hok : Succeeds (populateAxis source definitionId parseScaling state node) := by
    unfold populateAxis
    simp only [hslot, hfree, hparse, ok_bind, Bool.not_true, Bool.false_and, if_true, if_false,
      Bool.false_eq_true]
    exact succeeds_ok _
  obtain ⟨state', hstate⟩ := hok
  refine ⟨state', hstate, ?_⟩
  unfold populateAxis at hstate
  simp only [hslot, hfree, hparse, ok_bind, Bool.not_true, Bool.false_and, Bool.true_and, if_true, if_false,
    Bool.false_eq_true] at hstate
  rw [← Except.ok.inj hstate]
  dsimp only
  split_ifs <;> exact ⟨rfl, rfl⟩

/-- So is the first one for that of the Y axis. -/
theorem populateAxis_ySlot (hparse : Succeeds (parseAxisDefinition node source definitionId (parseScaling node)))
    (hslot : fillsXAxisSlot (valueOrEmpty node "type") state.map.type = false)
    (htype : valueOrEmpty node "type" = "Y Axis") (hfree : state.yAxisPopulated = false) :
    Succeeds (populateAxis source definitionId parseScaling state node) := by
  obtain ⟨⟨axis, scalings⟩, hparse⟩ := hparse
  unfold populateAxis
  rw [htype] at hslot ⊢
  simp only [hslot, hfree, hparse, ok_bind, Bool.false_and, if_false, Bool.false_eq_true, bne_self_eq_false,
    Bool.and_false]
  exact succeeds_ok _

/-- In a table that is read, every axis has a name. -/
theorem name_of_populateAxes {nodes : List XmlNode}
    (h : Succeeds (nodes.foldlM (populateAxis source definitionId parseScaling) state)) :
    ∀ node ∈ nodes, valueOrEmpty node "type" ∈ ["X Axis", "Y Axis", "Static Y Axis"] →
      valueOrEmpty node "name" ≠ "" := by
  induction nodes generalizing state with
  | nil =>
    intro node hnode
    cases hnode
  | cons first nodes ih =>
    rw [List.foldlM_cons, succeeds_bind] at h
    obtain ⟨next, hnext, h⟩ := h
    refine List.forall_mem_cons.2 ⟨fun htype => ?_, ih h⟩
    refine name_of_populateAxis ⟨next, hnext⟩ ?_
    simp only [List.mem_cons, List.not_mem_nil, or_false] at htype
    rcases htype with htype | htype | htype
    · exact .inl (by rw [htype]; rfl)
    · exact .inr htype
    · exact .inl (by rw [htype]; rfl)

end Axes

/-! ### The tables of a row -/

section Tables

variable {source definitionId : String} {table : XmlNode}

theorem mapHeader_succeeds
    (hnone : ∀ name ∈ ["startpos", "interval"], table.attributeValue name = none)
    (hstorage : Succeeds (optionalStorageTypeAttribute table "storagetype" source definitionId))
    (hname : valueOrEmpty table "name" ≠ "") (haddress : Succeeds (optionalAddress table source definitionId)) :
    Succeeds (mapHeader table source definitionId) := by
  obtain ⟨storageType, hstorage⟩ := hstorage
  obtain ⟨address, haddress⟩ := haddress
  have hcommon : ∃ map, commonMapAttributes table source definitionId = .ok map ∧
      map.name = valueOrEmpty table "name" := by
    rw [commonMapAttributes, hstorage, ok_bind,
      optionalHexAttribute32_none source definitionId (hnone "startpos" (by decide)), ok_bind,
      optionalHexAttribute32_none source definitionId (hnone "interval" (by decide)), ok_bind]
    exact ⟨_, rfl, rfl⟩
  obtain ⟨map, hmap, hmapName⟩ := hcommon
  rw [mapHeader, hmap, ok_bind, if_neg (by rwa [hmapName]), haddress, ok_bind]
  exact succeeds_ok _

theorem populateMapSize_succeeds (hx : Succeeds (optionalDimension table "sizex" source definitionId))
    (hy : Succeeds (optionalDimension table "sizey" source definitionId)) (map : UnresolvedCalibrationMap) :
    ∃ map', populateMapSize table map source definitionId = .ok map' ∧ map'.type = map.type := by
  obtain ⟨x, hx⟩ := hx
  obtain ⟨y, hy⟩ := hy
  rw [populateMapSize, hx, ok_bind, hy, ok_bind]
  exact ⟨_, rfl, rfl⟩

theorem populateMapOrientation_succeeds
    (hnone : ∀ name ∈ ["swapxy", "flipx", "flipy"], table.attributeValue name = none)
    (map : UnresolvedCalibrationMap) :
    ∃ map', populateMapOrientation table map source definitionId = .ok map' ∧ map'.type = map.type := by
  rw [populateMapOrientation, optionalBoolean_none source definitionId (hnone "swapxy" (by decide)), ok_bind,
    optionalBoolean_none source definitionId (hnone "flipx" (by decide)), ok_bind,
    optionalBoolean_none source definitionId (hnone "flipy" (by decide)), ok_bind]
  exact ⟨_, rfl, rfl⟩

theorem parseMapScaling_succeeds {parseScaling : ScalingParser}
    (hscaling : ∀ node, child (some table) "scaling" = some node → ∀ name, Succeeds (parseScaling node name))
    (map : UnresolvedCalibrationMap) :
    ∃ parsed, parseMapScaling table map parseScaling = .ok parsed ∧ parsed.1.type = map.type := by
  rw [parseMapScaling]
  cases hchild : child (some table) "scaling" with
  | none => exact ⟨_, rfl, rfl⟩
  | some node =>
    dsimp only
    obtain ⟨scaling, hparse⟩ := hscaling node hchild _
    rw [hparse, ok_bind]
    exact ⟨_, rfl, rfl⟩

/-- **A table with a name is read when its parts are.** -/
theorem parseTable_of_parts
    (hnone : ∀ name ∈ ["startpos", "interval", "swapxy", "flipx", "flipy"], table.attributeValue name = none)
    (hstorage : Succeeds (optionalStorageTypeAttribute table "storagetype" source definitionId))
    (hx : Succeeds (optionalDimension table "sizex" source definitionId))
    (hy : Succeeds (optionalDimension table "sizey" source definitionId))
    (hscaling : ∀ node, child (some table) "scaling" = some node →
      ∀ name, Succeeds (RomRaider.parseScaling source definitionId table node name))
    (hname : valueOrEmpty table "name" ≠ "") (haddress : Succeeds (optionalAddress table source definitionId))
    (htype : valueOrEmpty table "type" ≠ "Switch")
    (haxes : ∀ map scalings, map.type = valueOrEmpty table "type" → Succeeds
      (populateAxes source definitionId (RomRaider.parseScaling source definitionId) table map scalings)) :
    Succeeds (RomRaider.parseTable source definitionId table) := by
  obtain ⟨map₁, hheader⟩ := mapHeader_succeeds (fun name hname => hnone name (by
    simp only [List.mem_cons, List.not_mem_nil, or_false] at hname ⊢
    exact hname.elim .inl fun h => .inr (.inl h))) hstorage hname haddress
  obtain ⟨-, htype₁, -⟩ := mapHeader_eq_ok hheader
  obtain ⟨map₂, hsize, htype₂⟩ := populateMapSize_succeeds hx hy map₁
  obtain ⟨map₃, horientation, htype₃⟩ := @populateMapOrientation_succeeds source definitionId table
    (fun name hname => hnone name (by
      simp only [List.mem_cons, List.not_mem_nil, or_false] at hname ⊢
      exact .inr (.inr hname))) map₂
  obtain ⟨⟨map₄, scaling⟩, hparse, htype₄⟩ := parseMapScaling_succeeds hscaling map₃
  have hmap : map₄.type = valueOrEmpty table "type" := by rw [htype₄, htype₃, htype₂, htype₁]
  rw [← hmap] at htype
  have hselect : ∀ scaling, RomRaider.selectable table map₄ scaling = (map₄, scaling) := fun _ => if_neg htype
  rw [RomRaider.parseTable, hheader, ok_bind, hsize, ok_bind, horientation, ok_bind, hparse, ok_bind]
  dsimp only
  rw [hselect]
  exact haxes map₄ _ hmap

/-- A dimension that the converter has checked is a dimension for the parser. -/
theorem optionalDimension_of_parseInt {name : String} {text : List Char} {size : ℤ}
    (hvalue : table.attributeValue name = some (String.ofList text)) (h : parseInt text = some size)
    (hpos : 1 ≤ size) : Succeeds (optionalDimension table name source definitionId) := by
  obtain ⟨n, hn, hsize⟩ := parseInt_eq_some h hpos
  obtain ⟨-, hspace, hlt, hbound⟩ := fromCharsWhole_eq_some hn
  have htext : (valueOrEmpty table name).toList = text := by
    rw [valueOrEmpty, hvalue, Option.getD_some, trimCopy_of_not_whitespace hspace, String.toList_ofList]
  have hparse : Succeeds (parseDimension table name source definitionId) := by
    unfold parseDimension
    dsimp only
    rw [htext, hbound _ (hlt.trans (by decide))]
    dsimp only
    rw [if_neg (by omega)]
    exact succeeds_ok _
  obtain ⟨dimension, hparse⟩ := hparse
  rw [optionalDimension, hvalue, Option.isSome_some, if_pos rfl, hparse, ok_bind]
  exact succeeds_ok _

section Base

variable {row : MapRow} {located : XmlNode} {sizex sizey : ℤ} {precision : ℕ}
  {axes xAxis xLocated yAxis yLocated : List XmlNode}

/-- The attributes of the table of a map. -/
theorem mapTable_attributeValue (row : MapRow) (sizex sizey : ℤ) (precision : ℕ) (axes : List XmlNode)
    (name : String) : (trimmed (mapTable row sizex sizey precision axes)).attributeValue name =
      (([("type", if sizex = 1 ∨ sizey = 1 then "2D" else "3D"), ("name", row.text "Name"),
        ("category", row.text "FolderName")] ++ storage (row.text "DataOrg") ++
        [("sizex", row.text "Columns"), ("sizey", row.text "Rows")]).find? fun entry => entry.1 = name).map
        Prod.snd := by
  rw [trimmed_attributeValue]
  rfl

theorem childrenNamed_mapTable (haxes : ∀ axis ∈ axes, axis.Named "table") :
    childrenNamed (some (trimmed (mapTable row sizex sizey precision axes))) "table" = axes.map trimmed := by
  have hkids : childrenNamed (some (mapTable row sizex sizey precision axes)) "table" = axes := by
    have hall : axes.filter (fun node => decide (node.Named "table")) = axes :=
      List.filter_eq_self.2 fun axis haxis => decide_eq_true (haxes axis haxis)
    have hlast : ([.element "description" [] [.text (row.text "Comment")]] : List XmlNode).filter
        (fun node => decide (node.Named "table")) = [] := rfl
    rw [childrenNamed_some]
    show List.filter _ (_ :: (axes ++ _)) = _
    rw [List.filter_cons_of_neg (by simp [scaling, Named, name?]), List.filter_append, hall]
    exact (congrArg (axes ++ ·) hlast).trans (List.append_nil _)
  rw [childrenNamed_trimmed, hkids]

theorem axisTable_type (row : MapRow) (prefixName type : String) (precision : ℕ) :
    valueOrEmpty (trimmed (axisTable row prefixName type precision)) "type" = trimCopy type := by
  rw [trimmed_valueOrEmpty]
  rfl

theorem axisTable_name (row : MapRow) (prefixName type : String) (precision : ℕ) :
    valueOrEmpty (trimmed (axisTable row prefixName type precision)) "name" =
      trimCopy (row.text (prefixName ++ "Name")) := by
  rw [trimmed_valueOrEmpty]
  rfl

theorem axis_named {prefixName type : String} {size : ℤ} {axis located : List XmlNode}
    (h : AxisParts row prefixName type size axis located) :
    (∀ node ∈ axis, node.Named "table") ∧ ∀ node ∈ located, node.Named "table" := by
  constructor
  · by_cases hsize : 1 < size
    · obtain ⟨precision, rfl⟩ := h.axis_of hsize
      exact List.forall_mem_singleton.2 rfl
    · rw [h.axis_nil hsize]
      exact List.forall_mem_nil _
  · by_cases hlocated : row.Located prefixName
    · obtain ⟨address, rfl⟩ := h.located_of hlocated
      exact List.forall_mem_singleton.2 rfl
    · rw [h.located_nil hlocated]
      exact List.forall_mem_nil _

/-- When the table of a map is read. -/
def BaseFit (row : MapRow) (sizex sizey : ℤ) : Prop :=
  trimCopy (row.text "Name") ≠ "" ∧ ¬ (sizex = 1 ∧ sizey = 1) ∧
    (1 < sizex → trimCopy (row.text ("AxisX." ++ "Name")) ≠ "") ∧
    (1 < sizey → trimCopy (row.text ("AxisY." ++ "Name")) ≠ "")

variable (source definitionId)

/-- The axes of a map with more than one value are read into the slots of its type. -/
theorem foldlM_axes (h : RowParts row table located sizex sizey xAxis xLocated yAxis yLocated)
    (hfit : BaseFit row sizex sizey) {state : AxesState}
    (htype : state.map.type = if sizex = 1 ∨ sizey = 1 then "2D" else "3D")
    (hx : state.xAxisPopulated = false) (hy : state.yAxisPopulated = false) :
    Succeeds (((xAxis ++ yAxis).map trimmed).foldlM
      (populateAxis source definitionId (RomRaider.parseScaling source definitionId)) state) := by
  obtain ⟨-, hlarge, hxName, hyName⟩ := hfit
  have hxOne := h.one_le_sizex
  have hyOne := h.one_le_sizey
  by_cases hsizex : 1 < sizex
  · obtain ⟨xPrecision, rfl⟩ := h.xParts.axis_of hsizex
    have hslot : fillsXAxisSlot (valueOrEmpty (trimmed (axisTable row "AxisX." "X Axis" xPrecision)) "type")
        state.map.type = true := by
      rw [axisTable_type]
      rfl
    obtain ⟨next, hnext, hnextType, hnextY⟩ := populateAxis_xSlot
      ((parseAxis_axisTable source definitionId row "AxisX." "X Axis" xPrecision).2 (hxName hsizex)) hslot hx
    rw [List.map_append, List.map_singleton, List.singleton_append, List.foldlM_cons, hnext, ok_bind]
    by_cases hsizey : 1 < sizey
    · -- a map with two axes has a slot for each
      obtain ⟨yPrecision, rfl⟩ := h.yParts.axis_of hsizey
      have hyType : valueOrEmpty (trimmed (axisTable row "AxisY." "Y Axis" yPrecision)) "type" = "Y Axis" := by
        rw [axisTable_type]
        decide
      have hySlot : fillsXAxisSlot (valueOrEmpty (trimmed (axisTable row "AxisY." "Y Axis" yPrecision)) "type")
          next.map.type = false := by
        rw [hyType, hnextType, htype, if_neg (by omega)]
        decide
      obtain ⟨last, hlast⟩ := populateAxis_ySlot
        ((parseAxis_axisTable source definitionId row "AxisY." "Y Axis" yPrecision).2 (hyName hsizey)) hySlot hyType
        (hnextY.trans hy)
      rw [List.map_singleton, List.foldlM_cons, hlast, ok_bind]
      exact succeeds_ok _
    · rw [h.yParts.axis_nil hsizey]
      exact succeeds_ok _
  · -- the Y axis of a map with one column takes the slot of the X axis
    have hsizey : 1 < sizey := by omega
    obtain ⟨yPrecision, rfl⟩ := h.yParts.axis_of hsizey
    have hslot : fillsXAxisSlot (valueOrEmpty (trimmed (axisTable row "AxisY." "Y Axis" yPrecision)) "type")
        state.map.type = true := by
      rw [axisTable_type, htype, if_pos (by omega)]
      decide
    obtain ⟨next, hnext, -⟩ := populateAxis_xSlot
      ((parseAxis_axisTable source definitionId row "AxisY." "Y Axis" yPrecision).2 (hyName hsizey)) hslot hx
    rw [h.xParts.axis_nil hsizex, List.nil_append, List.map_singleton, List.foldlM_cons, hnext, ok_bind]
    exact succeeds_ok _

/-- **When the table of a map is read**: it has a name and so has each of its axes, and it has more than one
value. -/
theorem readsTable_base (h : RowParts row table located sizex sizey xAxis xLocated yAxis yLocated) :
    ReadsTable (RomRaider.parseTable source definitionId) (trimmed table) (BaseFit row sizex sizey)
      (trimCopy (row.text "Name")) := by
  obtain ⟨precision, htable⟩ := h.table_eq
  have hvalue (name : String) := mapTable_attributeValue row sizex sizey precision
    (xAxis ++ yAxis ++ if sizex = 1 ∧ sizey = 1 then [scalarAxis] else []) name
  have hnamed : ∀ axis ∈ xAxis ++ yAxis ++ (if sizex = 1 ∧ sizey = 1 then [scalarAxis] else []),
      axis.Named "table" := by
    intro axis haxis
    rcases List.mem_append.1 haxis with haxis | haxis
    · rcases List.mem_append.1 haxis with haxis | haxis
      · exact (axis_named h.xParts).1 axis haxis
      · exact (axis_named h.yParts).1 axis haxis
    · split_ifs at haxis
      · rw [List.mem_singleton.1 haxis]
        rfl
      · cases haxis
  have hchildren := @childrenNamed_mapTable row sizex sizey precision _ hnamed
  rw [← htable] at hvalue hchildren
  have htype : valueOrEmpty (trimmed table) "type" = if sizex = 1 ∨ sizey = 1 then "2D" else "3D" := by
    rw [valueOrEmpty, hvalue]
    show trimCopy (if sizex = 1 ∨ sizey = 1 then "2D" else "3D") = _
    split_ifs <;> decide
  have hname : valueOrEmpty (trimmed table) "name" = trimCopy (row.text "Name") := by
    rw [valueOrEmpty, hvalue]
    rfl
  have hswitch : valueOrEmpty (trimmed table) "type" ≠ "Switch" := by
    rw [htype]
    split_ifs <;> decide
  have hnone (name : String)
      (hname : name ∉ ["type", "name", "category", "storagetype", "endian", "sizex", "sizey"]) :
      (trimmed table).attributeValue name = none := by
    rw [htable]
    exact trimmed_attributeValue_none hname
  have hid : presentValue (trimmed table) "id" = none := by
    rw [presentValue, hnone "id" (by decide)]
    rfl
  have hmem : ∀ axis ∈ xAxis ++ yAxis ++ (if sizex = 1 ∧ sizey = 1 then [scalarAxis] else []),
      trimmed axis ∈ childrenNamed (some (trimmed table)) "table" := by
    rw [hchildren]
    exact fun axis haxis => List.mem_map_of_mem haxis
  refine ⟨⟨?_, fun hfit => ?_⟩, fun parsed hparsed => ?_⟩
  · rintro ⟨parsed, hparsed⟩
    obtain ⟨-, hne, -, map, scalings, -, haxes⟩ := parseTable_eq_ok hswitch hparsed
    rw [populateAxes, succeeds_bind] at haxes
    obtain ⟨state, hstate, -⟩ := haxes
    have hnames := name_of_populateAxes ⟨state, hstate⟩
    rw [hname] at hne
    refine ⟨hne, ?_, ?_, ?_⟩
    · -- the name of the axis of a map with one value is a blank
      intro hone
      refine hnames _ (hmem scalarAxis ?_) ?_ ?_
      · rw [if_pos hone]
        exact List.mem_append_right _ (List.mem_singleton_self _)
      · rw [trimmed_valueOrEmpty]
        decide
      · rw [trimmed_valueOrEmpty]
        decide
    · intro hsizex
      obtain ⟨xPrecision, rfl⟩ := h.xParts.axis_of hsizex
      rw [← axisTable_name]
      refine hnames _ (hmem _ (List.mem_append_left _ (List.mem_append_left _ (List.mem_singleton_self _)))) ?_
      rw [axisTable_type]
      decide
    · intro hsizey
      obtain ⟨yPrecision, rfl⟩ := h.yParts.axis_of hsizey
      rw [← axisTable_name]
      refine hnames _ (hmem _ (List.mem_append_left _ (List.mem_append_right _ (List.mem_singleton_self _)))) ?_
      rw [axisTable_type]
      decide
  · have hstorage : Succeeds (optionalStorageTypeAttribute (trimmed table) "storagetype" source definitionId) := by
      refine @optionalStorageType_storage _ source definitionId (row.text "DataOrg") ?_
      rw [hvalue]
      rfl
    refine parseTable_of_parts (fun name hmem => hnone name ?_) hstorage ?_ ?_ ?_ ?_ ?_ hswitch ?_
    · simp only [List.mem_cons, List.not_mem_nil, or_false] at hmem
      rcases hmem with rfl | rfl | rfl | rfl | rfl <;> decide
    · refine optionalDimension_of_parseInt ?_ h.columns h.one_le_sizex
      rw [hvalue]
      rfl
    · refine optionalDimension_of_parseInt ?_ h.rows h.one_le_sizey
      rw [hvalue]
      rfl
    · intro node hnode name
      rw [htable, child_trimmed] at hnode
      cases hnode
      exact parseScaling_scaling source definitionId _ _ _ name hstorage
    · rw [hname]
      exact hfit.1
    · rw [optionalAddress_none source definitionId (hnone "address" (by decide))
        (hnone "storageaddress" (by decide))]
      exact succeeds_ok _
    · intro map scalings hmapType
      rw [populateAxes, succeeds_bind, hchildren, if_neg hfit.2.1, List.append_nil]
      have hstart : (AxesState.mk map scalings false false).map.type =
          if sizex = 1 ∨ sizey = 1 then "2D" else "3D" := hmapType.trans htype
      obtain ⟨state, hstate⟩ := foldlM_axes source definitionId h hfit hstart rfl rfl
      exact ⟨state, hstate, succeeds_ok _⟩
  · obtain ⟨hidentity, -⟩ := parseTable_eq_ok hswitch hparsed
    rw [hidentity, hid, Option.getD_none, hname]

/-- When the located table of a map is read. -/
def LocatedFit (row : MapRow) : Prop :=
  trimCopy (row.text "Name") ≠ "" ∧
    (∀ value, fromCharsWhole 16 (2 ^ 64) (addressDigits (row.get "Fieldvalues.StartAddr")) = some value →
      value < 2 ^ 32) ∧
    ¬ row.Located "AxisX." ∧ ¬ row.Located "AxisY."

/-- The address that the converter has checked is one for the parser when it has 32 bits. -/
theorem optionalAddress_located {digits : List Char} {value : ℕ} {node : XmlNode}
    (hdigits : fromCharsWhole 16 (2 ^ 64) digits = some value) (hnone : node.attributeValue "address" = none)
    (hvalue : node.attributeValue "storageaddress" = some ("0x" ++ String.ofList digits)) :
    Succeeds (optionalAddress node source definitionId) ↔ value < 2 ^ 32 := by
  obtain ⟨-, hspace, -⟩ := fromCharsWhole_eq_some hdigits
  have hparse : parseHexValue ("0x" ++ String.ofList digits) = some value := by
    have htext : ("0x" ++ String.ofList digits).toList = '0' :: 'x' :: digits := by
      rw [String.toList_append, @String.toList_ofList digits]
      rfl
    have htrim : Expression.trimmed ('0' :: 'x' :: digits) = '0' :: 'x' :: digits := by
      refine trimmed_of_not_whitespace ?_
      intro c hc
      rcases List.mem_cons.1 hc with rfl | hc
      · decide
      · rcases List.mem_cons.1 hc with rfl | hc
        · decide
        · exact hspace c hc
    rw [parseHexValue, htext, htrim]
    exact hdigits
  have hattribute : optionalHexAttribute node "storageaddress" source definitionId = .ok (some value) := by
    rw [optionalHexAttribute, hvalue]
    dsimp only
    rw [hparse]
  rw [optionalAddress, hnone]
  show Succeeds (optionalHexAttribute node "storageaddress" source definitionId >>= _) ↔ _
  rw [hattribute, ok_bind]
  dsimp only
  rw [succeeds_bind, definitionAddressFrom]
  by_cases hlt : value < 2 ^ 32
  · rw [dif_pos hlt]
    exact iff_of_true ⟨_, rfl, succeeds_ok _⟩ hlt
  · rw [dif_neg hlt]
    refine iff_of_false ?_ hlt
    rintro ⟨address, haddress, -⟩
    cases haddress

/-- **When the located table of a map is read**: it has a name and an address of 32 bits, and no axis. -/
theorem readsTable_located (h : RowParts row table located sizex sizey xAxis xLocated yAxis yLocated) :
    ReadsTable (RomRaider.parseTable source definitionId) (trimmed located) (LocatedFit row)
      (trimCopy (row.text "Name")) := by
  obtain ⟨value, hdigits⟩ := h.address
  have hlocated := h.located_eq
  have hname : valueOrEmpty (trimmed located) "name" = trimCopy (row.text "Name") := by
    rw [trimmed_valueOrEmpty, hlocated]
    rfl
  have hnone (name : String) (hname : name ∉ ["name", "storageaddress"]) :
      (trimmed located).attributeValue name = none := by
    rw [hlocated]
    exact trimmed_attributeValue_none hname
  have htype : valueOrEmpty (trimmed located) "type" = "" := by
    rw [valueOrEmpty, hnone "type" (by decide)]
    decide
  have hswitch : valueOrEmpty (trimmed located) "type" ≠ "Switch" := by
    rw [htype]
    decide
  have haddress := @optionalAddress_located source definitionId _ value (trimmed located) hdigits
    (hnone "address" (by decide)) (by rw [trimmed_attributeValue, hlocated]; rfl)
  have hchildren : childrenNamed (some (trimmed located)) "table" = (xLocated ++ yLocated).map trimmed := by
    have hall : ∀ axis ∈ xLocated ++ yLocated, decide (axis.Named "table") = true := by
      intro axis haxis
      rcases List.mem_append.1 haxis with haxis | haxis
      · exact decide_eq_true ((axis_named h.xParts).2 axis haxis)
      · exact decide_eq_true ((axis_named h.yParts).2 axis haxis)
    rw [childrenNamed_trimmed, hlocated]
    exact congrArg (List.map trimmed) (List.filter_eq_self.2 hall)
  refine ⟨⟨?_, fun hfit => ?_⟩, fun parsed hparsed => ?_⟩
  · rintro ⟨parsed, hparsed⟩
    obtain ⟨-, hne, hsome, map, scalings, -, haxes⟩ := parseTable_eq_ok hswitch hparsed
    rw [populateAxes, succeeds_bind] at haxes
    obtain ⟨state, hstate, -⟩ := haxes
    have hnames := name_of_populateAxes ⟨state, hstate⟩
    -- an axis that is located has no name
    have hno : ∀ type, trimCopy type ∈ ["X Axis", "Y Axis", "Static Y Axis"] → ∀ address,
        locatedAxis type address ∉ xLocated ++ yLocated := by
      intro type htype address hmem
      refine hnames (trimmed (locatedAxis type address)) ?_ ?_ ?_
      · rw [hchildren]
        exact List.mem_map_of_mem hmem
      · rw [trimmed_valueOrEmpty]
        exact htype
      · rw [trimmed_valueOrEmpty]
        show trimCopy "" = ""
        decide
    rw [hname] at hne
    refine ⟨hne, fun value' hvalue' => ?_, fun hx => ?_, fun hy => ?_⟩
    · rw [hdigits] at hvalue'
      cases hvalue'
      exact haddress.1 hsome
    · obtain ⟨address, rfl⟩ := h.xParts.located_of hx
      exact hno "X Axis" (by decide) address (List.mem_append_left _ (List.mem_singleton_self _))
    · obtain ⟨address, rfl⟩ := h.yParts.located_of hy
      exact hno "Y Axis" (by decide) address (List.mem_append_right _ (List.mem_singleton_self _))
  · obtain ⟨hne, hlt, hx, hy⟩ := hfit
    have hstorage : Succeeds (optionalStorageTypeAttribute (trimmed located) "storagetype" source definitionId) := by
      rw [optionalStorageType_none source definitionId (hnone "storagetype" (by decide))]
      exact succeeds_ok _
    have hdimension : ∀ name ∈ ["sizex", "sizey"],
        Succeeds (optionalDimension (trimmed located) name source definitionId) := by
      intro name hmem
      rw [optionalDimension_none source definitionId (hnone name ?_)]
      · exact succeeds_ok _
      · simp only [List.mem_cons, List.not_mem_nil, or_false] at hmem
        rcases hmem with rfl | rfl <;> decide
    rw [h.xParts.located_nil hx, h.yParts.located_nil hy] at hchildren hlocated
    refine parseTable_of_parts (fun name hmem => hnone name ?_) hstorage (hdimension "sizex" (by decide))
      (hdimension "sizey" (by decide)) ?_ ?_ (haddress.2 (hlt value hdigits)) hswitch ?_
    · simp only [List.mem_cons, List.not_mem_nil, or_false] at hmem
      rcases hmem with rfl | rfl | rfl | rfl | rfl <;> decide
    · intro node hnode
      rw [hlocated, child_trimmed] at hnode
      cases hnode
    · rw [hname]
      exact hne
    · intro map scalings _
      rw [populateAxes, hchildren]
      exact succeeds_ok _
  · obtain ⟨hidentity, -⟩ := parseTable_eq_ok hswitch hparsed
    rw [hidentity, presentValue, hnone "id" (by decide), Option.map_none, Option.getD_none, hname]

end Base

end Tables

end FastEcu.Definition
