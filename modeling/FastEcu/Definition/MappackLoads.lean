import FastEcu.Definition.MappackTables
import FastEcu.Logging.LoggerConf

/-!
# Loading a converted map pack

The document of a map pack has two ROMs: the base with the tables of the maps, and that of the ECU with their
addresses.

* `loadedRom` : a ROM of the document, as it is loaded.
* `parseBase_succeeds_iff`, `parseEcu_succeeds_iff` : when the two definitions are read.
* `Loadable` : the map packs whose definitions are read.
* `convertMappackCsv_loads_iff` : a converted map pack is accepted exactly when it is one of these.
-/

namespace FastEcu.Definition

open Data
open XmlNode hiding text
open Calibration (Error)
open Logging (asciiBytes fromCharsWhole)

/-! ### The ROMs of the document -/

section Roms

/-- A text of white space is trimmed to nothing. -/
theorem trimHeaderText_of_isBlank {value : String} (h : (XmlNode.text value).isBlank) :
    trimHeaderText value = "" := by
  have hspace : ∀ c ∈ value.toList, isXmlSpace c := List.all_eq_true.1 h
  obtain ⟨hsuffix, hstripped⟩ := @stripSpaces_spec kWhitespace value.toList kWhitespace_ne_nil _ le_rfl
  have hfront : stripSpaces kWhitespace value.toList.length value.toList = [] := by
    cases hfront : stripSpaces kWhitespace value.toList.length value.toList with
    | nil => rfl
    | cons c rest =>
      rw [hfront] at hsuffix hstripped
      have hmem : [c] ∈ kWhitespace := by
        have hc := hspace c (hsuffix.subset (List.mem_cons_self ..))
        simp only [isXmlSpace, Bool.or_eq_true, beq_iff_eq] at hc
        rcases hc with ((rfl | rfl) | rfl) | rfl <;> decide
      exact absurd (List.cons_prefix_cons.2 ⟨rfl, List.nil_prefix⟩) (hstripped [c] hmem)
  unfold trimHeaderText
  rw [hfront]
  rfl

/-- The text of a field that has one text. -/
theorem trim_readElementText_trimmed (name value : String) :
    trimHeaderText (readElementText (some (trimmed (.element name [] [.text value])))) = trimHeaderText value := by
  by_cases hblank : (XmlNode.text value).isBlank
  · have hnode : trimmed (.element name [] [.text value]) = .element name [] [] := by
      rw [trimmed, keep, keepAll, if_neg (by simpa using hblank), keepAll]
    rw [hnode, trimHeaderText_of_isBlank hblank]
    exact trimHeaderText_empty
  · have hnode : trimmed (.element name [] [.text value]) = .element name [] [.text value] := by
      rw [trimmed, keep, keepAll, if_pos (by simpa using hblank), keepAll]
      rfl
    rw [hnode]
    congr 1

variable {id : String} {texts : List (String × String)} {tables : List XmlNode}
  {attributes : List (String × String)}

/-- No field of the converter's `romid` stands twice. -/
theorem length_romIdNode (name : String) (hname : name ∈ kSingletonChildren) :
    (childrenNamed (some (trimmed (romIdNode id texts))) name).length ≤ 1 := by
  rw [childrenNamed_trimmed, List.length_map]
  simp only [kSingletonChildren, List.mem_cons, List.not_mem_nil, or_false] at hname
  rcases hname with rfl | rfl | rfl | rfl | rfl | rfl | rfl | rfl | rfl | rfl | rfl | rfl | rfl | rfl | rfl <;>
    first | exact le_rfl | exact Nat.zero_le _

/-- The fields of the converter's `romid` have texts only. -/
theorem flat_romIdNode (name : String) :
    ∀ node ∈ childrenNamed (some (trimmed (romIdNode id texts))) name, ¬ node.children.any isElement := by
  rw [childrenNamed_trimmed]
  intro node hnode
  obtain ⟨field, hfield, rfl⟩ := List.mem_map.1 hnode
  have hflat : ∀ child ∈ field.children, ¬ child.isElement := by
    have hmem : field ∈ (romIdNode id texts).children := (List.mem_filter.1 hfield).1
    rcases List.mem_cons.1 hmem with rfl | hmem
    · exact List.forall_mem_singleton.2 Bool.false_ne_true
    · obtain ⟨fieldName, -, rfl⟩ := List.mem_map.1 hmem
      intro child hchild
      obtain ⟨field, -, rfl⟩ := List.mem_map.1 hchild
      exact Bool.false_ne_true
  rw [keep_children, keepAll_eq, List.any_eq_true]
  rintro ⟨child, hchild, helement⟩
  obtain ⟨child', hchild', rfl⟩ := List.mem_map.1 hchild
  rw [keep_isElement] at helement
  exact hflat child' (List.mem_filter.1 hchild').1 helement

/-- A ROM of the converter, as it is loaded. -/
def loadedRom (attributes : List (String × String)) (id : String) (texts : List (String × String))
    (tables : List XmlNode) : XmlNode :=
  trimmed (.element "rom" attributes (romIdNode id texts :: tables))

variable (htables : ∀ table ∈ tables, table.Named "table")

include htables

theorem childrenNamed_loadedRom {name : String} (hname : name ≠ "table") :
    childrenNamed (some (loadedRom attributes id texts tables)) name =
      if name = "romid" then [trimmed (romIdNode id texts)] else [] := by
  have hnone : tables.filter (fun node => decide (node.Named name)) = [] := by
    refine List.filter_eq_nil_iff.2 fun table htable hnamed => hname ?_
    have htwice := (htables table htable).symm.trans (of_decide_eq_true hnamed)
    exact (Option.some_inj.1 htwice).symm
  rw [loadedRom, childrenNamed_trimmed, childrenNamed_some]
  show ((romIdNode id texts :: tables).filter fun node => decide (node.Named name)).map trimmed = _
  by_cases hromid : name = "romid"
  · subst hromid
    have hyes : (romIdNode id texts).Named "romid" := rfl
    rw [List.filter_cons_of_pos (by simpa using hyes), hnone, if_pos rfl]
    rfl
  · have hnot : ¬ (romIdNode id texts).Named name := fun h => hromid (Option.some_inj.1 h).symm
    rw [List.filter_cons_of_neg (by simpa using hnot), hnone, if_neg hromid]
    rfl

theorem tables_loadedRom :
    childrenNamed (some (loadedRom attributes id texts tables)) "table" = tables.map trimmed := by
  have hall : tables.filter (fun node => decide (node.Named "table")) = tables :=
    List.filter_eq_self.2 fun table htable => decide_eq_true (htables table htable)
  rw [loadedRom, childrenNamed_trimmed, childrenNamed_some]
  show ((romIdNode id texts :: tables).filter fun node => decide (node.Named "table")).map trimmed = _
  have hnot : ¬ (romIdNode id texts).Named "table" := fun h => absurd (Option.some_inj.1 h) (by decide)
  rw [List.filter_cons_of_neg (by simpa using hnot), hall]

theorem identityElement_loadedRom (source : String) :
    identityElement (loadedRom attributes id texts tables) source = .ok (trimmed (romIdNode id texts)) := by
  have hromid := @childrenNamed_loadedRom id texts tables attributes htables "romid" (by decide)
  rw [if_pos rfl] at hromid
  have hvalid : validateHeaderStructure (loadedRom attributes id texts tables) source = .ok () := by
    rw [validateHeaderStructure, child_of_childrenNamed hromid,
      validateFields_ok (fun name _ => flat_romIdNode name) source, ok_bind]
    refine validateFields_ok (fun name hname node hnode => ?_) source
    rw [childrenNamed_loadedRom htables (by rintro rfl; exact absurd hname (by decide)), if_neg] at hnode
    · cases hnode
    · rintro rfl
      exact absurd hname (by decide)
  have hsingle : kSingletonChildren.find? (fun name =>
      1 < (childrenNamed (some (trimmed (romIdNode id texts))) name).length) = none := by
    refine List.find?_eq_none.2 fun name hname hlt => ?_
    exact absurd (of_decide_eq_true hlt) (not_lt.2 (length_romIdNode name hname))
  rw [identityElement, hvalid, ok_bind, hromid]
  dsimp only
  rw [hsingle]

/-- **The id of a ROM is the trimmed text of its field.** -/
theorem definitionIdForRom_loadedRom (hne : trimHeaderText id ≠ "") (source : String) :
    definitionIdForRom (loadedRom attributes id texts tables) source = .ok (trimHeaderText id) := by
  have hid : headerChildText (some (trimmed (romIdNode id texts))) "xmlid" = trimHeaderText id := by
    have hchild : child (some (trimmed (romIdNode id texts))) "xmlid" =
        some (trimmed (.element "xmlid" [] [.text id])) := by
      rw [child_trimmed]
      rfl
    rw [headerChildText, hchild]
    exact trim_readElementText_trimmed "xmlid" id
  rw [definitionIdForRom, identityElement_loadedRom htables, ok_bind, requiredChildText, hid, if_neg hne]

/-- **The definition of a ROM is read when its tables are.** -/
theorem parseRom_loadedRom (source definitionId : String) (hne : trimHeaderText id ≠ "")
    (haddress : Succeeds (parseHeaderAddress (readElementText
      (child (some (trimmed (romIdNode id texts))) "internalidaddress")) source (trimHeaderText id))) :
    Succeeds (RomRaider.parseRom source definitionId (loadedRom attributes id texts tables)) ↔
      Succeeds (parseTables source definitionId (RomRaider.parseTable source definitionId) (tables.map trimmed)
        [] []) := by
  have hromid := @childrenNamed_loadedRom id texts tables attributes htables "romid" (by decide)
  rw [if_pos rfl] at hromid
  obtain ⟨address, haddress⟩ := haddress
  rw [RomRaider.parseRom, parseRomHeader, definitionIdForRom_loadedRom htables hne, ok_bind,
    child_of_childrenNamed hromid]
  dsimp only
  rw [haddress, tables_loadedRom htables, ok_bind]
  show Succeeds (parseTables _ _ _ _ _ _ >>= _) ↔ _
  rw [succeeds_bind]
  constructor
  · rintro ⟨parsed, hparsed, -⟩
    exact ⟨parsed, hparsed⟩
  · rintro ⟨parsed, hparsed⟩
    exact ⟨parsed, hparsed, succeeds_ok _⟩

end Roms

/-! ### The two ROMs -/

section Document

variable {tables : List (XmlNode × XmlNode)} {ecuId : String} {xml : XmlParser} {bytes : Bytes}

/-- The base of the document, as it is loaded. -/
def loadedBase (tables : List (XmlNode × XmlNode)) : XmlNode :=
  loadedRom [] "BASE" [] (tables.map Prod.fst)

/-- The ROM of the ECU, as it is loaded. -/
def loadedEcu (ecuId : String) (tables : List (XmlNode × XmlNode)) : XmlNode :=
  loadedRom [("base", "BASE")] ecuId
    [("internalidaddress", "0x50"), ("internalidstring", "1037369411P321/C51"), ("ecuid", ecuId)]
    (tables.map Prod.snd)

/-- The document has one root, and the two ROMs in it. -/
theorem parseRoot_mappack (hxml : xml bytes = .ok (withoutBlank [.element "roms" [] (mappackRoms ecuId tables)]))
    (source : String) :
    ∃ root, parseRoot (xml bytes) source "roms" = .ok root ∧
      childrenNamed (some root) "rom" = [loadedBase tables, loadedEcu ecuId tables] := by
  refine ⟨trimmed (.element "roms" [] (mappackRoms ecuId tables)), ?_, ?_⟩
  · rw [hxml]
    rfl
  · rw [childrenNamed_trimmed]
    rfl

/-- Which of two ROMs is selected. -/
theorem selectRom_pair {base ecu : XmlNode} {source id id' : String} (definitionId : String)
    (hbase : definitionIdForRom base source = .ok id) (hecu : definitionIdForRom ecu source = .ok id') :
    RomRaider.selectRom source definitionId [base, ecu] none =
      if id = definitionId then
        if id' = definitionId then
          invalid source "element <romid> child <xmlid>" "duplicate definition identity" definitionId
        else .ok (some base)
      else .ok (if id' = definitionId then some ecu else none) := by
  rw [RomRaider.selectRom, hbase, ok_bind]
  by_cases h : id = definitionId
  · rw [if_pos h, if_pos h, Option.isSome_none, if_neg Bool.false_ne_true, RomRaider.selectRom, hecu, ok_bind]
    by_cases h' : id' = definitionId
    · rw [if_pos h', if_pos h', Option.isSome_some, if_pos rfl]
    · rw [if_neg h', if_neg h', RomRaider.selectRom]
  · rw [if_neg h, if_neg h, RomRaider.selectRom, hecu, ok_bind]
    by_cases h' : id' = definitionId
    · rw [if_pos h', if_pos h', Option.isSome_none, if_neg Bool.false_ne_true, RomRaider.selectRom]
    · rw [if_neg h', if_neg h', RomRaider.selectRom]

/-- The base has no address. -/
theorem address_base (source definitionId : String) :
    parseHeaderAddress (readElementText (child (some (trimmed (romIdNode "BASE" []))) "internalidaddress")) source
      definitionId = .ok none := by
  have htext : readElementText (child (some (trimmed (romIdNode "BASE" []))) "internalidaddress") = "" := by
    rw [child_trimmed]
    rfl
  rw [htext, parseHeaderAddress, trimHeaderText_empty]
  exact if_pos rfl

/-- That of the ECU is read. -/
theorem address_ecu (ecuId value source definitionId : String) :
    parseHeaderAddress (readElementText (child (some (trimmed (romIdNode ecuId
      [("internalidaddress", "0x50"), ("internalidstring", value), ("ecuid", ecuId)]))) "internalidaddress"))
      source definitionId = .ok (some ⟨0x50, by decide⟩) := by
  have hchild : child (some (romIdNode ecuId
      [("internalidaddress", "0x50"), ("internalidstring", value), ("ecuid", ecuId)])) "internalidaddress" =
      some (.element "internalidaddress" [] [.text "0x50"]) := rfl
  have htext : readElementText (some (trimmed (.element "internalidaddress" [] [.text "0x50"]))) = hexText 0x50 := by
    decide
  rw [child_trimmed, hchild, Option.map_some, htext]
  exact parseHeaderAddress_hexText ⟨0x50, by decide⟩ source definitionId

variable (htables : ∀ table ∈ tables, table.1.Named "table" ∧ table.2.Named "table")

include htables

theorem fst_named : ∀ table ∈ tables.map Prod.fst, table.Named "table" := by
  intro table htable
  obtain ⟨pair, hpair, rfl⟩ := List.mem_map.1 htable
  exact (htables pair hpair).1

theorem snd_named : ∀ table ∈ tables.map Prod.snd, table.Named "table" := by
  intro table htable
  obtain ⟨pair, hpair, rfl⟩ := List.mem_map.1 htable
  exact (htables pair hpair).2

/-- The ids of the two ROMs. -/
theorem definitionIds_mappack (hne : trimHeaderText ecuId ≠ "") (source : String) :
    definitionIdForRom (loadedBase tables) source = .ok "BASE" ∧
      definitionIdForRom (loadedEcu ecuId tables) source = .ok (trimHeaderText ecuId) := by
  refine ⟨?_, definitionIdForRom_loadedRom (snd_named htables) hne source⟩
  have hbase : trimHeaderText "BASE" = "BASE" := by decide
  have hid := @definitionIdForRom_loadedRom "BASE" [] (tables.map Prod.fst) [] (fst_named htables) (by decide) source
  rwa [hbase] at hid

/-- **When the base definition is read**: the ECU does not have its name, and its tables are read. -/
theorem parseBase_succeeds_iff
    (hxml : xml bytes = .ok (withoutBlank [.element "roms" [] (mappackRoms ecuId tables)]))
    (hne : trimHeaderText ecuId ≠ "") (source : String) :
    Succeeds (parseRomraiderDefinition xml bytes source "BASE") ↔ trimHeaderText ecuId ≠ "BASE" ∧
      Succeeds (parseTables source "BASE" (RomRaider.parseTable source "BASE")
        ((tables.map Prod.fst).map trimmed) [] []) := by
  obtain ⟨root, hroot, hroms⟩ := parseRoot_mappack hxml source
  obtain ⟨hbase, hecu⟩ := definitionIds_mappack htables hne source
  rw [parseRomraiderDefinition, if_neg (by decide), hroot, ok_bind, hroms, selectRom_pair "BASE" hbase hecu,
    if_pos rfl]
  by_cases h : trimHeaderText ecuId = "BASE"
  · rw [if_pos h]
    exact iff_of_false (not_succeeds_error _) fun h' => h'.1 h
  · rw [if_neg h, ok_bind]
    dsimp only
    rw [loadedBase, parseRom_loadedRom (fst_named htables) source "BASE" (by decide)
      ⟨_, address_base source _⟩]
    exact (and_iff_right h).symm

/-- **When the definition of the ECU is read**: its name is another one without white space around it, and its
tables are read. -/
theorem parseEcu_succeeds_iff
    (hxml : xml bytes = .ok (withoutBlank [.element "roms" [] (mappackRoms ecuId tables)]))
    (hne : trimHeaderText ecuId ≠ "") (source : String) :
    Succeeds (parseRomraiderDefinition xml bytes source ecuId) ↔
      trimHeaderText ecuId = ecuId ∧ ecuId ≠ "BASE" ∧
        Succeeds (parseTables source ecuId (RomRaider.parseTable source ecuId)
          ((tables.map Prod.snd).map trimmed) [] []) := by
  obtain ⟨root, hroot, hroms⟩ := parseRoot_mappack hxml source
  obtain ⟨hbase, hecu⟩ := definitionIds_mappack htables hne source
  have hid : ecuId ≠ "" := by
    rintro rfl
    exact hne trimHeaderText_empty
  rw [parseRomraiderDefinition, if_neg hid, hroot, ok_bind, hroms, selectRom_pair ecuId hbase hecu]
  by_cases hname : "BASE" = ecuId
  · -- the name of the base is trimmed, so both ROMs have it
    subst hname
    rw [if_pos rfl, if_pos (by decide)]
    exact iff_of_false (not_succeeds_error _) fun h => h.2.1 rfl
  rw [if_neg hname, ok_bind]
  by_cases htrim : trimHeaderText ecuId = ecuId
  · rw [if_pos htrim]
    dsimp only
    rw [loadedEcu, parseRom_loadedRom (snd_named htables) source ecuId hne ⟨_, address_ecu ecuId _ source _⟩]
    exact ⟨fun h => ⟨htrim, Ne.symm hname, h⟩, fun h => h.2.2⟩
  · rw [if_neg htrim]
    exact iff_of_false (not_succeeds_error _) fun h => htrim h.1

end Document

/-! ### The rows of the pack -/

section Rows

variable {readsFactor : List Char → Bool} {csv : List Char} {ecuId : String} {rows : List MapRow}
  {tables : List (XmlNode × XmlNode)}

/-- A dimension of the map of a row. -/
def MapRow.dimension (row : MapRow) (name : String) : ℤ := (parseInt (row.get name)).getD 0

/-- The identity of the map of a row. -/
def MapRow.identity (row : MapRow) : String := trimCopy (row.text "Name")

/-- A row whose two tables are read. -/
structure LoadableRow (row : MapRow) : Prop where
  named : row.identity ≠ ""
  -- the axis of a map with one value has a blank for its name
  not_scalar : ¬ (row.dimension "Columns" = 1 ∧ row.dimension "Rows" = 1)
  xAxis_named : 1 < row.dimension "Columns" → trimCopy (row.text "AxisX.Name") ≠ ""
  yAxis_named : 1 < row.dimension "Rows" → trimCopy (row.text "AxisY.Name") ≠ ""
  -- the converter takes an address of 64 bits
  address_lt : ∀ value, fromCharsWhole 16 (2 ^ 64) (addressDigits (row.get "Fieldvalues.StartAddr")) = some value →
    value < 2 ^ 32
  -- an axis with an address has no name
  xAxis_not_located : ¬ row.Located "AxisX."
  yAxis_not_located : ¬ row.Located "AxisY."

theorem loadableRow_iff {row : MapRow} :
    LoadableRow row ↔ BaseFit row (row.dimension "Columns") (row.dimension "Rows") ∧ LocatedFit row := by
  have hx : "AxisX." ++ "Name" = "AxisX.Name" := by decide
  have hy : "AxisY." ++ "Name" = "AxisY.Name" := by decide
  rw [BaseFit, LocatedFit, hx, hy]
  constructor
  · intro h
    exact ⟨⟨h.named, h.not_scalar, h.xAxis_named, h.yAxis_named⟩, h.named, h.address_lt, h.xAxis_not_located,
      h.yAxis_not_located⟩
  · rintro ⟨⟨hnamed, hscalar, hxName, hyName⟩, -, haddress, hxLocated, hyLocated⟩
    exact ⟨hnamed, hscalar, hxName, hyName, haddress, hxLocated, hyLocated⟩

/-- The rows of a map pack. -/
def packRows (csv : List Char) : List MapRow :=
  match parseCsv csv with
  | some (.ok (header :: rows)) => mapRows (headerColumns header) (header :: rows)
  | _ => []

/-- A map pack whose definitions are read. -/
structure Loadable (csv : List Char) (ecuId : String) : Prop where
  id_trimmed : trimHeaderText ecuId = ecuId
  id_ne_base : ecuId ≠ "BASE"
  rows : ∀ row ∈ packRows csv, LoadableRow row
  identities : ((packRows csv).map MapRow.identity).Nodup

/-- The columns are those of the header. -/
theorem parseColumns_eq_ok {header columns : Row} (h : parseColumns header = .ok columns) :
    columns = headerColumns header := by
  unfold parseColumns at h
  dsimp only at h
  split at h
  · exact absurd ⟨_, h⟩ (not_succeeds_error _)
  · split at h
    · exact absurd ⟨_, h⟩ (not_succeeds_error _)
    · exact (Except.ok.inj h).symm

/-- **The document of a map pack**: its tables are those of the rows. -/
theorem mappackDocument_eq_ok {document : List XmlNode}
    (h : mappackDocument readsFactor csv ecuId = some (.ok document)) :
    trimHeaderText ecuId ≠ "" ∧ ∃ tables, document = [.element "roms" [] (mappackRoms ecuId tables)] ∧
      List.Forall₂ (fun row tables => convertRow readsFactor row = .ok tables) (packRows csv) tables := by
  unfold mappackDocument at h
  split_ifs at h with hempty hcontrol
  · exact absurd ⟨_, Option.some.inj h⟩ (not_succeeds_error _)
  · exact absurd ⟨_, Option.some.inj h⟩ (not_succeeds_error _)
  refine ⟨hempty, ?_⟩
  obtain ⟨parsed, hcsv, h⟩ := Option.map_eq_some_iff.1 h
  obtain ⟨rows, rfl, h⟩ := bind_eq_ok.1 h
  rw [ok_bind] at h
  unfold rowsDocument at h
  split at h
  · obtain ⟨columns, hcolumns, h⟩ := bind_eq_ok.1 h
    obtain ⟨tables, htables, h⟩ := bind_eq_ok.1 h
    have hrows := forall₂_of_mapM htables
    rw [parseColumns_eq_ok hcolumns] at hrows
    refine ⟨tables, (Except.ok.inj h).symm, ?_⟩
    rw [packRows, hcsv]
    exact hrows
  · exact absurd ⟨_, h⟩ (not_succeeds_error _)

/-- When the two tables of a row are read. -/
theorem readsTable_row {row : MapRow} {table : XmlNode × XmlNode} (h : convertRow readsFactor row = .ok table)
    (source definitionId : String) :
    (table.1.Named "table" ∧ table.2.Named "table") ∧
      ReadsTable (RomRaider.parseTable source definitionId) (trimmed table.1)
        (BaseFit row (row.dimension "Columns") (row.dimension "Rows")) row.identity ∧
      ReadsTable (RomRaider.parseTable source definitionId) (trimmed table.2) (LocatedFit row) row.identity := by
  obtain ⟨sizex, sizey, xAxis, xLocated, yAxis, yLocated, hparts⟩ := convertRow_eq_ok h
  have hsizex : row.dimension "Columns" = sizex := by rw [MapRow.dimension, hparts.columns, Option.getD_some]
  have hsizey : row.dimension "Rows" = sizey := by rw [MapRow.dimension, hparts.rows, Option.getD_some]
  refine ⟨⟨?_, ?_⟩, ?_, readsTable_located source definitionId hparts⟩
  · obtain ⟨precision, htable⟩ := hparts.table_eq
    rw [htable]
    rfl
  · rw [hparts.located_eq]
    rfl
  · rw [hsizex, hsizey]
    exact readsTable_base source definitionId hparts

theorem named_of_rows (h : List.Forall₂ (fun row table => convertRow readsFactor row = .ok table) rows tables) :
    ∀ table ∈ tables, table.1.Named "table" ∧ table.2.Named "table" := by
  induction h with
  | nil => exact List.forall_mem_nil _
  | cons hrow _ ih => exact List.forall_mem_cons.2 ⟨(readsTable_row hrow "" "").1, ih⟩

/-- **When the tables of the base are read**: every row fits, and no two have one name. -/
theorem parseTables_base_iff (h : List.Forall₂ (fun row table => convertRow readsFactor row = .ok table) rows tables)
    (source definitionId : String) :
    Succeeds (parseTables source definitionId (RomRaider.parseTable source definitionId)
      ((tables.map Prod.fst).map trimmed) [] []) ↔
      (∀ row ∈ rows, BaseFit row (row.dimension "Columns") (row.dimension "Rows")) ∧
        (rows.map MapRow.identity).Nodup := by
  have hread : List.Forall₂ (fun row table => ReadsTable (RomRaider.parseTable source definitionId) table
      (BaseFit row (row.dimension "Columns") (row.dimension "Rows")) row.identity) rows
      ((tables.map Prod.fst).map trimmed) := by
    rw [List.forall₂_map_right_iff, List.forall₂_map_right_iff]
    exact h.imp fun row table hrow => (readsTable_row hrow source definitionId).2.1
  rw [parseTables_succeeds_iff source definitionId hread]
  exact and_congr_right fun _ => and_iff_left fun _ _ => List.forall_mem_nil _

/-- **When those of the ECU are read.** -/
theorem parseTables_ecu_iff (h : List.Forall₂ (fun row table => convertRow readsFactor row = .ok table) rows tables)
    (source definitionId : String) :
    Succeeds (parseTables source definitionId (RomRaider.parseTable source definitionId)
      ((tables.map Prod.snd).map trimmed) [] []) ↔
      (∀ row ∈ rows, LocatedFit row) ∧ (rows.map MapRow.identity).Nodup := by
  have hread : List.Forall₂ (fun row table => ReadsTable (RomRaider.parseTable source definitionId) table
      (LocatedFit row) row.identity) rows ((tables.map Prod.snd).map trimmed) := by
    rw [List.forall₂_map_right_iff, List.forall₂_map_right_iff]
    exact h.imp fun row table hrow => (readsTable_row hrow source definitionId).2.2
  rw [parseTables_succeeds_iff source definitionId hread]
  exact and_congr_right fun _ => and_iff_left fun _ _ => List.forall_mem_nil _

/-! ### The converted pack -/

variable {save : List XmlNode → Bytes} {xml : XmlParser} {bytes : Bytes}

/-- What is saved when a pack is converted. -/
theorem convertMappackCsv_eq_ok (h : convertMappackCsv readsFactor save csv ecuId = some (.ok bytes)) :
    ∃ document, mappackDocument readsFactor csv ecuId = some (.ok document) ∧ bytes = save document := by
  obtain ⟨result, hresult, h⟩ := Option.map_eq_some_iff.1 h
  cases result with
  | error e => exact absurd ⟨_, h⟩ (not_succeeds_error _)
  | ok document => exact ⟨document, hresult, (Except.ok.inj h).symm⟩

end Rows

/-! ### A pack with one map -/

section Sample

/-- The columns of the pack. -/
def sampleColumns : Row :=
  ["Name", "FolderName", "DataOrg", "Columns", "Rows", "Fieldvalues.Name", "Fieldvalues.Unit", "Fieldvalues.Factor",
    "Precision", "Fieldvalues.StartAddr", "Comment", "AxisX.Name", "AxisX.DataOrg", "AxisX.Unit", "AxisX.Factor",
    "AxisX.Precision", "AxisX.DataHeader", "AxisX.DataAddr"].map String.toList

/-- A map with one row of values. -/
def sampleFields (columns : String) : Row :=
  ["Boost", "Fuel", "eHiLo", columns, "1", "Boost", "bar", "1", "0", "$8000", "", "RPM", "eHiLo", "rpm", "1", "0", "",
    ""].map String.toList

def samplePack (columns : String) : List Char :=
  writeRow sampleColumns ++ LineEnd.lf.chars ++ writeRow (sampleFields columns)

def sampleRow (columns : String) : MapRow := mapRowOf sampleColumns (sampleFields columns) 2

/-- The document of the pack. -/
def sampleDocument (columns : String) (sizex : ℤ) (axes : List XmlNode) : List XmlNode :=
  [.element "roms" [] (mappackRoms "ECU123"
    [(mapTable (sampleRow columns) sizex 1 0 (axes ++ [] ++ if sizex = 1 ∧ (1 : ℤ) = 1 then [scalarAxis] else []),
      locatedTable (sampleRow columns) "0x8000" ([] ++ []))])]

/-- The attributes of an element, as pugixml saves them. -/
def savedAttributes (attributes : List (String × String)) : String :=
  String.join (attributes.map fun entry => " " ++ entry.1 ++ "=\"" ++ entry.2 ++ "\"")

mutual

/-- An element with its indentation, as pugixml saves it when no text has a character to escape. -/
def savedNode (indent : String) : XmlNode → String
  | .element name attributes [] => indent ++ "<" ++ name ++ savedAttributes attributes ++ " />\n"
  | .element name attributes [.text value] =>
    indent ++ "<" ++ name ++ savedAttributes attributes ++ ">" ++ value ++ "</" ++ name ++ ">\n"
  | .element name attributes children =>
    indent ++ "<" ++ name ++ savedAttributes attributes ++ ">\n" ++ savedNodes (indent ++ "    ") children ++
      indent ++ "</" ++ name ++ ">\n"
  | _ => ""

def savedNodes (indent : String) : List XmlNode → String
  | [] => ""
  | node :: nodes => savedNode indent node ++ savedNodes indent nodes

end

/-- The text of a document. -/
def savedDocument (document : List XmlNode) : Bytes :=
  asciiBytes "<?xml version=\"1.0\"?>\n" ++ asciiBytes (savedNodes "" document)

/-- What is loaded when the document is the only one that was saved. -/
def loadedDocument (document : List XmlNode) : XmlParser := fun contents =>
  if contents = savedDocument document then .ok (withoutBlank document) else .error "No document element found"

variable {columns : String} {sizex : ℤ} {axes : List XmlNode}

theorem parseCsv_samplePack (hplain : PlainField columns.toList) :
    parseCsv (samplePack columns) = some (.ok [sampleColumns, sampleFields columns]) := by
  have hfields : ∀ row ∈ [sampleColumns, sampleFields columns], row ≠ [] ∧ ∀ field ∈ row, PlainField field := by
    have hcolumns : ∀ field ∈ sampleColumns, PlainField field := by decide
    have hbefore : ∀ field ∈ (sampleFields columns).take 3, PlainField field := by
      show ∀ field ∈ ["Boost", "Fuel", "eHiLo"].map String.toList, PlainField field
      decide
    have hafter : ∀ field ∈ (sampleFields columns).drop 4, PlainField field := by
      show ∀ field ∈ ["1", "Boost", "bar", "1", "0", "$8000", "", "RPM", "eHiLo", "rpm", "1", "0", "", ""].map
        String.toList, PlainField field
      decide
    refine List.forall_mem_cons.2 ⟨⟨by decide, hcolumns⟩, List.forall_mem_singleton.2 ⟨List.cons_ne_nil _ _, ?_⟩⟩
    intro field hfield
    rw [← List.take_append_drop 3 (sampleFields columns)] at hfield
    rcases List.mem_append.1 hfield with hfield | hfield
    · exact hbefore field hfield
    · rcases List.mem_cons.1 hfield with rfl | hfield
      · exact hplain
      · exact hafter field hfield
  exact parse_written (.cons sampleColumns .lf (.unended (sampleFields columns))) hfields []

/-- The pack is converted when its columns are a dimension. -/
theorem mappackDocument_sample (hplain : PlainField columns.toList)
    (hsize : mapDimension (sampleRow columns) "Columns" = .ok sizex)
    (haxis : appendAxis (· = ['1']) (sampleRow columns) "AxisX." "X Axis" sizex = .ok (axes, [])) :
    mappackDocument (· = ['1']) (samplePack columns) "ECU123" = some (.ok (sampleDocument columns sizex axes)) := by
  have hrow : convertRow (· = ['1']) (sampleRow columns) =
      .ok (mapTable (sampleRow columns) sizex 1 0
          (axes ++ [] ++ if sizex = 1 ∧ (1 : ℤ) = 1 then [scalarAxis] else []),
        locatedTable (sampleRow columns) "0x8000" ([] ++ [])) := by
    have hlength : (sampleRow columns).fields.length = (sampleRow columns).columns.length := rfl
    have hrows : mapDimension (sampleRow columns) "Rows" = .ok 1 := rfl
    have hprecision : scalingPrecision (· = ['1']) (sampleRow columns) "Fieldvalues.Factor" "Precision" = .ok 0 := rfl
    have haddress : storageAddress (sampleRow columns) "Fieldvalues.StartAddr" = .ok "0x8000" := rfl
    have hyAxis : appendAxis (· = ['1']) (sampleRow columns) "AxisY." "Y Axis" 1 = .ok ([], []) := rfl
    rw [convertRow, if_neg (not_not.2 hlength), appendMap, hsize, ok_bind, hrows, ok_bind, hprecision, ok_bind,
      haddress, ok_bind, haxis, ok_bind]
    dsimp only
    rw [hyAxis]
    rfl
  have hheader : parseColumns sampleColumns = .ok sampleColumns := rfl
  have hmapRows : mapRows sampleColumns [sampleColumns, sampleFields columns] = [sampleRow columns] := rfl
  have hcontrol : ¬ containsXmlControl "ECU123".toList := by decide
  rw [mappackDocument, if_neg (by decide), if_neg hcontrol, parseCsv_samplePack hplain, Option.map_some, ok_bind,
    rowsDocument, hheader, ok_bind, hmapRows, List.mapM_cons, hrow, ok_bind, List.mapM_nil]
  rfl

/-- What is assumed of pugixml holds of the sample. -/
theorem loadedDocument_sample (hdocument : mappackDocument (· = ['1']) (samplePack columns) "ECU123" =
      some (.ok (sampleDocument columns sizex axes))) :
    ∀ document, mappackDocument (· = ['1']) (samplePack columns) "ECU123" = some (.ok document) →
      loadedDocument (sampleDocument columns sizex axes) (savedDocument document) = .ok (withoutBlank document) := by
  intro document h
  rw [hdocument] at h
  cases h
  exact if_pos rfl

theorem packRows_sample (hplain : PlainField columns.toList) : packRows (samplePack columns) = [sampleRow columns] := by
  rw [packRows, parseCsv_samplePack hplain]
  rfl

/-- A map with two values can be loaded. -/
theorem loadable_sample : Loadable (samplePack "2") "ECU123" := by
  have hrow : LoadableRow (sampleRow "2") := by
    refine ⟨by decide, by decide, fun _ => by decide, fun h => absurd h (by decide), fun value hvalue => ?_, ?_, ?_⟩
    · have haddress : fromCharsWhole 16 (2 ^ 64) (addressDigits ((sampleRow "2").get "Fieldvalues.StartAddr")) =
          some 0x8000 := rfl
      rw [haddress] at hvalue
      cases hvalue
      decide
    · rintro ⟨-, header, hheader, -⟩
      have hnone : parseInt ((sampleRow "2").get ("AxisX." ++ "DataHeader")) = none := rfl
      rw [hnone] at hheader
      cases hheader
    · rintro ⟨hcontains, -⟩
      exact absurd hcontains (by decide)
  refine ⟨by decide, by decide, ?_, ?_⟩
  · rw [packRows_sample (by decide)]
    exact List.forall_mem_singleton.2 hrow
  · rw [packRows_sample (by decide)]
    exact List.nodup_singleton _

end Sample

end FastEcu.Definition
