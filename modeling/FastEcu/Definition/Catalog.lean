import FastEcu.Definition.Parsers

/-!
# The catalog of definitions

`DefinitionCatalog` (`src/backend/definition/definition_model.cpp`) and what `DefinitionService`
(`definition_service.cpp`) does with it: the index of the definition files, the flash method that an
entry of the index comes to, and the definition that is loaded for an entry.

* `DefinitionCatalog` : the entries; no two of them have the same format and id.
* `buildCatalog` : the catalog of some files.
* `effectiveFlashMethod` : the walk over the parent links of the index.
* `loadDefinition` : the definition of an entry, resolved with its parents.
-/

namespace FastEcu.Definition

open Memory Data
open Calibration (Error ErrorKind invalidConfig)

/-! ### The index -/

/-- `HasSameLookupKey`. -/
def DefinitionIndexEntry.key (entry : DefinitionIndexEntry) : DefinitionFormat × String :=
  (entry.format, entry.definitionId)

/-- `HasSameContent`. -/
def hasSameContent (left right : DefinitionIndexEntry) : Bool :=
  left.internalId = right.internalId ∧ left.ecuId = right.ecuId ∧
    left.internalIdAddress.map (·.value) = right.internalIdAddress.map (·.value) ∧
    left.internalIdEncoding = right.internalIdEncoding ∧ left.parents = right.parents

/-- `Validate`. -/
def validateEntry (entry : DefinitionIndexEntry) : Except Error Unit :=
  if entry.definitionId = "" then invalidConfig "definition ID must not be empty"
  else if entry.source = "" then
    invalidConfig s!"definition source must not be empty for ID '{entry.definitionId}'"
  else if entry.parents.any fun parent => parent = "" || parent.toList.any Expression.whitespace then
    invalidConfig s!"invalid parent reference in '{entry.source}'"
  else .ok ()

/-- `DefinitionCatalog`. -/
structure DefinitionCatalog where
  entries : List DefinitionIndexEntry
  /-- An entry is found by its format and id. -/
  nodup : (entries.map (·.key)).Nodup

/-- `DefinitionCatalog::Find`. -/
def DefinitionCatalog.find (catalog : DefinitionCatalog) (format : DefinitionFormat) (id : String) :
    Option DefinitionIndexEntry :=
  catalog.entries.find? fun entry => entry.key = (format, id)

/-- The catalog with one more entry. -/
theorem nodup_concat {entries : List DefinitionIndexEntry} {entry : DefinitionIndexEntry}
    (h : (entries.map (·.key)).Nodup) (hnone : entries.find? (fun e => e.key = entry.key) = none) :
    ((entries ++ [entry]).map (·.key)).Nodup := by
  rw [List.map_append, List.map_singleton, List.nodup_append_comm]
  refine List.nodup_cons.2 ⟨?_, h⟩
  intro hmem
  obtain ⟨e, he, hkey⟩ := List.mem_map.1 hmem
  exact absurd (decide_eq_true hkey) (List.find?_eq_none.1 hnone e he)

/-- The loop of `DefinitionCatalog::Create`. -/
def addEntries (catalog : DefinitionCatalog) :
    List DefinitionIndexEntry → Except Error DefinitionCatalog
  | [] => .ok catalog
  | entry :: entries =>
    match validateEntry entry with
    | .error e => .error e
    | .ok () =>
      match h : catalog.entries.find? fun e => e.key = entry.key with
      | none => addEntries ⟨catalog.entries ++ [entry], nodup_concat catalog.nodup h⟩ entries
      | some existing =>
        if hasSameContent existing entry then addEntries catalog entries
        else
          invalidConfig s!"conflicting duplicate definition ID '{entry.definitionId}' from '{
            existing.source}' and '{entry.source}'"

/-- `DefinitionCatalog::Create`. -/
def DefinitionCatalog.create (entries : List DefinitionIndexEntry) : Except Error DefinitionCatalog :=
  addEntries ⟨[], List.nodup_nil⟩ entries

/-! ### The files -/

/-- The outside of the service: the files, pugixml, and `FineIncrementFrom`, which divides a
`double`. -/
structure DefinitionFiles where
  read : String → Except Error Bytes
  xml : XmlParser
  fineIncrementFrom : String → String

namespace DefinitionFiles

variable (files : DefinitionFiles)

/-- The index of a file. -/
def parseIndex (format : DefinitionFormat) (contents : Bytes) (source : String) :
    Except Error (List DefinitionIndexEntry) :=
  match format with
  | .romRaider => parseRomraiderIndex files.xml contents source
  | .ecuFlash => parseEcuflashIndex files.xml contents source

/-- The entries of the files, in their order; a file that cannot be used is skipped or an error. -/
def indexEntries (format : DefinitionFormat) (skipUnusableHandles : Bool) :
    List String → Except Error (List DefinitionIndexEntry)
  | [] => .ok []
  | handle :: handles =>
    match (files.read handle).bind fun contents => files.parseIndex format contents handle with
    | .error e =>
      if skipUnusableHandles then indexEntries format skipUnusableHandles handles else .error e
    | .ok parsed =>
      match indexEntries format skipUnusableHandles handles with
      | .error e => .error e
      | .ok entries => .ok (parsed ++ entries)

/-- `BuildCatalog`. -/
def buildCatalog (format : DefinitionFormat) (handles : List String) (skipUnusableHandles : Bool) :
    Except Error DefinitionCatalog :=
  match files.indexEntries format skipUnusableHandles handles with
  | .error e => .error e
  | .ok entries => DefinitionCatalog.create entries

/-- The definition that the source of an entry has for an id. -/
def parseEntry (entry : DefinitionIndexEntry) (format : DefinitionFormat) (id : String)
    (contents : Bytes) : Except Error UnresolvedDefinition :=
  match format with
  | .romRaider => parseRomraiderDefinition files.xml contents entry.source id
  | .ecuFlash =>
    match parseEcuflashDefinition files.fineIncrementFrom files.xml contents entry.source with
    | .error e => .error e
    | .ok parsed =>
      if parsed.identity.xmlId ≠ id then
        invalidConfig s!"EcuFlash catalog ID '{id}' from '{entry.source}' loaded definition '{
          parsed.identity.xmlId}'"
      else .ok parsed

/-- The loader of `DefinitionService::Load`; its state is the last error of the repository. -/
def loader (catalog : DefinitionCatalog) : DefinitionLoader (Option Error) :=
  fun format id repositoryError =>
    match catalog.find format id with
    | none => (invalidConfig s!"definition ID not found: '{id}'", repositoryError)
    | some entry =>
      match files.read entry.source with
      | .error e => (.error e, some e)
      | .ok contents => (files.parseEntry entry format id contents, repositoryError)

/-- `DefinitionService::Load`. -/
def loadDefinition (catalog : DefinitionCatalog) (format : DefinitionFormat) (id : String) :
    Except Error RomDefinition :=
  match files.loader catalog format id none with
  | (.error e, _) => .error e
  | (.ok root, repositoryError) =>
    match resolveDefinition (files.loader catalog) root repositoryError with
    | (.ok definition, _) => .ok definition
    | (.error e, state) => .error (state.loaderState.getD e)

end DefinitionFiles

/-! ### The flash method of an entry -/

/-- `EffectiveFlashMethod`, by a recursion that the length of the chain bounds. -/
def effectiveFlashMethodIn (catalog : DefinitionCatalog) :
    ℕ → DefinitionIndexEntry → List String → String
  | 0, _, _ => ""
  | fuel + 1, entry, chain =>
    if entry.flashMethod ≠ "" then entry.flashMethod
    else if kMaxInheritanceDepth ≤ chain.length ∨ entry.definitionId ∈ chain then ""
    else
      entry.parents.foldl (fun (inherited parentId : String) =>
        match catalog.find entry.format parentId with
        | none => inherited
        | some parent =>
          let method := effectiveFlashMethodIn catalog fuel parent (chain ++ [entry.definitionId])
          if method ≠ "" then method else inherited) ""

/-- `EffectiveFlashMethod`. -/
def effectiveFlashMethod (catalog : DefinitionCatalog) (entry : DefinitionIndexEntry)
    (chain : List String) : String :=
  effectiveFlashMethodIn catalog (kMaxInheritanceDepth + 1 - chain.length) entry chain

end FastEcu.Definition
