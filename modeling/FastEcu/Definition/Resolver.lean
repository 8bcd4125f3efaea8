import FastEcu.Definition.Overlay

/-!
# Resolving a definition

`ResolveDefinition` (`src/backend/definition/definition_resolver.cpp`): the parents of a definition
are loaded, resolved and overlaid from left to right, then the definition itself; the result gets its
defaults and is checked map by map.

* `ResolverState.resolve` : one definition of the inheritance graph, with the ids that are being
  resolved, their order and the definitions that have been resolved.
* `resolveDefinition` : the whole.
-/

namespace FastEcu.Definition

open Memory
open Calibration (Error ErrorKind StorageType invalidConfig)

/-! ### Defaults -/

/-- `ResolveAxis`. -/
def resolveAxis (value : UnresolvedAxisDefinition) (defaultSize : UInt32) : AxisDefinition :=
  if value = {} then {}
  else
    { type := value.type
      name := value.name
      units := value.units
      format := value.format
      storageType := value.storageType
      endian := value.endian
      address := value.address
      size := value.size.getD defaultSize
      fromByte := value.fromByte.getD "x"
      toByte := value.toByte.getD "x"
      scalingName := value.scalingName
      startPosition := value.startPosition.getD 1
      interval := value.interval.getD 1
      logParameter := value.logParameter.getD ""
      staticData := value.staticData.getD [] }

/-- `ResolveMap`. -/
def resolveMap (value : UnresolvedCalibrationMap) : CalibrationMap where
  id := value.id.getD value.name
  name := value.name
  type := value.type
  category := value.category
  subcategory := value.subcategory
  description := value.description
  address := value.address
  xSize := value.xSize.getD 1
  ySize := value.ySize.getD 1
  swapXY := value.swapXY.getD false
  flipX := value.flipX.getD false
  flipY := value.flipY.getD false
  level := value.level
  userLevel := value.userLevel
  scalingName := value.scalingName
  storageType := value.storageType
  endian := value.endian
  startPosition := value.startPosition.getD 1
  interval := value.interval.getD 1
  logParameter := value.logParameter.getD ""
  xAxis := resolveAxis value.xAxis (value.xSize.getD 1)
  yAxis := resolveAxis value.yAxis (value.ySize.getD 1)

/-! ### Scalings -/

/-- The value of a hexadecimal digit. -/
def hexDigit (c : Char) : Option ℕ :=
  if '0' ≤ c ∧ c ≤ '9' then some (c.toNat - '0'.toNat)
  else if 'a' ≤ c ∧ c ≤ 'f' then some (c.toNat - 'a'.toNat + 10)
  else if 'A' ≤ c ∧ c ≤ 'F' then some (c.toNat - 'A'.toNat + 10)
  else none

/-- `ParseHexBytes`: pairs of digits and nothing else. -/
def parseHexBytes : List Char → Option Bytes
  | [] => some []
  | [_] => none
  | high :: low :: rest => do
    let high ← hexDigit high
    let low ← hexDigit low
    let rest ← parseHexBytes rest
    return UInt8.ofNat (16 * high + low) :: rest

/-- The loop of `ValidateScaling` over the selections, with the names before. -/
def validateSelections (scaling : Scaling) (width : ℕ) :
    List String → List Selection → Except Error Unit
  | _, [] => .ok ()
  | names, selection :: rest =>
    if selection.name = "" ∨ selection.value = [] then
      invalidConfig s!"scaling '{scaling.name}' has an incomplete selection"
    else if selection.value.length ≠ width then
      invalidConfig s!"scaling '{scaling.name}' has selection '{
        selection.name}' whose width differs from the first selection's"
    else if selection.name ∈ names then
      invalidConfig s!"scaling '{scaling.name}' has duplicate selection '{selection.name}'"
    else validateSelections scaling width (names ++ [selection.name]) rest

/-- `ValidateScaling`. -/
def validateScaling (scaling : Scaling) : Except Error Unit :=
  match scaling.selections with
  | [] =>
    if scaling.storageType = some .bloblist then
      invalidConfig s!"scaling '{scaling.name}' uses bloblist storage without selections"
    else .ok ()
  | first :: rest =>
    if scaling.storageType ≠ some .bloblist then
      invalidConfig s!"scaling '{scaling.name}' has selections but storage type is not bloblist"
    else validateSelections scaling first.value.length [] (first :: rest)

/-- The loop of `ResolveScaling` over the selections. -/
def resolveSelections (name : String) : List (String × String) → Except Error (List Selection)
  | [] => .ok []
  | (selection, hex) :: rest =>
    match parseHexBytes hex.toList with
    | none =>
      invalidConfig s!"scaling '{name}' has selection '{
        selection}' whose value is not whole hexadecimal bytes"
    | some value =>
      match resolveSelections name rest with
      | .error e => .error e
      | .ok selections => .ok (⟨selection, value⟩ :: selections)

/-- `ResolveScaling`. -/
def resolveScaling (value : UnresolvedScaling) : Except Error Scaling :=
  match resolveSelections value.name value.selections with
  | .error e => .error e
  | .ok selections =>
    let result : Scaling :=
      { name := value.name
        units := value.units
        fromByte := value.fromByte.getD "x"
        toByte := value.toByte.getD "x"
        format := value.format.getD ""
        minimum := value.minimum
        maximum := value.maximum
        coarseIncrement := value.coarseIncrement
        fineIncrement := value.fineIncrement
        storageType := value.storageType
        endian := value.endian
        selections }
    match validateScaling result with
    | .error e => .error e
    | .ok () => .ok result

/-- The loop of `Materialize` over the scalings. -/
def resolveScalings : List UnresolvedScaling → Except Error (List Scaling)
  | [] => .ok []
  | scaling :: rest =>
    match resolveScaling scaling with
    | .error e => .error e
    | .ok resolved =>
      match resolveScalings rest with
      | .error e => .error e
      | .ok scalings => .ok (resolved :: scalings)

/-- `Materialize`. -/
def materialize (value : UnresolvedDefinition) : Except Error RomDefinition :=
  match resolveScalings value.scalings with
  | .error e => .error e
  | .ok scalings =>
    .ok
      { format := value.format
        source := value.source
        identity := value.identity
        metadata := value.metadata
        parents := value.parents
        maps := value.maps.map resolveMap
        scalings }

/-! ### The check of the maps -/

/-- `FindScaling` of the resolver: the first scaling of the name. -/
def findScaling (scalings : List UnresolvedScaling) (name subject : String) :
    Except Error UnresolvedScaling :=
  match scalings.find? (·.name == name) with
  | none => invalidConfig s!"unresolved scaling '{name}' for {subject}"
  | some scaling => .ok scaling

/-- `CheckScalingAgrees`. -/
def checkScalingAgrees (storageType : Option StorageType) (endian : String)
    (scaling : UnresolvedScaling) (subject : String) : Except Error Unit :=
  if storageType.isSome ∧ scaling.storageType.isSome ∧ storageType ≠ scaling.storageType then
    invalidConfig s!"contradictory storage type for {subject} and scaling '{scaling.name}'"
  else if endian ≠ "" ∧ scaling.endian ≠ "" ∧ endian ≠ scaling.endian then
    invalidConfig s!"contradictory endian for {subject} and scaling '{scaling.name}'"
  else .ok ()

/-- `OverlayAxisScaling`. -/
def overlayAxisScaling (axis : AxisDefinition) (scaling : UnresolvedScaling) : AxisDefinition :=
  { axis with
    units := overlayString axis.units scaling.units
    format :=
      if scaling.format.isSome ∨ axis.format = "" then scaling.format.getD "" else axis.format
    storageType := overlayOptional axis.storageType scaling.storageType
    endian := overlayString axis.endian scaling.endian
    fromByte :=
      if scaling.fromByte.isSome ∨ axis.fromByte = "x" then scaling.fromByte.getD "x"
      else axis.fromByte
    toByte :=
      if scaling.toByte.isSome ∨ axis.toByte = "x" then scaling.toByte.getD "x" else axis.toByte }

/-- `ApplyAxisScaling`. -/
def applyAxisScaling (axis : AxisDefinition) (context : String)
    (scalings : List UnresolvedScaling) : Except Error AxisDefinition :=
  if axis.scalingName = "" then .ok axis
  else
    match findScaling scalings axis.scalingName context with
    | .error e => .error e
    | .ok scaling =>
      if scaling.selections ≠ [] then
        invalidConfig s!"{context} cannot use selectable scaling '{axis.scalingName}'"
      else
        match checkScalingAgrees axis.storageType axis.endian scaling context with
        | .error e => .error e
        | .ok () => .ok (overlayAxisScaling axis scaling)

/-- The axis is the one the resolver takes for a static axis. -/
def AxisDefinition.IsStatic (axis : AxisDefinition) : Prop := axis.type = "Static X Axis"

instance (axis : AxisDefinition) : Decidable axis.IsStatic := inferInstanceAs (Decidable (_ = _))

/-- `ValidateAxis`: the axis with what its scaling says. -/
def validateAxis (axis : AxisDefinition) (context : String) (requiredSize : UInt32)
    (supportsStaticData : Bool) (scalings : List UnresolvedScaling) :
    Except Error AxisDefinition :=
  if axis = {} then .ok axis
  else if axis.type = "" ∨ (axis.name = "" ∧ axis.staticData = []) then
    invalidConfig s!"incomplete {context}"
  else if axis.size = 0 then invalidConfig s!"zero dimension for {context}"
  else if axis.startPosition = 0 then invalidConfig s!"zero start position for {context}"
  else if axis.size ≠ requiredSize then invalidConfig s!"inconsistent dimension for {context}"
  else if axis.IsStatic ∧ ¬ supportsStaticData then
    invalidConfig s!"static data is not supported for {context}"
  else if axis.IsStatic then
    if axis.staticData.length ≠ axis.size.toNat ∨ "" ∈ axis.staticData then
      invalidConfig s!"static data count for {context} does not match its size"
    else applyAxisScaling axis context scalings
  else if axis.staticData ≠ [] then invalidConfig s!"static data on non-static {context}"
  else applyAxisScaling axis context scalings

/-- `ApplyMapScaling`: the map with what its scaling says, and whether that offers selections. -/
def applyMapScaling (map : CalibrationMap) (subject : String)
    (scalings : List UnresolvedScaling) : Except Error (CalibrationMap × Bool) :=
  if map.scalingName = "" then .ok (map, false)
  else
    match findScaling scalings map.scalingName subject with
    | .error e => .error e
    | .ok scaling =>
      match checkScalingAgrees map.storageType map.endian scaling subject with
      | .error e => .error e
      | .ok () =>
        let map :=
          { map with
            storageType := overlayOptional map.storageType scaling.storageType
            endian := overlayString map.endian scaling.endian }
        if scaling.selections = [] then .ok (map, false)
        else .ok ({ map with type := "Selectable" }, true)

/-- `ValidateMap`: the map with what its scalings say. -/
def validateMap (map : CalibrationMap) (key : String) (scalings : List UnresolvedScaling) :
    Except Error CalibrationMap :=
  if map.xSize = 0 ∨ map.ySize = 0 then
    invalidConfig s!"zero required dimension for map '{key}'"
  else if map.startPosition = 0 then invalidConfig s!"zero start position for map '{key}'"
  else
    match applyMapScaling map s!"map '{key}'" scalings with
    | .error e => .error e
    | .ok (map, selectionScaling) =>
      if map.type = "Selectable" ∧ (map.storageType ≠ some .bloblist ∨ ¬ selectionScaling) then
        invalidConfig s!"selectable map '{key}' requires a bloblist selection scaling"
      else if map.storageType = some .bloblist ∧ map.type ≠ "Selectable" then
        invalidConfig s!"bloblist map '{key}' must be selectable"
      else
        match validateAxis map.xAxis s!"x axis for map '{key}'" map.xSize true scalings with
        | .error e => .error e
        | .ok xAxis =>
          match validateAxis map.yAxis s!"y axis for map '{key}'" map.ySize false scalings with
          | .error e => .error e
          | .ok yAxis => .ok { map with xAxis, yAxis }

/-- `MapKey` of a resolved map. -/
def CalibrationMap.key (map : CalibrationMap) : String :=
  if map.id ≠ "" then map.id else map.name

/-- `MapsMatch` of resolved maps. -/
def CalibrationMap.matches (left right : CalibrationMap) : Bool :=
  if left.id ≠ "" ∧ right.id ≠ "" then left.id == right.id else left.name == right.name

/-- The loop of `ValidateAndResolveMaps`, with the maps before. -/
def validateMaps (scalings : List UnresolvedScaling) :
    List CalibrationMap → List CalibrationMap → Except Error (List CalibrationMap)
  | maps, [] => .ok maps
  | maps, map :: rest =>
    if map.key = "" ∨ map.name = "" then invalidConfig "incomplete map identity"
    else if maps.any (·.matches map) then invalidConfig s!"duplicate map key '{map.key}'"
    else
      match validateMap map map.key scalings with
      | .error e => .error e
      | .ok map => validateMaps scalings (maps ++ [map]) rest

/-- `ValidateAndResolveMaps`. -/
def validateAndResolveMaps (definition : RomDefinition) (unresolved : UnresolvedDefinition) :
    Except Error RomDefinition :=
  match validateMaps unresolved.scalings [] definition.maps with
  | .error e => .error e
  | .ok maps => .ok { definition with maps }

/-! ### The inheritance graph -/

/-- `kMaxInheritanceDepth`. -/
def kMaxInheritanceDepth : ℕ := 256

/-- `ChainText`. -/
def chainText (stack : List String) (tail : String := "") : String :=
  let join (result id : String) : String := (if result ≠ "" then result ++ " -> " else result) ++ id
  let result := stack.foldl join ""
  if tail ≠ "" then join result tail else result

/-- `ResolverState::Resolved`. -/
structure Resolved where
  definition : UnresolvedDefinition := {}
  sources : List String := []
  ids : List String := []
deriving DecidableEq

/-- An error of an overlay or a check, with the chain it happened in. -/
def inChain (stack : List String) (e : Error) : Error :=
  ⟨e.kind, s!"{e.detail} in inheritance chain {chainText stack}"⟩

/-- One parent laid over the ones before. -/
def overlayParent (stack : List String) (resolved : Option Resolved) (parent : Resolved) :
    Except Error Resolved :=
  match resolved with
  | none =>
    .ok
      { definition := parent.definition
        sources := appendUnique parent.sources parent.sources
        ids := appendUnique parent.ids parent.ids }
  | some resolved =>
    match overlayDefinition resolved.definition parent.definition with
    | .error e => .error (inChain stack e)
    | .ok definition =>
      .ok
        { definition
          sources := appendUnique resolved.sources parent.sources
          ids := appendUnique resolved.ids parent.ids }

/-- The definition itself laid over its parents. -/
def overlayChild (stack : List String) (resolved : Resolved)
    (definition : UnresolvedDefinition) : Except Error Resolved :=
  match overlayDefinition resolved.definition definition with
  | .error e => .error (inChain stack e)
  | .ok definition =>
    .ok
      { definition
        sources := appendUnique resolved.sources [definition.source]
        ids := appendUnique resolved.ids [definition.identity.xmlId] }

/-- `DefinitionLoader`: it may have a state of its own. -/
abbrev DefinitionLoader (σ : Type) :=
  DefinitionFormat → String → σ → Except Error UnresolvedDefinition × σ

/-- What happens while a definition is resolved. -/
inductive ResolverEvent
  /-- The loader is asked for an id. -/
  | load (id : String) (loaded : Except Error UnresolvedDefinition)
  /-- A definition is entered; the stack after that. -/
  | enter (stack : List String)

/-- `ResolverState`, with the state of the loader and what has happened so far; the source keeps no
such list. -/
structure ResolverState (σ : Type) where
  visiting : List String := []
  stack : List String := []
  resolvedById : List (String × Resolved) := []
  loaderState : σ
  events : List ResolverEvent := []

namespace ResolverState

variable {σ : Type}

/-- `resolved_by_id_.find`. -/
def find (state : ResolverState σ) (id : String) : Option Resolved :=
  (state.resolvedById.find? (·.1 == id)).map (·.2)

/-- `resolved_by_id_.try_emplace`, and what is stored then. -/
def tryEmplace (state : ResolverState σ) (id : String) (resolved : Resolved) :
    Resolved × ResolverState σ :=
  match state.find id with
  | some stored => (stored, state)
  | none => (resolved, { state with resolvedById := state.resolvedById ++ [(id, resolved)] })

/-- An id is entered. -/
def enter (state : ResolverState σ) (id : String) : ResolverState σ :=
  { state with
    visiting := id :: state.visiting
    stack := state.stack ++ [id]
    events := state.events ++ [.enter (state.stack ++ [id])] }

/-- `ChainGuard::~ChainGuard`. -/
def leave (state : ResolverState σ) (id : String) : ResolverState σ :=
  { state with
    visiting := state.visiting.erase id
    stack := state.stack.dropLast }

/-- What `Resolve` is called with, and what it returns. -/
abbrev Call (σ : Type) :=
  UnresolvedDefinition → ResolverState σ → Except Error Resolved × ResolverState σ

/-- The call of the loader. -/
def load (loader : DefinitionLoader σ) (format : DefinitionFormat) (id : String)
    (state : ResolverState σ) : Except Error UnresolvedDefinition × ResolverState σ :=
  let (loaded, loaderState) := loader format id state.loaderState
  (loaded, { state with loaderState, events := state.events ++ [.load id loaded] })

/-- `ResolverState::ResolveParent`. -/
def resolveParent (loader : DefinitionLoader σ) (format : DefinitionFormat) (resolve : Call σ)
    (parentId : String) (state : ResolverState σ) : Except Error Resolved × ResolverState σ :=
  if parentId ∈ state.visiting then
    (invalidConfig s!"inheritance cycle: {chainText state.stack parentId}", state)
  else
    match state.find parentId with
    | some parent => (.ok parent, state)
    | none =>
      match state.load loader format parentId with
      | (.error e, state) =>
        (.error ⟨e.kind, s!"failed to load parent '{parentId}' in inheritance chain {
          chainText state.stack parentId}: {e.detail}"⟩, state)
      | (.ok loaded, state) =>
        if loaded.format ≠ format then
          (invalidConfig s!"cross-format parent '{parentId}' in inheritance chain {
            chainText state.stack parentId}", state)
        else if loaded.identity.xmlId ≠ parentId then
          (invalidConfig s!"parent reference '{parentId}' loaded definition '{
            loaded.identity.xmlId}' in inheritance chain {chainText state.stack parentId}", state)
        else
          match resolve loaded state with
          | (.error e, state) => (.error e, state)
          | (.ok resolved, state) => (.ok ((state.find parentId).getD resolved), state)

/-- The loop of `ResolverState::Resolve` over the parents. -/
def resolveParents (loader : DefinitionLoader σ) (format : DefinitionFormat) (resolve : Call σ) :
    List String → Option Resolved → ResolverState σ →
      Except Error (Option Resolved) × ResolverState σ
  | [], resolved, state => (.ok resolved, state)
  | parentId :: rest, resolved, state =>
    match resolveParent loader format resolve parentId state with
    | (.error e, state) => (.error e, state)
    | (.ok parent, state) =>
      match overlayParent state.stack resolved parent with
      | .error e => (.error e, state)
      | .ok resolved => resolveParents loader format resolve rest (some resolved) state

/-- `ResolverState::Resolve` under the guard. -/
def resolveEntered (loader : DefinitionLoader σ) (format : DefinitionFormat) (resolve : Call σ)
    (definition : UnresolvedDefinition) (state : ResolverState σ) :
    Except Error Resolved × ResolverState σ :=
  match validateLocal definition with
  | .error e => (.error (inChain state.stack e), state)
  | .ok () =>
    match resolveParents loader format resolve definition.parents none state with
    | (.error e, state) => (.error e, state)
    | (.ok resolved, state) =>
      match overlayChild state.stack (resolved.getD {}) definition with
      | .error e => (.error e, state)
      | .ok resolved =>
        let (stored, state) := state.tryEmplace definition.identity.xmlId resolved
        (.ok stored, state)

/-- `ResolverState::Resolve`, with the call that resolves a parent. -/
def resolveBody (loader : DefinitionLoader σ) (format : DefinitionFormat) (resolve : Call σ)
    (definition : UnresolvedDefinition) (state : ResolverState σ) :
    Except Error Resolved × ResolverState σ :=
  let id := definition.identity.xmlId
  if id = "" then
    (invalidConfig s!"{formatName definition.format} definition from '{
      definition.source}' has an empty definition identity", state)
  else if id ∈ state.visiting then
    (invalidConfig s!"inheritance cycle: {chainText state.stack id}", state)
  else
    match state.find id with
    | some memoized => (.ok memoized, state)
    | none =>
      if kMaxInheritanceDepth ≤ state.stack.length then
        (invalidConfig s!"inheritance chain exceeds maximum depth ({kMaxInheritanceDepth}): {
          chainText state.stack id}", state)
      else
        let (result, state) := resolveEntered loader format resolve definition (state.enter id)
        (result, state.leave id)

/-- `ResolverState::Resolve`.  The source recurses freely; `fuel` bounds the recursion here, and
`resolve_eq_resolveBody` says that it is never used up when it exceeds the depth that is left. -/
def resolve (loader : DefinitionLoader σ) (format : DefinitionFormat) : ℕ → Call σ
  | 0 => fun _ state => (invalidConfig "", state)
  | fuel + 1 => resolveBody loader format (resolve loader format fuel)

end ResolverState

/-- What `ResolverState::ResolveRoot` adds to an error. -/
def rootError (root : UnresolvedDefinition) (e : Error) : Error :=
  ⟨e.kind, s!"{formatName root.format} definitions '{root.identity.xmlId}' from '{
    root.source}': {e.detail}"⟩

/-- What `ResolverState::ResolveRoot` makes of the resolved root. -/
def finishRoot (root : UnresolvedDefinition) (resolved : Resolved) : Except Error RomDefinition :=
  match materialize resolved.definition with
  | .error e => .error (rootError root e)
  | .ok materialized =>
    let result :=
      { materialized with
        resolvedSources := resolved.sources
        resolvedDefinitionIds := resolved.ids }
    match validateAndResolveMaps result resolved.definition with
    | .error e => .error (rootError root e)
    | .ok result => .ok result

/-- `ResolverState::ResolveRoot`. -/
def resolveRoot {σ : Type} (loader : DefinitionLoader σ) (format : DefinitionFormat) (fuel : ℕ)
    (root : UnresolvedDefinition) (state : ResolverState σ) :
    Except Error RomDefinition × ResolverState σ :=
  match ResolverState.resolve loader format fuel root state with
  | (.error e, state) => (.error (rootError root e), state)
  | (.ok resolved, state) => (finishRoot root resolved, state)

/-- `ResolveDefinition`. -/
def resolveDefinition {σ : Type} (loader : DefinitionLoader σ) (root : UnresolvedDefinition)
    (loaderState : σ) : Except Error RomDefinition × ResolverState σ :=
  resolveRoot loader root.format (kMaxInheritanceDepth + 1) root { loaderState }

end FastEcu.Definition
