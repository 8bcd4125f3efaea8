import FastEcu.Definition.Model
import Mathlib.Data.List.Sort

/-!
# Overlaying definitions

How a definition is laid over its parents (`src/backend/definition/definition_resolver.cpp`): what it
supplies replaces what they say, field by field, a map is matched by its id or its name, and two
scalings of one name have to be the same.

* `overlayDefinition` : one definition over another.
* `validateLocal` : what is checked of each definition before it is used.
-/

namespace FastEcu.Definition

open Memory
open Calibration (Error ErrorKind StorageType invalidConfig)

/-- `FormatName`. -/
def formatName : DefinitionFormat → String
  | .romRaider => "RomRaider"
  | .ecuFlash => "EcuFlash"

/-! ### The identity of maps -/

/-- `StableMapId`: the id of the map, if there is one. -/
def stableMapId (map : UnresolvedCalibrationMap) : Option String := map.id.filter (· ≠ "")

/-- `MapKey`. -/
def mapKey (map : UnresolvedCalibrationMap) : String := (stableMapId map).getD map.name

/-- `MapsMatch`. -/
def mapsMatch (left right : UnresolvedCalibrationMap) : Bool :=
  if (stableMapId left).isSome ∧ (stableMapId right).isSome then left.id == right.id
  else left.name == right.name

/-! ### Overlays of fields -/

/-- `OverlayString`. -/
def overlayString (value supplied : String) : String := if supplied ≠ "" then supplied else value

/-- `OverlayOptional`. -/
def overlayOptional {β : Type} (value supplied : Option β) : Option β := supplied <|> value

/-- `OverlayIdentity`. -/
def overlayIdentity (value supplied : RomIdentity) : RomIdentity where
  xmlId := supplied.xmlId
  internalId := overlayString value.internalId supplied.internalId
  ecuId := overlayString value.ecuId supplied.ecuId
  internalIdAddress := overlayOptional value.internalIdAddress supplied.internalIdAddress

/-- `OverlayMetadata`. -/
def overlayMetadata (value supplied : RomMetadata) : RomMetadata where
  make := overlayString value.make supplied.make
  market := overlayString value.market supplied.market
  model := overlayString value.model supplied.model
  submodel := overlayString value.submodel supplied.submodel
  transmission := overlayString value.transmission supplied.transmission
  year := overlayString value.year supplied.year
  flashMethod := overlayString value.flashMethod supplied.flashMethod
  memoryModel := overlayString value.memoryModel supplied.memoryModel
  checksumModule := overlayString value.checksumModule supplied.checksumModule
  fileSize := overlayString value.fileSize supplied.fileSize
  notes := overlayString value.notes supplied.notes

/-- `OverlayAxis`. -/
def overlayAxis (value supplied : UnresolvedAxisDefinition) : UnresolvedAxisDefinition :=
  if supplied = {} then value
  else
    { type := overlayString value.type supplied.type
      name := overlayString value.name supplied.name
      units := overlayString value.units supplied.units
      format := overlayString value.format supplied.format
      storageType := overlayOptional value.storageType supplied.storageType
      endian := overlayString value.endian supplied.endian
      address := overlayOptional value.address supplied.address
      size := overlayOptional value.size supplied.size
      fromByte := overlayOptional value.fromByte supplied.fromByte
      toByte := overlayOptional value.toByte supplied.toByte
      scalingName := overlayString value.scalingName supplied.scalingName
      startPosition := overlayOptional value.startPosition supplied.startPosition
      interval := overlayOptional value.interval supplied.interval
      logParameter := overlayOptional value.logParameter supplied.logParameter
      staticData := overlayOptional value.staticData supplied.staticData }

/-- `OverlayMap`. -/
def overlayMap (value supplied : UnresolvedCalibrationMap) : UnresolvedCalibrationMap where
  id := if (stableMapId supplied).isSome then supplied.id else value.id
  name := overlayString value.name supplied.name
  type := overlayString value.type supplied.type
  category := overlayString value.category supplied.category
  subcategory := overlayString value.subcategory supplied.subcategory
  description := overlayString value.description supplied.description
  address := overlayOptional value.address supplied.address
  xSize := overlayOptional value.xSize supplied.xSize
  ySize := overlayOptional value.ySize supplied.ySize
  swapXY := overlayOptional value.swapXY supplied.swapXY
  flipX := overlayOptional value.flipX supplied.flipX
  flipY := overlayOptional value.flipY supplied.flipY
  level := overlayString value.level supplied.level
  userLevel := overlayString value.userLevel supplied.userLevel
  scalingName := overlayString value.scalingName supplied.scalingName
  storageType := overlayOptional value.storageType supplied.storageType
  endian := overlayString value.endian supplied.endian
  startPosition := overlayOptional value.startPosition supplied.startPosition
  interval := overlayOptional value.interval supplied.interval
  logParameter := overlayOptional value.logParameter supplied.logParameter
  xAxis := overlayAxis value.xAxis supplied.xAxis
  yAxis := overlayAxis value.yAxis supplied.yAxis

/-- `AppendUnique`. -/
def appendUnique (destination : List String) : List String → List String
  | [] => destination
  | value :: rest =>
    appendUnique (if value ∈ destination then destination else destination ++ [value]) rest

/-! ### The check of one definition -/

/-- The loop of `ValidateLocal` over the maps, with the ones before. -/
def validateMapKeys (definition : UnresolvedDefinition) :
    List UnresolvedCalibrationMap → List UnresolvedCalibrationMap → Except Error Unit
  | _, [] => .ok ()
  | maps, map :: rest =>
    if mapKey map ≠ "" ∧ maps.any (mapsMatch · map) then
      invalidConfig s!"duplicate map key '{mapKey map}' in definition '{
        definition.identity.xmlId}' from '{definition.source}'"
    else validateMapKeys definition (maps ++ [map]) rest

/-- The loop of `ValidateLocal` over the scalings, with the first of each name before. -/
def validateScalingNames (definition : UnresolvedDefinition) :
    List UnresolvedScaling → List UnresolvedScaling → Except Error Unit
  | _, [] => .ok ()
  | scalings, scaling :: rest =>
    if scaling.name = "" then
      invalidConfig s!"scaling with an empty name in definition '{
        definition.identity.xmlId}' from '{definition.source}'"
    else
      match scalings.find? (·.name == scaling.name) with
      | none => validateScalingNames definition (scalings ++ [scaling]) rest
      | some existing =>
        if existing ≠ scaling then
          invalidConfig s!"conflicting duplicate scaling '{scaling.name}' in definition '{
            definition.identity.xmlId}' from '{definition.source}'"
        else validateScalingNames definition scalings rest

/-- `ValidateLocal`. -/
def validateLocal (definition : UnresolvedDefinition) : Except Error Unit :=
  if definition.identity.xmlId = "" then
    invalidConfig s!"{formatName definition.format} definition from '{
      definition.source}' has an empty definition identity"
  else if definition.source = "" then
    invalidConfig s!"{formatName definition.format} definition '{
      definition.identity.xmlId}' has no source"
  else
    match validateMapKeys definition [] definition.maps with
    | .error e => .error e
    | .ok () => validateScalingNames definition [] definition.scalings

/-! ### One definition over another -/

/-- `MapIndex`: the buckets of ids and of names, each entry with the position of its map. -/
structure MapIndex where
  byId : List (String × ℕ) := []
  byName : List (String × ℕ) := []

namespace MapIndex

/-- `MapIndex::Add`. -/
def add (index : MapIndex) (map : UnresolvedCalibrationMap) (position : ℕ) : MapIndex where
  byId := index.byId ++ ((stableMapId map).map fun id => (id, position)).toList
  byName := index.byName ++ [(map.name, position)]

/-- The positions in a bucket. -/
def bucket (entries : List (String × ℕ)) (key : String) : List ℕ :=
  (entries.filter fun entry => entry.1 == key).map (·.2)

/-- `MapIndex::Candidates`. -/
def candidates (index : MapIndex) (map : UnresolvedCalibrationMap) : List ℕ :=
  let positions := (stableMapId map).elim [] (bucket index.byId) ++ bucket index.byName map.name
  (positions.mergeSort (· ≤ ·)).eraseReps

end MapIndex

/-- The loop of `OverlayDefinition` over the candidates: the one that matches, if no other does. -/
def findMatch (maps : List UnresolvedCalibrationMap) (map : UnresolvedCalibrationMap) :
    Option ℕ → List ℕ → Except Unit (Option ℕ)
  | existing, [] => .ok existing
  | existing, candidate :: rest =>
    if maps[candidate]?.any (mapsMatch · map) then
      match existing with
      | some _ => .error ()
      | none => findMatch maps map (some candidate) rest
    else findMatch maps map existing rest

/-- The loop of `OverlayDefinition` over the maps. -/
def overlayMaps (supplied : UnresolvedDefinition) :
    List UnresolvedCalibrationMap → MapIndex → List UnresolvedCalibrationMap →
      Except Error (List UnresolvedCalibrationMap)
  | maps, _, [] => .ok maps
  | maps, index, map :: rest =>
    match findMatch maps map none (index.candidates map) with
    | .error () =>
      invalidConfig s!"ambiguous map name fallback '{map.name}' while resolving definition '{
        supplied.identity.xmlId}' from '{supplied.source}'"
    | .ok none => overlayMaps supplied (maps ++ [map]) (index.add map maps.length) rest
    | .ok (some existing) =>
      let maps' := maps.modify existing (overlayMap · map)
      overlayMaps supplied maps'
        ((maps'[existing]?.map fun merged => index.add merged existing).getD index) rest

/-- The loop of `OverlayDefinition` over the scalings. -/
def overlayScalings (supplied : UnresolvedDefinition) :
    List UnresolvedScaling → List UnresolvedScaling → Except Error (List UnresolvedScaling)
  | scalings, [] => .ok scalings
  | scalings, scaling :: rest =>
    match scalings.find? (·.name == scaling.name) with
    | none => overlayScalings supplied (scalings ++ [scaling]) rest
    | some existing =>
      if existing ≠ scaling then
        invalidConfig s!"conflicting duplicate scaling '{scaling.name}' while resolving definition '{
          supplied.identity.xmlId}' from '{supplied.source}'"
      else overlayScalings supplied scalings rest

/-- `OverlayDefinition`. -/
def overlayDefinition (value supplied : UnresolvedDefinition) :
    Except Error UnresolvedDefinition :=
  let index := value.maps.zipIdx.foldl (fun index (map, i) => index.add map i) {}
  match overlayMaps supplied value.maps index supplied.maps with
  | .error e => .error e
  | .ok maps =>
    match overlayScalings supplied value.scalings supplied.scalings with
    | .error e => .error e
    | .ok scalings =>
      .ok
        { format := supplied.format
          source := supplied.source
          identity := overlayIdentity value.identity supplied.identity
          metadata := overlayMetadata value.metadata supplied.metadata
          parents := supplied.parents
          maps
          scalings }

/-! ### What an overlay keeps -/

theorem overlayDefinition_eq_ok {value supplied result : UnresolvedDefinition}
    (h : overlayDefinition value supplied = .ok result) :
    ∃ maps scalings, overlayScalings supplied value.scalings supplied.scalings = .ok scalings ∧
      result =
        { format := supplied.format
          source := supplied.source
          identity := overlayIdentity value.identity supplied.identity
          metadata := overlayMetadata value.metadata supplied.metadata
          parents := supplied.parents
          maps
          scalings } := by
  simp only [overlayDefinition] at h
  split at h
  · cases h
  · rename_i maps hmaps
    split at h
    · cases h
    · rename_i scalings hscalings
      cases h
      exact ⟨maps, scalings, hscalings, rfl⟩

/-- The definition is known by the id of what is laid over it. -/
theorem overlayDefinition_xmlId {value supplied result : UnresolvedDefinition}
    (h : overlayDefinition value supplied = .ok result) :
    result.identity.xmlId = supplied.identity.xmlId := by
  obtain ⟨maps, scalings, -, rfl⟩ := overlayDefinition_eq_ok h
  rfl

theorem overlayDefinition_flashMethod {value supplied result : UnresolvedDefinition}
    (h : overlayDefinition value supplied = .ok result) :
    result.metadata.flashMethod =
      overlayString value.metadata.flashMethod supplied.metadata.flashMethod := by
  obtain ⟨maps, scalings, -, rfl⟩ := overlayDefinition_eq_ok h
  rfl

end FastEcu.Definition
