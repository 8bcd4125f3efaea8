import FastEcu.Calibration.Definition

/-!
# The definition model

What a definition file says about a ROM, before and after its parents have been overlaid
(`src/backend/definition/definition_model.h`).  A field of an unresolved record that may be missing
is an option or an empty text; a resolved record has a value for each.
-/

namespace FastEcu.Definition

open Memory
open Calibration (StorageType)

/-- `DefinitionFormat`. -/
inductive DefinitionFormat
  | romRaider
  | ecuFlash
deriving DecidableEq, Repr

/-! ### What a file says -/

/-- `UnresolvedScaling`. -/
structure UnresolvedScaling where
  name : String := ""
  units : String := ""
  fromByte : Option String := none
  toByte : Option String := none
  format : Option String := none
  minimum : String := ""
  maximum : String := ""
  coarseIncrement : String := ""
  fineIncrement : String := ""
  storageType : Option StorageType := none
  endian : String := ""
  selections : List (String × String) := []
deriving DecidableEq

/-- `UnresolvedAxisDefinition`. -/
structure UnresolvedAxisDefinition where
  type : String := ""
  name : String := ""
  units : String := ""
  format : String := ""
  storageType : Option StorageType := none
  endian : String := ""
  address : Option DefinitionAddress := none
  size : Option UInt32 := none
  fromByte : Option String := none
  toByte : Option String := none
  scalingName : String := ""
  startPosition : Option UInt32 := none
  interval : Option UInt32 := none
  logParameter : Option String := none
  staticData : Option (List String) := none
deriving DecidableEq

/-- `UnresolvedCalibrationMap`. -/
structure UnresolvedCalibrationMap where
  id : Option String := none
  name : String := ""
  type : String := ""
  category : String := ""
  subcategory : String := ""
  description : String := ""
  address : Option DefinitionAddress := none
  xSize : Option UInt32 := none
  ySize : Option UInt32 := none
  swapXY : Option Bool := none
  flipX : Option Bool := none
  flipY : Option Bool := none
  level : String := ""
  userLevel : String := ""
  scalingName : String := ""
  storageType : Option StorageType := none
  endian : String := ""
  startPosition : Option UInt32 := none
  interval : Option UInt32 := none
  logParameter : Option String := none
  xAxis : UnresolvedAxisDefinition := {}
  yAxis : UnresolvedAxisDefinition := {}
deriving DecidableEq

/-- `RomIdentity`. -/
structure RomIdentity where
  xmlId : String := ""
  internalId : String := ""
  ecuId : String := ""
  internalIdAddress : Option DefinitionAddress := none
deriving DecidableEq

/-- `RomMetadata`. -/
structure RomMetadata where
  make : String := ""
  market : String := ""
  model : String := ""
  submodel : String := ""
  transmission : String := ""
  year : String := ""
  flashMethod : String := ""
  memoryModel : String := ""
  checksumModule : String := ""
  fileSize : String := ""
  notes : String := ""
deriving DecidableEq

/-- `UnresolvedDefinition`. -/
structure UnresolvedDefinition where
  format : DefinitionFormat := .romRaider
  source : String := ""
  identity : RomIdentity := {}
  metadata : RomMetadata := {}
  parents : List String := []
  maps : List UnresolvedCalibrationMap := []
  scalings : List UnresolvedScaling := []
deriving DecidableEq

/-! ### What it comes to -/

/-- `Selection`: one named blob of a selectable map. -/
structure Selection where
  name : String
  value : Bytes
deriving DecidableEq

/-- `Scaling`. -/
structure Scaling where
  name : String := ""
  units : String := ""
  fromByte : String := "x"
  toByte : String := "x"
  format : String := ""
  minimum : String := ""
  maximum : String := ""
  coarseIncrement : String := ""
  fineIncrement : String := ""
  storageType : Option StorageType := none
  endian : String := ""
  selections : List Selection := []
deriving DecidableEq

/-- `AxisDefinition`. -/
structure AxisDefinition where
  type : String := ""
  name : String := ""
  units : String := ""
  format : String := ""
  storageType : Option StorageType := none
  endian : String := ""
  address : Option DefinitionAddress := none
  size : UInt32 := 1
  fromByte : String := "x"
  toByte : String := "x"
  scalingName : String := ""
  startPosition : UInt32 := 1
  interval : UInt32 := 1
  logParameter : String := ""
  staticData : List String := []
deriving DecidableEq

/-- `CalibrationMap`. -/
structure CalibrationMap where
  id : String := ""
  name : String := ""
  type : String := ""
  category : String := ""
  subcategory : String := ""
  description : String := ""
  address : Option DefinitionAddress := none
  xSize : UInt32 := 1
  ySize : UInt32 := 1
  swapXY : Bool := false
  flipX : Bool := false
  flipY : Bool := false
  level : String := ""
  userLevel : String := ""
  scalingName : String := ""
  storageType : Option StorageType := none
  endian : String := ""
  startPosition : UInt32 := 1
  interval : UInt32 := 1
  logParameter : String := ""
  xAxis : AxisDefinition := {}
  yAxis : AxisDefinition := {}
deriving DecidableEq

/-- `RomDefinition`. -/
structure RomDefinition where
  format : DefinitionFormat := .romRaider
  source : String := ""
  identity : RomIdentity := {}
  metadata : RomMetadata := {}
  parents : List String := []
  maps : List CalibrationMap := []
  scalings : List Scaling := []
  resolvedSources : List String := []
  resolvedDefinitionIds : List String := []
deriving DecidableEq

end FastEcu.Definition
