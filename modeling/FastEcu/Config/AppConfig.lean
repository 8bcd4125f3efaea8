import FastEcu.Bytes.Words
import FastEcu.Calibration.Definition
import FastEcu.Data.XmlTree

/-!
# The settings file

`src/backend/config/app_config.cpp`: the settings of the user, how they are read from `fastecu.cfg` and how they are
written.  pugixml is a parameter.

* `AppConfig`, `kSettingFields` : the settings, and the table that names most of them.
* `parseDocument`, `configDocument` : the settings in a document, and the document of some settings.
* `parseBytes`, `savedBytes` : the same with the bytes of the file.
* `parse_save` : what is read after settings were saved.
-/

namespace FastEcu.Config

open Calibration (Error invalidConfig)
open Data XmlNode

/-! ### Settings -/

/-- `AppConfig`. -/
structure AppConfig where
  windowWidth : String := ""
  windowHeight : String := ""
  toolbarIconsize : String := ""
  serialPort : String := ""
  selectedVehicleId : String := ""
  selectedFlashTransport : String := ""
  selectedLogTransport : String := ""
  selectedLogProtocol : String := ""
  primaryDefinitionBase : String := ""
  calibrationFiles : List String := []
  calibrationFilesDirectory : String := ""
  useRomraiderDefinitions : String := ""
  romraiderDefinitionFiles : List String := []
  useEcuflashDefinitions : String := ""
  ecuflashDefinitionFilesDirectory : String := ""
  romraiderLoggerDefinitionFile : String := ""
  datalogFilesDirectory : String := ""
deriving DecidableEq

/-- `AppendTrailingSlashIfMissing`. -/
def appendTrailingSlashIfMissing (path : String) : String :=
  match path.toList.getLast? with
  | none => path
  | some c => if c = '/' ∨ c = '\\' then path else path ++ "/"

/-- `IsDefinitionBase`. -/
def isDefinitionBase (value : String) : Bool := value = "romraider" || value = "ecuflash"

/-- `IsNonEmpty`. -/
def isNonEmpty (value : String) : Bool := value ≠ ""

/-- A part of the settings: what is read after it was set is what was set. -/
structure Member (α : Type) : Type where
  get : AppConfig → α
  set : AppConfig → α → AppConfig
  get_set : ∀ config a, get (set config a) = a
  set_set : ∀ config a b, set (set config a) b = set config b
  set_get : ∀ config, set config (get config) = config

/-- `SettingField`, with one value or a list of them. -/
inductive SettingField
  | single (name : String) (member : Member String) (accepts : String → Bool)
  | list (name : String) (member : Member (List String)) (accepts : String → Bool)

namespace SettingField

/-- The name of the setting. -/
def name : SettingField → String
  | single name _ _ => name
  | list name _ _ => name

/-- The values that are saved. -/
def values (config : AppConfig) : SettingField → List String
  | single _ member _ => [member.get config]
  | list _ member _ => member.get config

end SettingField

/-- A setting that accepts every value. -/
def anyValue : String → Bool := fun _ => true

/-- `kSettingFields`. -/
def kSettingFields : List SettingField := [
  .single "toolbar_iconsize"
    ⟨AppConfig.toolbarIconsize, fun c v => { c with toolbarIconsize := v },
      fun _ _ => rfl, fun _ _ _ => rfl, fun _ => rfl⟩ anyValue,
  .single "serial_port"
    ⟨AppConfig.serialPort, fun c v => { c with serialPort := v },
      fun _ _ => rfl, fun _ _ _ => rfl, fun _ => rfl⟩ anyValue,
  .single "vehicle_id"
    ⟨AppConfig.selectedVehicleId, fun c v => { c with selectedVehicleId := v },
      fun _ _ => rfl, fun _ _ _ => rfl, fun _ => rfl⟩ anyValue,
  .single "flash_transport"
    ⟨AppConfig.selectedFlashTransport, fun c v => { c with selectedFlashTransport := v },
      fun _ _ => rfl, fun _ _ _ => rfl, fun _ => rfl⟩ anyValue,
  .single "log_transport"
    ⟨AppConfig.selectedLogTransport, fun c v => { c with selectedLogTransport := v },
      fun _ _ => rfl, fun _ _ _ => rfl, fun _ => rfl⟩ anyValue,
  .single "log_protocol"
    ⟨AppConfig.selectedLogProtocol, fun c v => { c with selectedLogProtocol := v },
      fun _ _ => rfl, fun _ _ _ => rfl, fun _ => rfl⟩ anyValue,
  .single "primary_definition_base"
    ⟨AppConfig.primaryDefinitionBase, fun c v => { c with primaryDefinitionBase := v },
      fun _ _ => rfl, fun _ _ _ => rfl, fun _ => rfl⟩ isDefinitionBase,
  .list "calibration_files"
    ⟨AppConfig.calibrationFiles, fun c v => { c with calibrationFiles := v },
      fun _ _ => rfl, fun _ _ _ => rfl, fun _ => rfl⟩ anyValue,
  .single "calibration_files_directory"
    ⟨AppConfig.calibrationFilesDirectory, fun c v => { c with calibrationFilesDirectory := v },
      fun _ _ => rfl, fun _ _ _ => rfl, fun _ => rfl⟩ anyValue,
  .single "use_romraider_definitions"
    ⟨AppConfig.useRomraiderDefinitions, fun c v => { c with useRomraiderDefinitions := v },
      fun _ _ => rfl, fun _ _ _ => rfl, fun _ => rfl⟩ anyValue,
  .list "romraider_definition_files"
    ⟨AppConfig.romraiderDefinitionFiles, fun c v => { c with romraiderDefinitionFiles := v },
      fun _ _ => rfl, fun _ _ _ => rfl, fun _ => rfl⟩ isNonEmpty,
  .single "use_ecuflash_definitions"
    ⟨AppConfig.useEcuflashDefinitions, fun c v => { c with useEcuflashDefinitions := v },
      fun _ _ => rfl, fun _ _ _ => rfl, fun _ => rfl⟩ anyValue,
  .single "ecuflash_definition_files_directory"
    ⟨AppConfig.ecuflashDefinitionFilesDirectory, fun c v => { c with ecuflashDefinitionFilesDirectory := v },
      fun _ _ => rfl, fun _ _ _ => rfl, fun _ => rfl⟩ anyValue,
  .single "logger_definition_file"
    ⟨AppConfig.romraiderLoggerDefinitionFile, fun c v => { c with romraiderLoggerDefinitionFile := v },
      fun _ _ => rfl, fun _ _ _ => rfl, fun _ => rfl⟩ anyValue,
  .single "datalog_files_directory"
    ⟨AppConfig.datalogFilesDirectory, fun c v => { c with datalogFilesDirectory := v },
      fun _ _ => rfl, fun _ _ _ => rfl, fun _ => rfl⟩ anyValue]

/-! ### Reading -/

/-- The value of an attribute, empty without a node or an attribute. -/
def attributeText (node : Option XmlNode) (name : String) : String :=
  (node.bind fun node => node.attributeValue name).getD ""

/-- The body of the loop of `ParseWindowSize`. -/
def parseWindowValue (config : AppConfig) (value : XmlNode) : AppConfig :=
  if attributeText (some value) "width" ≠ "" then { config with windowWidth := attributeText (some value) "width" }
  else if attributeText (some value) "height" ≠ "" then
    { config with windowHeight := attributeText (some value) "height" }
  else config

/-- `ParseField`. -/
def parseField (setting : XmlNode) (config : AppConfig) : SettingField → AppConfig
  | .single _ member accepts =>
    let value := attributeText (child (some setting) "value") "data"
    if accepts value then member.set config value else config
  | .list _ member accepts =>
    (childrenNamed (some setting) "value").foldl (fun config value =>
      let data := attributeText (some value) "data"
      if accepts data then member.set config (member.get config ++ [data]) else config) config

/-- `ParseSetting`. -/
def parseSetting (config : AppConfig) (setting : XmlNode) : AppConfig :=
  let name := attributeText (some setting) "name"
  if name = "window_size" then (childrenNamed (some setting) "value").foldl parseWindowValue config
  else
    match kSettingFields.find? (·.name = name) with
    | some field => parseField setting config field
    | none => config

/-- The settings in a document: `ParseAppConfig` after the file was loaded. -/
def parseDocument (document : List XmlNode) : AppConfig :=
  let configNode := firstNamed document "config"
  let settings := if attributeText configNode "name" = "FastECU" then child configNode "software_settings" else none
  (childrenNamed settings "setting").foldl parseSetting {}

/-! ### Writing -/

/-- A value of a setting. -/
def valueNode (name value : String) : XmlNode := element "value" [(name, value)] []

/-- `SaveField`. -/
def saveField (config : AppConfig) (field : SettingField) : XmlNode :=
  element "setting" [("name", field.name)] ((field.values config).map (valueNode "data"))

/-- The setting that is saved first. -/
def windowNode (config : AppConfig) : XmlNode :=
  element "setting" [("name", "window_size")]
    [valueNode "width" config.windowWidth, valueNode "height" config.windowHeight]

/-- The document of `SaveAppConfig`. -/
def configDocument (config : AppConfig) : List XmlNode :=
  [element "config" [("name", "FastECU"), ("version", "0.1.0-beta.5")]
    [element "software_settings" [] (windowNode config :: kSettingFields.map (saveField config))]]

/-- The directories as `SaveAppConfig` writes them. -/
def normalize (config : AppConfig) : AppConfig :=
  { config with
    calibrationFilesDirectory := appendTrailingSlashIfMissing config.calibrationFilesDirectory
    ecuflashDefinitionFilesDirectory := appendTrailingSlashIfMissing config.ecuflashDefinitionFilesDirectory
    datalogFilesDirectory := appendTrailingSlashIfMissing config.datalogFilesDirectory }

/-! ### The file -/

/-- pugixml: `load_buffer`, whose failure has a description, and `save` with an indent of four spaces. -/
structure ConfigXml where
  load : Bytes → Except String (List XmlNode)
  save : List XmlNode → Bytes

/-- The settings in the bytes of a file: `ParseAppConfig` after the file was read. -/
def parseBytes (xml : ConfigXml) (bytes : Bytes) : Except Error AppConfig :=
  match xml.load bytes with
  | .error description => invalidConfig ("config parse error: " ++ description)
  | .ok document => .ok (parseDocument document)

/-- The bytes that `SaveAppConfig` writes. -/
def savedBytes (xml : ConfigXml) (config : AppConfig) : Bytes := xml.save (configDocument (normalize config))

/-! ### What is lost -/

/-- The settings without the values that `ParseField` ignores. -/
def accepted (config : AppConfig) : AppConfig :=
  { config with
    primaryDefinitionBase := if isDefinitionBase config.primaryDefinitionBase then config.primaryDefinitionBase else ""
    romraiderDefinitionFiles := config.romraiderDefinitionFiles.filter isNonEmpty }

/-- What a field has after its own setting was read. -/
def readBack (config read : AppConfig) : SettingField → AppConfig
  | .single _ member accepts => if accepts (member.get config) then member.set read (member.get config) else read
  | .list _ member accepts => member.set read (member.get read ++ (member.get config).filter accepts)

/-- The values of a list are appended one by one. -/
theorem foldl_values (member : Member (List String)) (accepts : String → Bool) (values : List String)
    (read : AppConfig) :
    (values.map (valueNode "data")).foldl (fun config value =>
        let data := attributeText (some value) "data"
        if accepts data then member.set config (member.get config ++ [data]) else config) read =
      member.set read (member.get read ++ values.filter accepts) := by
  induction values generalizing read with
  | nil => rw [List.map_nil, List.foldl_nil, List.filter_nil, List.append_nil, member.set_get]
  | cons value values ih =>
    have hdata : attributeText (some (valueNode "data" value)) "data" = value := rfl
    rw [List.map_cons, List.foldl_cons, ih]
    simp only [hdata]
    by_cases h : accepts value
    · rw [if_pos h, member.get_set, member.set_set, List.append_assoc, List.filter_cons_of_pos h]
      rfl
    · rw [if_neg h, List.filter_cons_of_neg h]

/-- A field is read from the setting that was saved for it. -/
theorem parseField_saveField (config read : AppConfig) (field : SettingField) :
    parseField (saveField config field) read field = readBack config read field := by
  cases field with
  | single name member accepts => rfl
  | list name member accepts =>
    have hchildren : childrenNamed (some (saveField config (.list name member accepts))) "value" =
        (member.get config).map (valueNode "data") := by
      refine List.filter_eq_self.2 fun node hnode => ?_
      obtain ⟨value, -, rfl⟩ := List.mem_map.1 hnode
      exact decide_eq_true rfl
    rw [parseField, hchildren, foldl_values]
    rfl

/-- No two fields have one name, and none has the name of the window's size. -/
theorem nodup_names : ("window_size" :: kSettingFields.map SettingField.name).Nodup := by
  simp [kSettingFields, SettingField.name]

theorem find?_name {fields : List SettingField} (h : (fields.map SettingField.name).Nodup) {field : SettingField}
    (hmem : field ∈ fields) : fields.find? (·.name = field.name) = some field := by
  induction fields with
  | nil => simp at hmem
  | cons first fields ih =>
    rw [List.map_cons, List.nodup_cons] at h
    rcases List.mem_cons.1 hmem with rfl | hmem
    · exact List.find?_cons_of_pos (by simp)
    · rw [List.find?_cons_of_neg, ih h.2 hmem]
      have hne : first.name ≠ field.name := fun heq => h.1 (heq ▸ List.mem_map_of_mem hmem)
      simpa using hne

theorem parseSetting_saveField {field : SettingField} (h : field ∈ kSettingFields) (config read : AppConfig) :
    parseSetting read (saveField config field) = readBack config read field := by
  obtain ⟨hwindow, hnodup⟩ := List.nodup_cons.1 nodup_names
  have hname : attributeText (some (saveField config field)) "name" = field.name := rfl
  have hne : field.name ≠ "window_size" := fun heq => hwindow (heq ▸ List.mem_map_of_mem h)
  simp only [parseSetting, hname, if_neg hne, find?_name hnodup h, parseField_saveField]

/-- What is read of the window's size. -/
theorem parseSetting_windowNode (config : AppConfig) :
    parseSetting {} (windowNode config) =
      { windowWidth := config.windowWidth, windowHeight := config.windowHeight } := by
  have hfold : parseSetting {} (windowNode config) =
      parseWindowValue (parseWindowValue {} (valueNode "width" config.windowWidth))
        (valueNode "height" config.windowHeight) := rfl
  have hwidth : parseWindowValue {} (valueNode "width" config.windowWidth) =
      { windowWidth := config.windowWidth } := by
    by_cases h : config.windowWidth = ""
    · simp [parseWindowValue, valueNode, attributeText, attributeValue, attributes, h]
    · simp [parseWindowValue, valueNode, attributeText, attributeValue, attributes, h]
  rw [hfold, hwidth]
  by_cases h : config.windowHeight = ""
  · simp [parseWindowValue, valueNode, attributeText, attributeValue, attributes, h]
  · simp [parseWindowValue, valueNode, attributeText, attributeValue, attributes, h]

/-- The fields are read one after another. -/
theorem foldl_saveField {fields : List SettingField} (h : ∀ field ∈ fields, field ∈ kSettingFields)
    (config read : AppConfig) :
    (fields.map (saveField config)).foldl parseSetting read = fields.foldl (readBack config) read := by
  induction fields generalizing read with
  | nil => rfl
  | cons field fields ih =>
    rw [List.map_cons, List.foldl_cons, List.foldl_cons,
      parseSetting_saveField (h field (List.mem_cons_self ..)),
      ih fun field' hmem => h field' (List.mem_cons_of_mem _ hmem)]

/-- The settings in the document that was saved for them. -/
theorem parseDocument_configDocument (config : AppConfig) :
    parseDocument (configDocument config) = accepted config := by
  have hsettings : parseDocument (configDocument config) =
      (windowNode config :: kSettingFields.map (saveField config)).foldl parseSetting {} := by
    have hall : childrenNamed (child (firstNamed (configDocument config) "config") "software_settings") "setting" =
        windowNode config :: kSettingFields.map (saveField config) := by
      refine List.filter_eq_self.2 fun node hnode => ?_
      rcases List.mem_cons.1 hnode with rfl | hnode
      · exact decide_eq_true rfl
      · obtain ⟨field, -, rfl⟩ := List.mem_map.1 hnode
        exact decide_eq_true rfl
    have hname : attributeText (firstNamed (configDocument config) "config") "name" = "FastECU" := rfl
    simp only [parseDocument, hname, if_true, hall]
  rw [hsettings, List.foldl_cons, parseSetting_windowNode, foldl_saveField fun _ h => h]
  by_cases h : isDefinitionBase config.primaryDefinitionBase
  · simp [kSettingFields, readBack, anyValue, accepted, h]
  · simp [kSettingFields, readBack, anyValue, accepted, h]

/-! ### What is read is accepted -/

/-- The settings have only values that are accepted. -/
def Accepted (config : AppConfig) : Prop := accepted config = config

theorem accepted_iff {config : AppConfig} : Accepted config ↔
    (config.primaryDefinitionBase = "" ∨ isDefinitionBase config.primaryDefinitionBase) ∧
      "" ∉ config.romraiderDefinitionFiles := by
  have hfilter : config.romraiderDefinitionFiles.filter isNonEmpty = config.romraiderDefinitionFiles ↔
      "" ∉ config.romraiderDefinitionFiles := by
    rw [List.filter_eq_self]
    constructor
    · intro h hmem
      simpa [isNonEmpty] using h "" hmem
    · intro h value hmem
      have hne : value ≠ "" := fun heq => h (heq ▸ hmem)
      simpa [isNonEmpty] using hne
  have hconfig : Accepted config ↔
      (if isDefinitionBase config.primaryDefinitionBase then config.primaryDefinitionBase else "") =
          config.primaryDefinitionBase ∧
        config.romraiderDefinitionFiles.filter isNonEmpty = config.romraiderDefinitionFiles := by
    constructor
    · intro h
      exact ⟨congrArg AppConfig.primaryDefinitionBase h, congrArg AppConfig.romraiderDefinitionFiles h⟩
    · rintro ⟨hbase, hfiles⟩
      rw [Accepted, accepted, hbase, hfiles]
  rw [hconfig, hfilter]
  refine and_congr_left fun _ => ?_
  by_cases h : isDefinitionBase config.primaryDefinitionBase
  · simp [h]
  · rw [if_neg h, or_iff_left h]
    exact eq_comm

/-- A field that is read keeps the settings accepted. -/
theorem Accepted.parseField {config : AppConfig} (h : Accepted config) (setting : XmlNode) {field : SettingField}
    (hfield : field ∈ kSettingFields) : Accepted (parseField setting config field) := by
  rw [accepted_iff] at h
  -- a member other than the two that are checked keeps both
  have hkeep : ∀ next : AppConfig, next.primaryDefinitionBase = config.primaryDefinitionBase →
      next.romraiderDefinitionFiles = config.romraiderDefinitionFiles → Accepted next := by
    intro next hbase hfiles
    rw [accepted_iff, hbase, hfiles]
    exact h
  have hloop : ∀ (f : AppConfig → XmlNode → AppConfig) (nodes : List XmlNode),
      (∀ next node, Accepted next → Accepted (f next node)) → Accepted (nodes.foldl f config) := by
    intro f nodes hf
    induction nodes using List.reverseRecOn with
    | nil => exact accepted_iff.2 h
    | append_singleton nodes node ih =>
      rw [List.foldl_append]
      exact hf _ node ih
  simp only [kSettingFields, List.mem_cons, List.not_mem_nil, or_false] at hfield
  rcases hfield with rfl | rfl | rfl | rfl | rfl | rfl | rfl | rfl | rfl | rfl | rfl | rfl | rfl | rfl | rfl
  case inr.inr.inr.inr.inr.inr.inl =>
    simp only [Config.parseField]
    split
    · rename_i hbase
      rw [accepted_iff]
      exact ⟨.inr hbase, h.2⟩
    · exact accepted_iff.2 h
  case inr.inr.inr.inr.inr.inr.inr.inl =>
    refine hloop _ _ fun next node hnext => ?_
    simp only [anyValue, if_true]
    rw [accepted_iff] at hnext ⊢
    exact hnext
  case inr.inr.inr.inr.inr.inr.inr.inr.inr.inr.inl =>
    refine hloop _ _ fun next node hnext => ?_
    simp only
    split
    · rename_i hdata
      rw [accepted_iff] at hnext ⊢
      refine ⟨hnext.1, ?_⟩
      have hne : ¬ "" = attributeText (some node) "data" := by
        intro heq
        rw [← heq] at hdata
        simp [isNonEmpty] at hdata
      simpa [hne] using hnext.2
    · exact hnext
  all_goals exact hkeep _ rfl rfl

theorem Accepted.parseSetting {config : AppConfig} (h : Accepted config) (setting : XmlNode) :
    Accepted (parseSetting config setting) := by
  simp only [Config.parseSetting]
  split
  · generalize childrenNamed (some setting) "value" = values
    induction values generalizing config with
    | nil => exact h
    | cons value values ih =>
      refine ih ?_
      rw [accepted_iff] at h ⊢
      unfold parseWindowValue
      split
      · exact h
      · split
        · exact h
        · exact h
  · split
    · rename_i field hfind
      exact h.parseField setting (List.mem_of_find?_eq_some hfind)
    · exact h

/-- Whatever the document is, its settings are accepted. -/
theorem accepted_parseDocument (document : List XmlNode) : Accepted (parseDocument document) := by
  have hloop : ∀ (settings : List XmlNode) (config : AppConfig), Accepted config →
      Accepted (settings.foldl parseSetting config) := by
    intro settings
    induction settings with
    | nil => exact fun _ h => h
    | cons setting settings ih => exact fun config h => ih _ (h.parseSetting setting)
  exact hloop _ _ (accepted_iff.2 ⟨.inl rfl, by simp⟩)

/-! ### Reading and saving -/

theorem appendTrailingSlashIfMissing_idem (path : String) :
    appendTrailingSlashIfMissing (appendTrailingSlashIfMissing path) = appendTrailingSlashIfMissing path := by
  have hslash : appendTrailingSlashIfMissing (path ++ "/") = path ++ "/" := by
    simp [appendTrailingSlashIfMissing]
  cases hlast : path.toList.getLast? with
  | none => simp [appendTrailingSlashIfMissing, hlast]
  | some c =>
    by_cases h : c = '/' ∨ c = '\\'
    · simp [appendTrailingSlashIfMissing, hlast, h]
    · have hpath : appendTrailingSlashIfMissing path = path ++ "/" := by
        simp [appendTrailingSlashIfMissing, hlast, h]
      rw [hpath, hslash]

@[simp]
theorem normalize_normalize (config : AppConfig) : normalize (normalize config) = normalize config := by
  simp only [normalize, appendTrailingSlashIfMissing_idem]

theorem Accepted.normalize {config : AppConfig} (h : Accepted config) : Accepted (normalize config) := by
  rw [accepted_iff] at h ⊢
  exact h

/-- pugixml loads the document as it was saved. -/
def ConfigXml.Restores (xml : ConfigXml) (document : List XmlNode) : Prop := xml.load (xml.save document) = .ok document

/-- What is read of a file that was saved. -/
theorem parseBytes_savedBytes {xml : ConfigXml} {config : AppConfig}
    (h : xml.Restores (configDocument (normalize config))) :
    parseBytes xml (savedBytes xml config) = .ok (accepted (normalize config)) := by
  rw [parseBytes, savedBytes, h]
  simp only [parseDocument_configDocument]

/-- What is read of any file is accepted. -/
theorem accepted_of_parseBytes {xml : ConfigXml} {bytes : Bytes} {config : AppConfig}
    (h : parseBytes xml bytes = .ok config) : Accepted config := by
  rw [parseBytes] at h
  cases hload : xml.load bytes with
  | error description =>
    rw [hload] at h
    cases h
  | ok document =>
    rw [hload] at h
    rw [← Except.ok.inj h]
    exact accepted_parseDocument document

/-- **What is read after settings were saved.**  Settings that were edited in any way are read back as they were
saved, except for a definition base and for empty RomRaider files that are not accepted, and nothing is lost exactly
if there are none.  So nothing is lost of settings that came from a file, whatever is in it; and what the save
returned is saved as the same bytes again. -/
theorem parse_save {xml : ConfigXml} {config : AppConfig} (h : xml.Restores (configDocument (normalize config))) :
    parseBytes xml (savedBytes xml config) = .ok (accepted (normalize config)) ∧
      (accepted (normalize config) = normalize config ↔
        (config.primaryDefinitionBase = "" ∨ isDefinitionBase config.primaryDefinitionBase) ∧
          "" ∉ config.romraiderDefinitionFiles) ∧
      (∀ bytes, parseBytes xml bytes = .ok config → accepted (normalize config) = normalize config) ∧
      savedBytes xml (normalize config) = savedBytes xml config :=
  ⟨parseBytes_savedBytes h, accepted_iff, fun _ hparse => (accepted_of_parseBytes hparse).normalize,
    by rw [savedBytes, normalize_normalize, savedBytes]⟩

/-! ### Text -/

/-- An attribute whose value needs no escapes. -/
def attributeString (entry : String × String) : String := " " ++ entry.1 ++ "=\"" ++ entry.2 ++ "\""

mutual

/-- The text of an element whose attributes need no escapes, as pugixml writes it with an indent. -/
def nodeString (indent : String) : XmlNode → String
  | element name attributes [] => indent ++ "<" ++ name ++ String.join (attributes.map attributeString) ++ " />\n"
  | element name attributes children =>
    indent ++ "<" ++ name ++ String.join (attributes.map attributeString) ++ ">\n" ++
      nodesString (indent ++ "    ") children ++ indent ++ "</" ++ name ++ ">\n"
  | _ => ""

/-- The text of some elements. -/
def nodesString (indent : String) : List XmlNode → String
  | [] => ""
  | node :: nodes => nodeString indent node ++ nodesString indent nodes

end

/-- pugixml, where nothing but one document is loaded. -/
def xmlOf (document : List XmlNode) : ConfigXml where
  load _ := .ok document
  save document := ("<?xml version=\"1.0\"?>\n" ++ nodesString "" document).toUTF8.data.toList

/-- Settings with a directory that has no slash yet and a definition base that is none. -/
def someConfig : AppConfig := { calibrationFilesDirectory := "/c", primaryDefinitionBase := "other" }

theorem parse_save_some :
    let xml := xmlOf (configDocument (normalize someConfig))
    parseBytes xml (savedBytes xml someConfig) = .ok (accepted (normalize someConfig)) ∧
      accepted (normalize someConfig) ≠ normalize someConfig := by
  intro xml
  have h := @parse_save xml someConfig rfl
  refine ⟨h.1, fun heq => ?_⟩
  have hbase := (h.2.1.1 heq).1
  simp [someConfig, isDefinitionBase] at hbase

end FastEcu.Config
