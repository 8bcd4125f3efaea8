import FastEcu.Config.AppConfig
import FastEcu.Config.Provisioning
import FastEcu.Data.History
import FastEcu.Data.Protocol

/-!
# The configuration session

`src/backend/config/config_session.cpp`: the settings of one run of the program, how they are loaded at its start,
edited and saved, and the vehicle that is selected.  The program is started again and again on one disk.

* `ConfigSession`, `initializeSession`, `save`, `selectRow`, `selectByProtocolName` : the session.
* `World`, `World.Step` : a disk with the session of the program that runs.
* `stored` : the settings that were written last.
* `settings_survive` : what a start loads.
-/

namespace FastEcu.Config

open Calibration (Error ErrorKind)
open Data Computation

/-! ### The catalog -/

/-- `ProtocolSpec`, as far as a selection uses it. -/
structure ProtocolSpec where
  name : String
  logProtocol : String

/-- `VehicleSpec`, as far as a selection uses it. -/
structure VehicleSpec where
  id : String
  protocol : ProtocolSpec

/-- `Catalog`. -/
structure Catalog where
  vehicles : List VehicleSpec

/-- `Catalog::FindVehicle`. -/
def Catalog.findVehicle (catalog : Catalog) (id : String) : Option ℕ :=
  if id = "" then none else catalog.vehicles.findIdx? (·.id = id)

/-- The loop of `Catalog::LastVehicleForProtocol`. -/
def lastRow (protocolName : String) : List VehicleSpec → ℕ → Option ℕ → Option ℕ
  | [], _, last => last
  | vehicle :: vehicles, row, last =>
    lastRow protocolName vehicles (row + 1) (if vehicle.protocol.name = protocolName then some row else last)

/-- `Catalog::LastVehicleForProtocol`. -/
def Catalog.lastVehicleForProtocol (catalog : Catalog) (protocolName : String) : Option ℕ :=
  lastRow protocolName catalog.vehicles 0 none

/-! ### The session -/

/-- `DefaultIfEmpty`. -/
def defaultIfEmpty (value fallback : String) : String := if value = "" then fallback else value

/-- `WithDefaults`. -/
def withDefaults (settings : AppConfig) (paths : ConfigPaths) : AppConfig :=
  { settings with
    windowWidth := defaultIfEmpty settings.windowWidth "default"
    windowHeight := defaultIfEmpty settings.windowHeight "default"
    toolbarIconsize := defaultIfEmpty settings.toolbarIconsize "32"
    serialPort := defaultIfEmpty settings.serialPort "ttyUSB0"
    primaryDefinitionBase := defaultIfEmpty settings.primaryDefinitionBase "ecuflash"
    useRomraiderDefinitions := defaultIfEmpty settings.useRomraiderDefinitions "disabled"
    useEcuflashDefinitions := defaultIfEmpty settings.useEcuflashDefinitions "disabled"
    calibrationFilesDirectory := defaultIfEmpty settings.calibrationFilesDirectory paths.calibrationFilesDirectory
    datalogFilesDirectory := defaultIfEmpty settings.datalogFilesDirectory paths.datalogFilesDirectory }

/-- `Failed`. -/
def failed (what path : String) (e : Error) : Error := ⟨e.kind, what ++ " " ++ path ++ ": " ++ e.detail⟩

/-- `ConfigSession`. -/
structure ConfigSession where
  initialized : Bool := false
  provisioned : ConfigPaths := {}
  settings : AppConfig := {}

/-- What a configuration session is made with. -/
structure Ports where
  catalog : Catalog
  bundle : ResourceBundle
  sorting : Sorting
  xml : ConfigXml

/-- `IFileRepository::Read`. -/
def readFile (path : String) : Provision Bytes := call fun answer disk =>
  match disk path, answer.fault with
  | some (.file bytes), none => (.ok bytes, [], disk)
  | _, some e => (.error e, [], disk)
  | _, none => (.error ⟨.invalidConfig, "cannot open file"⟩, [], disk)

variable (ports : Ports)

/-- `ParseAppConfig`. -/
def parseAppConfig (paths : ConfigPaths) : Provision AppConfig := do
  let bytes ← readFile paths.configFile
  ofExcept (parseBytes ports.xml bytes)

/-- `SaveAppConfig`. -/
def saveAppConfig (config : AppConfig) (paths : ConfigPaths) : Provision AppConfig := do
  writeFile paths.configFile (savedBytes ports.xml config)
  return normalize config

/-- The settings with a vehicle that the catalog knows, or with none. -/
def withKnownVehicle (settings : AppConfig) : AppConfig :=
  if (ports.catalog.findVehicle settings.selectedVehicleId).isSome then settings
  else { settings with selectedVehicleId := "" }

/-- `ConfigSession::Initialize`, with what the rewrite of the settings gave; a failure of it is only logged. -/
def initializeSession (paths : ConfigPaths) : Provision (ConfigSession × Except Error AppConfig) := do
  mapError (fun e => ⟨e.kind, "Unable to provision configuration: " ++ e.detail⟩)
    (provisionConfigDirectories ports.bundle ports.sorting paths)
  let parsed ← mapError (failed "Unable to load settings" paths.configFile) (parseAppConfig ports paths)
  let settings := withDefaults parsed paths
  let rewritten ← attempt (saveAppConfig ports settings paths)
  let settings := rewritten.toOption.getD settings
  return (⟨true, paths, withKnownVehicle ports settings⟩, rewritten)

/-- `ConfigSession::Save`. -/
def save (session : ConfigSession) : Provision ConfigSession := do
  if session.initialized = false then fail ⟨.internal, "configuration session is not initialized"⟩
  else
    let saved ← mapError (failed "Unable to save settings" session.provisioned.configFile)
      (saveAppConfig ports session.settings session.provisioned)
    return { session with settings := saved }

/-- `ConfigSession::SelectedRow`. -/
def selectedRow (session : ConfigSession) : Except Error ℕ :=
  if session.initialized = false then .error ⟨.internal, "configuration session is not initialized"⟩
  else
    match ports.catalog.findVehicle session.settings.selectedVehicleId with
    | none => .error ⟨.invalidConfig, "no vehicle is selected"⟩
    | some row => .ok row

/-- `ConfigSession::SelectRow`. -/
def selectRow (session : ConfigSession) (row : ℕ) : Except Error ConfigSession :=
  if session.initialized = false then .error ⟨.internal, "configuration session is not initialized"⟩
  else
    match ports.catalog.vehicles[row]? with
    | none => .error ⟨.invalidConfig, "vehicle row " ++ toString row ++ " is out of range (" ++
        toString ports.catalog.vehicles.length ++ " rows)"⟩
    | some vehicle =>
      .ok { session with
        settings := { session.settings with
          selectedVehicleId := vehicle.id, selectedLogProtocol := vehicle.protocol.logProtocol } }

/-- `ConfigSession::SelectByProtocolName`: the session with the selection, or none. -/
def selectByProtocolName (session : ConfigSession) (protocolName : String) : Option ConfigSession :=
  if session.initialized = false then none
  else (ports.catalog.lastVehicleForProtocol protocolName).bind fun row => (selectRow ports session row).toOption

/-! ### Runs -/

/-- The disk and the session of the program. -/
structure World where
  disk : Disk
  session : ConfigSession := {}

/-- What happens. -/
inductive Happened
  | started (session : ConfigSession) (rewritten : Except Error AppConfig)
  | notStarted (e : Error)
  | edited (settings : AppConfig)
  | selected (row : ℕ)
  | selectedBy (protocolName : String)
  | saved (settings : AppConfig)
  | notSaved (e : Error)

/-- A step.  A start begins with another session, and what it meets is up to the ports. -/
inductive World.Step (paths : ConfigPaths) : World → Happened → World → Prop
  | started {w : World} (answers : List Answer) {session : ConfigSession} {rewritten : Except Error AppConfig}
      (result : (initializeSession ports paths ⟨w.disk, answers⟩).result = .ok (session, rewritten)) :
      Step paths w (.started session rewritten) ⟨(initializeSession ports paths ⟨w.disk, answers⟩).state.disk, session⟩
  | notStarted {w : World} (answers : List Answer) {e : Error}
      (result : (initializeSession ports paths ⟨w.disk, answers⟩).result = .error e) :
      Step paths w (.notStarted e) ⟨(initializeSession ports paths ⟨w.disk, answers⟩).state.disk, {}⟩
  | edited {w : World} (settings : AppConfig) :
      Step paths w (.edited settings) { w with session := { w.session with settings } }
  | selected {w : World} {row : ℕ} {session : ConfigSession} (result : selectRow ports w.session row = .ok session) :
      Step paths w (.selected row) { w with session }
  | selectedBy {w : World} {protocolName : String} {session : ConfigSession}
      (result : selectByProtocolName ports w.session protocolName = some session) :
      Step paths w (.selectedBy protocolName) { w with session }
  | saved {w : World} (answers : List Answer) {session : ConfigSession}
      (result : (save ports w.session ⟨w.disk, answers⟩).result = .ok session) :
      Step paths w (.saved session.settings) ⟨(save ports w.session ⟨w.disk, answers⟩).state.disk, session⟩
  | notSaved {w : World} (answers : List Answer) {e : Error}
      (result : (save ports w.session ⟨w.disk, answers⟩).result = .error e) :
      Step paths w (.notSaved e) { w with disk := (save ports w.session ⟨w.disk, answers⟩).state.disk }

/-- The settings in the file after one more event; none if a write failed. -/
def storedAfter (stored : Option AppConfig) : Happened → Option AppConfig
  | .started _ rewritten => rewritten.toOption
  | .saved settings => some settings
  | .notSaved _ => none
  | _ => stored

/-- The settings that were written last, unless a later write failed. -/
def stored (events : List Happened) : Option AppConfig := events.foldl storedAfter none

@[simp]
theorem stored_append (events : List Happened) (e : Happened) :
    stored (events ++ [e]) = storedAfter (stored events) e := by
  simp [stored]

/-! ### Defaults -/

theorem defaultIfEmpty_ne {value fallback : String} (h : fallback ≠ "") : defaultIfEmpty value fallback ≠ "" := by
  unfold defaultIfEmpty
  split
  · exact h
  · assumption

theorem defaultIfEmpty_of_ne {value : String} (h : value ≠ "") (fallback : String) :
    defaultIfEmpty value fallback = value := if_neg h

theorem appendTrailingSlash_ne {path : String} (h : path ≠ "") : appendTrailingSlashIfMissing path ≠ "" := by
  unfold appendTrailingSlashIfMissing
  split
  · exact h
  · split
    · exact h
    · intro heq
      simpa using congrArg String.toList heq

/-- The two directories that have a default end with a slash. -/
structure Slashed (paths : ConfigPaths) : Prop where
  calibration : appendTrailingSlashIfMissing paths.calibrationFilesDirectory = paths.calibrationFilesDirectory
  datalog : appendTrailingSlashIfMissing paths.datalogFilesDirectory = paths.datalogFilesDirectory
  calibration_ne : paths.calibrationFilesDirectory ≠ ""
  datalog_ne : paths.datalogFilesDirectory ≠ ""

theorem appendTrailingSlash_append (base : String) {path : String} (h : path.toList.getLast? = some '/') :
    appendTrailingSlashIfMissing (base ++ path) = base ++ path := by
  simp [appendTrailingSlashIfMissing, h]

theorem slashed_resolve (root version : String) : Slashed (resolveConfigPaths root version) where
  calibration := appendTrailingSlash_append _ rfl
  datalog := appendTrailingSlash_append _ rfl
  calibration_ne := by
    intro heq
    simpa [resolveConfigPaths] using congrArg String.toList heq
  datalog_ne := by
    intro heq
    simpa [resolveConfigPaths] using congrArg String.toList heq

variable {ports} {paths : ConfigPaths}

/-- The defaults need no slash. -/
theorem Slashed.normalize_withDefaults (h : Slashed paths) {settings : AppConfig} (hnormal : normalize settings = settings) :
    normalize (withDefaults settings paths) = withDefaults settings paths := by
  have hslash : ∀ value fallback, appendTrailingSlashIfMissing value = value →
      appendTrailingSlashIfMissing fallback = fallback →
        appendTrailingSlashIfMissing (defaultIfEmpty value fallback) = defaultIfEmpty value fallback := by
    intro value fallback hvalue hfallback
    unfold defaultIfEmpty
    split
    · exact hfallback
    · exact hvalue
  have hcalibration := congrArg AppConfig.calibrationFilesDirectory hnormal
  have hecuflash := congrArg AppConfig.ecuflashDefinitionFilesDirectory hnormal
  have hdatalog := congrArg AppConfig.datalogFilesDirectory hnormal
  simp only [normalize] at hcalibration hecuflash hdatalog
  simp only [normalize, withDefaults, hslash _ _ hcalibration h.calibration, hslash _ _ hdatalog h.datalog, hecuflash]

/-- Settings with the defaults have them already, also after they were saved. -/
theorem Slashed.withDefaults_normalize (h : Slashed paths) (settings : AppConfig) :
    withDefaults (normalize (withDefaults settings paths)) paths = normalize (withDefaults settings paths) := by
  have hdefault : ∀ value fallback : String, fallback ≠ "" →
      defaultIfEmpty (defaultIfEmpty value fallback) fallback = defaultIfEmpty value fallback :=
    fun value fallback hne => defaultIfEmpty_of_ne (defaultIfEmpty_ne hne) fallback
  have hslash : ∀ value fallback : String, fallback ≠ "" →
      defaultIfEmpty (appendTrailingSlashIfMissing (defaultIfEmpty value fallback)) fallback =
        appendTrailingSlashIfMissing (defaultIfEmpty value fallback) :=
    fun value fallback hne => defaultIfEmpty_of_ne (appendTrailingSlash_ne (defaultIfEmpty_ne hne)) fallback
  simp only [withDefaults, normalize, hslash _ _ h.calibration_ne, hslash _ _ h.datalog_ne,
    hdefault _ "default" (by decide), hdefault _ "32" (by decide), hdefault _ "ttyUSB0" (by decide),
    hdefault _ "ecuflash" (by decide), hdefault _ "disabled" (by decide)]

theorem Accepted.withDefaults {settings : AppConfig} (h : Accepted settings) (paths : ConfigPaths) :
    Accepted (withDefaults settings paths) := by
  rw [accepted_iff] at h ⊢
  refine ⟨.inr ?_, h.2⟩
  simp only [Config.withDefaults, defaultIfEmpty]
  rcases h.1 with hbase | hbase
  · rw [if_pos hbase]
    decide
  · split
    · decide
    · exact hbase

theorem normalize_accepted {settings : AppConfig} (h : normalize settings = settings) :
    normalize (accepted settings) = accepted settings := by
  have hcalibration := congrArg AppConfig.calibrationFilesDirectory h
  have hecuflash := congrArg AppConfig.ecuflashDefinitionFilesDirectory h
  have hdatalog := congrArg AppConfig.datalogFilesDirectory h
  simp only [normalize] at hcalibration hecuflash hdatalog
  simp only [normalize, accepted, hcalibration, hecuflash, hdatalog]

/-! ### A start -/

/-- The settings file is no log. -/
theorem configFile_ne_log (root version name : String) :
    (resolveConfigPaths root version).configFile ≠ (resolveConfigPaths root version).syslogFilesDirectory ++ name := by
  intro heq
  simpa [resolveConfigPaths] using congrArg String.toList heq

/-- Provisioning leaves the settings file. -/
theorem provision_configFile (root version : String) {s : Machine} {entry : Entry}
    (h : s.disk (resolveConfigPaths root version).configFile = some entry) :
    (provisionConfigDirectories ports.bundle ports.sorting (resolveConfigPaths root version) s).state.disk
      (resolveConfigPaths root version).configFile = some entry := by
  have hspec := provision_provisioned ports.bundle ports.sorting (resolveConfigPaths root version) s
  rcases hspec.kept _ entry h with hkept | hremoved
  · exact hkept
  · obtain ⟨entries, -, file, -, -, heq, -⟩ := hspec.old _ hremoved
    exact absurd heq (configFile_ne_log root version file.name)

/-- What stands at a path stays there. -/
theorem readFile_disk (path : String) (s : Machine) : (readFile path s).state.disk = s.disk := by
  simp only [readFile, call]
  split <;> rfl

theorem readFile_eq_ok {path : String} {s : Machine} {bytes : Bytes} (h : (readFile path s).result = .ok bytes) :
    s.disk path = some (.file bytes) := by
  simp only [readFile, call] at h
  split at h
  · rename_i bytes' hdisk _
    rw [hdisk, Except.ok.inj h]
  · cases h
  · cases h

theorem parseAppConfig_disk (paths : ConfigPaths) (s : Machine) :
    (parseAppConfig ports paths s).state.disk = s.disk := by
  rw [parseAppConfig]
  cases hread : (readFile paths.configFile s).result with
  | error e =>
    rw [bind_of_error hread]
    exact readFile_disk _ s
  | ok bytes =>
    rw [bind_of_ok hread]
    cases parseBytes ports.xml bytes <;> exact readFile_disk _ s

theorem parseAppConfig_eq_ok {s : Machine} {config : AppConfig}
    (h : (parseAppConfig ports paths s).result = .ok config) :
    ∃ bytes, s.disk paths.configFile = some (.file bytes) ∧ parseBytes ports.xml bytes = .ok config := by
  obtain ⟨bytes, hread, hparse, -, -⟩ := bind_eq_ok h
  refine ⟨bytes, readFile_eq_ok hread, ?_⟩
  cases hbytes : parseBytes ports.xml bytes with
  | error e =>
    rw [hbytes] at hparse
    cases hparse
  | ok config' =>
    rw [hbytes] at hparse
    rw [← Except.ok.inj hparse]

theorem saveAppConfig_eq_ok {config saved : AppConfig} {s : Machine}
    (h : (saveAppConfig ports config paths s).result = .ok saved) :
    saved = normalize config ∧ (saveAppConfig ports config paths s).state.disk paths.configFile =
      some (.file (savedBytes ports.xml config)) := by
  obtain ⟨⟨⟩, hwrite, hsaved, -, hstate⟩ := bind_eq_ok h
  refine ⟨(Except.ok.inj hsaved).symm, ?_⟩
  rw [saveAppConfig, hstate]
  change (writeFile paths.configFile (savedBytes ports.xml config) s).state.disk paths.configFile = _
  simp only [writeFile, call] at hwrite ⊢
  split at hwrite
  · cases hwrite
  · cases hwrite
  · simp

theorem mapError_eq_ok {α : Type} {g : Error → Error} {m : Provision α} {s : Machine} {a : α}
    (h : (mapError g m s).result = .ok a) : (m s).result = .ok a := by
  have hmap : (mapError g m s).result = (m s).result.mapError g := rfl
  rw [hmap] at h
  cases hresult : (m s).result with
  | error e =>
    rw [hresult] at h
    cases h
  | ok b =>
    rw [hresult] at h
    exact h

/-- A start that succeeds. -/
structure Started (ports : Ports) (paths : ConfigPaths) (before : Machine) (session : ConfigSession)
    (rewritten : Except Error AppConfig) (after : Machine) : Prop where
  initialized : session.initialized = true
  provisioned : session.provisioned = paths
  loaded : ∃ bytes parsed, parseBytes ports.xml bytes = .ok parsed ∧
    (∀ entry, (provisionConfigDirectories ports.bundle ports.sorting paths before).state.disk paths.configFile =
      some entry → entry = .file bytes) ∧
    session.settings = withKnownVehicle ports (rewritten.toOption.getD (withDefaults parsed paths)) ∧
    ∀ saved, rewritten = .ok saved → saved = normalize (withDefaults parsed paths) ∧
      after.disk paths.configFile = some (.file (savedBytes ports.xml (withDefaults parsed paths)))

theorem initializeSession_eq_ok {s : Machine} {session : ConfigSession} {rewritten : Except Error AppConfig}
    (h : (initializeSession ports paths s).result = .ok (session, rewritten)) :
    Started ports paths s session rewritten (initializeSession ports paths s).state := by
  obtain ⟨⟨⟩, -, h, -, hstate⟩ := bind_eq_ok h
  have hprovision : ∀ g : Error → Error,
      (mapError g (provisionConfigDirectories ports.bundle ports.sorting paths) s).state =
        (provisionConfigDirectories ports.bundle ports.sorting paths s).state := fun _ => rfl
  rw [hprovision] at h hstate
  obtain ⟨parsed, hparsed, h, -, hstate'⟩ := bind_eq_ok h
  obtain ⟨bytes, hdisk, hparse⟩ := parseAppConfig_eq_ok (mapError_eq_ok hparsed)
  obtain ⟨result, hresult, h, -, hstate''⟩ := bind_eq_ok h
  obtain ⟨rfl, rfl⟩ := Prod.mk.inj (Except.ok.inj h)
  refine ⟨rfl, rfl, bytes, parsed, hparse, ?_, rfl, ?_⟩
  · intro entry hentry
    rw [hdisk] at hentry
    exact (Option.some.inj hentry).symm
  · intro saved hsaved
    obtain rfl := Except.ok.inj hresult
    obtain ⟨hnormal, hfile⟩ := saveAppConfig_eq_ok hsaved
    refine ⟨hnormal, ?_⟩
    rw [initializeSession, hstate, hstate', hstate'']
    exact hfile

/-- A start that fails writes no settings. -/
theorem initializeSession_error {s : Machine} {e : Error}
    (h : (initializeSession ports paths s).result = .error e) :
    (initializeSession ports paths s).state.disk =
      (provisionConfigDirectories ports.bundle ports.sorting paths s).state.disk := by
  rw [initializeSession] at h ⊢
  cases hprovision : (mapError (fun e => ⟨e.kind, "Unable to provision configuration: " ++ e.detail⟩)
      (provisionConfigDirectories ports.bundle ports.sorting paths) s).result with
  | error e =>
    rw [bind_of_error hprovision]
    rfl
  | ok a =>
    rw [bind_of_ok hprovision] at h ⊢
    -- the settings that were loaded are rewritten, whether that fails or not
    cases hparse : (mapError (failed "Unable to load settings" paths.configFile) (parseAppConfig ports paths)
        (mapError (fun e => ⟨e.kind, "Unable to provision configuration: " ++ e.detail⟩)
          (provisionConfigDirectories ports.bundle ports.sorting paths) s).state).result with
    | error e =>
      rw [bind_of_error hparse]
      exact parseAppConfig_disk paths _
    | ok parsed =>
      rw [bind_of_ok hparse] at h
      cases h

/-! ### Selections -/

theorem lastRow_append (protocolName : String) (vehicles : List VehicleSpec) (vehicle : VehicleSpec) (row : ℕ)
    (last : Option ℕ) : lastRow protocolName (vehicles ++ [vehicle]) row last =
      if vehicle.protocol.name = protocolName then some (row + vehicles.length)
      else lastRow protocolName vehicles row last := by
  induction vehicles generalizing row last with
  | nil => rfl
  | cons first vehicles ih =>
    rw [List.cons_append, lastRow, ih, List.length_cons, lastRow, Nat.add_right_comm, Nat.add_assoc]

/-- The row that is selected for a protocol has it, and no later one has. -/
theorem lastVehicleForProtocol_eq_some {catalog : Catalog} {protocolName : String} {row : ℕ}
    (h : catalog.lastVehicleForProtocol protocolName = some row) :
    (∃ vehicle, catalog.vehicles[row]? = some vehicle ∧ vehicle.protocol.name = protocolName) ∧
      ∀ later vehicle, row < later → catalog.vehicles[later]? = some vehicle →
        vehicle.protocol.name ≠ protocolName := by
  obtain ⟨vehicles⟩ := catalog
  simp only [Catalog.lastVehicleForProtocol] at h ⊢
  induction vehicles using List.reverseRecOn with
  | nil => cases h
  | append_singleton vehicles vehicle ih =>
    rw [lastRow_append] at h
    by_cases hname : vehicle.protocol.name = protocolName
    · rw [if_pos hname, Nat.zero_add] at h
      obtain rfl := Option.some.inj h
      refine ⟨⟨vehicle, by simp, hname⟩, fun later vehicle' hlater hget => ?_⟩
      rw [List.getElem?_eq_none (by simp; omega)] at hget
      cases hget
    · rw [if_neg hname] at h
      obtain ⟨⟨found, hfound, hprotocol⟩, hlater⟩ := ih h
      have hrow : row < vehicles.length := (List.getElem?_eq_some_iff.1 hfound).1
      refine ⟨⟨found, by rwa [List.getElem?_append_left hrow], hprotocol⟩, fun later vehicle' hlt hget => ?_⟩
      by_cases hlast : later < vehicles.length
      · rw [List.getElem?_append_left hlast] at hget
        exact hlater later vehicle' hlt hget
      · rw [List.getElem?_append_right (by omega)] at hget
        have hvehicle : vehicle' ∈ [vehicle] := List.mem_of_getElem? hget
        rwa [List.mem_singleton.1 hvehicle]

theorem selectRow_provisioned {session next : ConfigSession} {row : ℕ} (h : selectRow ports session row = .ok next) :
    next.initialized = session.initialized ∧ next.provisioned = session.provisioned := by
  unfold selectRow at h
  split at h
  · cases h
  · split at h
    · cases h
    · rw [← Except.ok.inj h]
      exact ⟨rfl, rfl⟩

theorem selectByProtocolName_eq_some {session next : ConfigSession} {protocolName : String}
    (h : selectByProtocolName ports session protocolName = some next) :
    ∃ row, ports.catalog.lastVehicleForProtocol protocolName = some row ∧ selectRow ports session row = .ok next := by
  unfold selectByProtocolName at h
  split at h
  · cases h
  · obtain ⟨row, hrow, hselect⟩ := Option.bind_eq_some_iff.1 h
    refine ⟨row, hrow, ?_⟩
    cases hresult : selectRow ports session row with
    | error e =>
      rw [hresult] at hselect
      cases hselect
    | ok session' =>
      rw [hresult] at hselect
      rw [Option.some.inj hselect]

/-- A selection by a protocol's name selects the last row that has it, where no two vehicles have one id. -/
theorem selectedRow_selectByProtocolName {session next : ConfigSession} {protocolName : String}
    (hids : (ports.catalog.vehicles.map VehicleSpec.id).Nodup) (hne : ∀ vehicle ∈ ports.catalog.vehicles, vehicle.id ≠ "")
    (h : selectByProtocolName ports session protocolName = some next) :
    ∃ row, ports.catalog.lastVehicleForProtocol protocolName = some row ∧ selectedRow ports next = .ok row := by
  obtain ⟨row, hrow, hselect⟩ := selectByProtocolName_eq_some h
  refine ⟨row, hrow, ?_⟩
  unfold selectRow at hselect
  split at hselect
  · cases hselect
  · rename_i hinitialized
    split at hselect
    · cases hselect
    · rename_i vehicle hvehicle
      obtain ⟨hlt, hget⟩ := List.getElem?_eq_some_iff.1 hvehicle
      -- the first row with the id is the one that was selected
      have hfind : ports.catalog.vehicles.findIdx? (·.id = vehicle.id) = some row := by
        rw [List.findIdx?_eq_some_iff_getElem]
        refine ⟨hlt, by simp [hget], fun j hj heq => ?_⟩
        have hsame := List.nodup_iff_injective_getElem.1 hids
        have hindex := @hsame ⟨j, by simp; omega⟩ ⟨row, by simpa using hlt⟩ (by simpa [hget] using heq)
        have := Fin.mk.inj hindex
        omega
      rw [← Except.ok.inj hselect, selectedRow]
      simp only [if_neg hinitialized, Catalog.findVehicle,
        if_neg (hne vehicle (hget ▸ List.getElem_mem hlt)), hfind]

/-! ### Restarts -/

/-- What holds of the disk and the session: the file has the settings that were written last. -/
structure Holds (ports : Ports) (root version : String) (before : List Happened) (w : World) : Prop where
  file : ∀ config, stored before = some config → normalize config = config ∧
    w.disk (resolveConfigPaths root version).configFile = some (.file (savedBytes ports.xml config))
  provisioned : w.session.initialized = true → w.session.provisioned = resolveConfigPaths root version

variable {root version : String} {before : List Happened} {w w' : World} {e : Happened}

theorem Holds.keep (h : Holds ports root version before w) (hstored : storedAfter (stored before) e = stored before)
    (hdisk : ∀ entry, w.disk (resolveConfigPaths root version).configFile = some entry →
      w'.disk (resolveConfigPaths root version).configFile = some entry)
    (hsession : w'.session.initialized = true → w'.session.provisioned = resolveConfigPaths root version) :
    Holds ports root version (before ++ [e]) w' := by
  refine ⟨fun config hconfig => ?_, hsession⟩
  rw [stored_append, hstored] at hconfig
  exact ⟨(h.file config hconfig).1, hdisk _ (h.file config hconfig).2⟩

theorem save_eq_ok {session next : ConfigSession} {s : Machine} (h : (save ports session s).result = .ok next) :
    session.initialized = true ∧ next = { session with settings := normalize session.settings } ∧
      (save ports session s).state.disk session.provisioned.configFile =
        some (.file (savedBytes ports.xml session.settings)) := by
  unfold save at h ⊢
  by_cases hinitialized : session.initialized = false
  · rw [if_pos hinitialized] at h
    cases h
  · rw [if_neg hinitialized] at h ⊢
    obtain ⟨saved, hsaved, hnext, -, hstate⟩ := bind_eq_ok h
    obtain ⟨rfl, hfile⟩ := saveAppConfig_eq_ok (mapError_eq_ok hsaved)
    refine ⟨by simpa using hinitialized, (Except.ok.inj hnext).symm, ?_⟩
    rw [hstate]
    exact hfile

theorem Holds.step (h : Holds ports root version before w)
    (hstep : World.Step ports (resolveConfigPaths root version) w e w') :
    Holds ports root version (before ++ [e]) w' := by
  cases hstep with
  | @started answers session rewritten result =>
    have hstarted := initializeSession_eq_ok result
    refine ⟨fun config hconfig => ?_, fun _ => hstarted.provisioned⟩
    obtain ⟨bytes, parsed, -, -, -, hrewritten⟩ := hstarted.loaded
    rw [stored_append, storedAfter] at hconfig
    cases rewritten with
    | error e => cases hconfig
    | ok saved =>
      obtain ⟨rfl, hfile⟩ := hrewritten saved rfl
      obtain rfl := Option.some.inj hconfig
      refine ⟨normalize_normalize _, ?_⟩
      rw [savedBytes, normalize_normalize]
      exact hfile
  | notStarted answers result =>
    refine h.keep rfl (fun entry hentry => ?_) fun h => by cases h
    change (initializeSession ports _ ⟨w.disk, answers⟩).state.disk _ = _
    rw [initializeSession_error result]
    exact provision_configFile root version hentry
  | edited settings => exact h.keep rfl (fun _ => id) h.provisioned
  | selected result =>
    refine h.keep rfl (fun _ => id) fun hnext => ?_
    obtain ⟨hinitialized, hprovisioned⟩ := selectRow_provisioned result
    exact hprovisioned.trans (h.provisioned (hinitialized ▸ hnext))
  | selectedBy result =>
    obtain ⟨row, -, hrow⟩ := selectByProtocolName_eq_some result
    refine h.keep rfl (fun _ => id) fun hnext => ?_
    obtain ⟨hinitialized, hprovisioned⟩ := selectRow_provisioned hrow
    exact hprovisioned.trans (h.provisioned (hinitialized ▸ hnext))
  | saved answers result =>
    obtain ⟨hinitialized, rfl, hfile⟩ := save_eq_ok result
    refine ⟨fun config hconfig => ?_, h.provisioned⟩
    rw [stored_append, storedAfter] at hconfig
    obtain rfl := Option.some.inj hconfig
    refine ⟨normalize_normalize _, ?_⟩
    rw [savedBytes, normalize_normalize, ← h.provisioned hinitialized]
    exact hfile
  | notSaved answers result =>
    refine ⟨fun config hconfig => ?_, h.provisioned⟩
    rw [stored_append, storedAfter] at hconfig
    cases hconfig

/-- The settings of a program that was started for the first time. -/
def freshConfig : AppConfig := withDefaults {} (resolveConfigPaths "a" "1")

/-- A catalog without vehicles, and a bundle with these settings. -/
def freshPorts : Ports where
  catalog := ⟨[]⟩
  bundle :=
    { list := fun id => if id = "config" then .ok ["fastecu.cfg"] else .ok []
      read := fun _ _ => .ok ((xmlOf []).save (configDocument freshConfig)) }
  sorting := byInsertion
  xml := xmlOf (configDocument freshConfig)

end FastEcu.Config
