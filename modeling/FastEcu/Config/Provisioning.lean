import FastEcu.Data.Transition
import FastEcu.Bytes.Words
import FastEcu.Calibration.Definition

/-!
# Provisioning

`src/backend/config/config_paths.cpp` and `provisioning.cpp`: the directories of one version of the program are
made, the settings of the newest version before it are carried over, the bundled files are written and old logs are
removed.  Every call of a port may fail, a failed write may leave a part of the file, and a directory is listed as
the file system likes.

* `ConfigPaths`, `resolveConfigPaths` : where things are.
* `Disk`, `Change`, `Provision` : what stands at the paths, what is done to it, and the calls.
* `provisionConfigDirectories` : the provisioning.
* `provision_spec` : what it keeps, what it makes, and what a second one does.
-/

namespace FastEcu.Config

open Calibration (Error ErrorKind)
open Data Computation

/-! ### Paths -/

/-- `ConfigPaths`. -/
structure ConfigPaths where
  baseConfigDirectory : String := ""
  versionConfigDirectory : String := ""
  calibrationFilesDirectory : String := ""
  configFilesDirectory : String := ""
  definitionFilesDirectory : String := ""
  kernelFilesDirectory : String := ""
  datalogFilesDirectory : String := ""
  syslogFilesDirectory : String := ""
  configFile : String := ""
  loggerFile : String := ""

/-- `ResolveConfigPaths`. -/
def resolveConfigPaths (appRootPath version : String) : ConfigPaths :=
  let base := appRootPath ++ "/" ++ version
  { baseConfigDirectory := appRootPath
    versionConfigDirectory := base ++ "/"
    calibrationFilesDirectory := base ++ "/calibrations/"
    configFilesDirectory := base ++ "/config/"
    definitionFilesDirectory := base ++ "/definitions/"
    kernelFilesDirectory := base ++ "/kernels/"
    datalogFilesDirectory := base ++ "/datalogs/"
    syslogFilesDirectory := base ++ "/syslogs/"
    configFile := base ++ "/config/" ++ "fastecu.cfg"
    loggerFile := base ++ "/config/" ++ "logger.cfg" }

/-! ### Ports -/

/-- What stands at a path. -/
inductive Entry
  | directory
  | file (bytes : Bytes)

/-- What stands at each path. -/
abbrev Disk := String → Option Entry

/-- `DirEntry`. -/
structure DirEntry where
  name : String
  isDirectory : Bool
  modifiedTimeEpochSeconds : ℤ

/-- What a call meets: a fault, the directories that are made on the way to another one, what a failed write
leaves, and a listing. -/
structure Answer where
  fault : Option Error := none
  parents : String → Bool := fun _ => false
  torn : Option Bytes := none
  entries : Except Error (List DirEntry) := .ok []

instance : Inhabited Answer := ⟨{}⟩

/-- What is done to the disk, and the listings it is done for. -/
inductive Change
  | made (path : String)
  | copied (source path : String)
  | wrote (path : String)
  | removed (path : String)
  | listed (path : String) (entries : List DirEntry)

/-- The disk, and what the next calls meet. -/
structure Machine where
  disk : Disk
  answers : List Answer

/-- What provisioning does. -/
abbrev Provision := Computation Error Change Machine

/-- `IResourceBundle`, whose files are compiled in. -/
structure ResourceBundle where
  list : String → Except Error (List String)
  read : String → String → Except Error Bytes

/-- A call, which meets the next answer. -/
def call {α : Type} (f : Answer → Disk → Except Error α × List Change × Disk) : Provision α := fun s =>
  let outcome := f (s.answers.headD default) s.disk
  ⟨outcome.1, outcome.2.1, outcome.2.2, s.answers.tail⟩

/-- `IFileSystem::Exists`. -/
def pathExists (path : String) : Provision Bool := fun s => ⟨.ok (s.disk path).isSome, [], s⟩

/-- The directories on the way to another one are made where nothing stands. -/
def withParents (parents : String → Bool) (disk : Disk) : Disk := fun path =>
  if (disk path).isNone && parents path then some .directory else disk path

/-- `IFileSystem::MakeDirectory`. -/
def makeDirectory (path : String) : Provision Unit := call fun answer disk =>
  let disk := withParents answer.parents disk
  match answer.fault with
  | some e => (.error e, [.made path], disk)
  | none => (.ok (), [.made path], withParents (· == path) disk)

/-- `IFileSystem::CopyFileTo` without overwriting. -/
def copyFileTo (source path : String) : Provision Unit := call fun answer disk =>
  if (disk path).isSome then (.error ⟨.internal, "destination exists"⟩, [], disk)
  else
    match disk source, answer.fault with
    | some (.file bytes), none => (.ok (), [.copied source path], Function.update disk path (some (.file bytes)))
    | _, _ => (.error ⟨.internal, "copy failed"⟩, [], disk)

/-- `IFileSystem::RemoveFile`. -/
def removeFile (path : String) : Provision Unit := call fun answer disk =>
  match disk path, answer.fault with
  | some (.file _), none => (.ok (), [.removed path], Function.update disk path none)
  | _, _ => (.error ⟨.internal, "remove failed"⟩, [], disk)

/-- `IFileSystem::ListDirectory`. -/
def listDirectory (path : String) : Provision (List DirEntry) := call fun answer disk =>
  (answer.entries, answer.entries.toOption.toList.map (.listed path), disk)

/-- `IFileRepository::Write`. -/
def writeFile (path : String) (bytes : Bytes) : Provision Unit := call fun answer disk =>
  match disk path, answer.fault with
  | some .directory, _ => (.error ⟨.invalidConfig, "cannot open file"⟩, [], disk)
  | _, some e =>
    (.error e, [.wrote path], answer.torn.elim disk fun part => Function.update disk path (some (.file part)))
  | _, none => (.ok (), [.wrote path], Function.update disk path (some (.file bytes)))

/-! ### Provisioning -/

/-- `AtPath`. -/
def atPath (path : String) (e : Error) : Error := ⟨e.kind, path ++ ": " ++ e.detail⟩

/-- `EnsureDirectory`. -/
def ensureDirectory (path : String) : Provision Unit := do
  if ← pathExists path then pure ()
  else mapError (atPath path) (makeDirectory path)

/-- The body of the loop of `CopyBundleIfAbsent`. -/
def copyIfAbsent (bundle : ResourceBundle) (bundleId targetDirectory name : String) : Provision Unit := do
  let target := targetDirectory ++ name
  if ← pathExists target then pure ()
  else
    let bytes ← mapError (atPath target) (ofExcept (bundle.read bundleId name))
    mapError (atPath target) (writeFile target bytes)

/-- `CopyBundleIfAbsent`. -/
def copyBundleIfAbsent (bundle : ResourceBundle) (bundleId targetDirectory : String) : Provision Unit :=
  match bundle.list bundleId with
  | .error _ => pure ()
  | .ok names => each names (copyIfAbsent bundle bundleId targetDirectory)

/-- `std::ranges::sort` by the time, newest first; entries of one time come in any order. -/
structure Sorting where
  sort : List DirEntry → List DirEntry
  perm : ∀ entries, (sort entries).Perm entries
  sorted : ∀ entries,
    (sort entries).Pairwise fun a b => b.modifiedTimeEpochSeconds ≤ a.modifiedTimeEpochSeconds

variable (bundle : ResourceBundle) (sorting : Sorting) (paths : ConfigPaths)

/-- `NewestFirst`. -/
def newestFirst (entries : List DirEntry) (directories : Bool) : List DirEntry :=
  sorting.sort (entries.filter (·.isDirectory == directories))

/-- `PreviousConfigFile`. -/
def previousConfigFile : Provision (Option String) := do
  match ← attempt (listDirectory paths.baseConfigDirectory) with
  | .error _ => return none
  | .ok siblings =>
    return (newestFirst sorting siblings true).head?.map fun entry =>
      paths.baseConfigDirectory ++ "/" ++ entry.name ++ "/config/fastecu.cfg"

/-- The settings that are carried over; a failure is ignored. -/
def carryOver (previous : Option String) : Provision Unit :=
  match previous with
  | none => pure ()
  | some source => do
    let _ ← attempt (copyFileTo source (paths.configFilesDirectory ++ "fastecu.cfg"))

/-- `CreateVersionDirectory`. -/
def createVersionDirectory : Provision Unit := do
  let previous ← previousConfigFile sorting paths
  each [paths.versionConfigDirectory, paths.configFilesDirectory] ensureDirectory
  carryOver paths previous

/-- `PruneSyslogs`. -/
def pruneSyslogs : Provision Unit := do
  match ← attempt (listDirectory paths.syslogFilesDirectory) with
  | .error _ => pure ()
  | .ok syslogs =>
    each ((newestFirst sorting syslogs false).drop 20) fun entry =>
      mapError (atPath (paths.syslogFilesDirectory ++ entry.name))
        (removeFile (paths.syslogFilesDirectory ++ entry.name))

/-- The version's directory is made if there is none. -/
def ensureVersion : Provision Unit := do
  if paths.versionConfigDirectory = paths.baseConfigDirectory then pure ()
  else if ← pathExists paths.versionConfigDirectory then pure ()
  else createVersionDirectory sorting paths

/-- The directories that are made one after another. -/
def ensuredDirectories : List String :=
  [paths.calibrationFilesDirectory, paths.configFilesDirectory, paths.definitionFilesDirectory,
    paths.kernelFilesDirectory, paths.datalogFilesDirectory, paths.syslogFilesDirectory]

/-- The bundles, with where their files are written. -/
def bundles : List (String × String) := [("config", paths.configFilesDirectory), ("kernels", paths.kernelFilesDirectory)]

/-- `ProvisionConfigDirectories` before the logs are removed. -/
def provisionFiles : Provision Unit := do
  ensureDirectory paths.baseConfigDirectory
  ensureVersion sorting paths
  each (ensuredDirectories paths) ensureDirectory
  each (bundles paths) fun entry => copyBundleIfAbsent bundle entry.1 entry.2

/-- `ProvisionConfigDirectories`. -/
def provisionConfigDirectories : Provision Unit := do
  provisionFiles bundle sorting paths
  pruneSyslogs sorting paths

/-! ### What is made -/

/-- The path where a change makes something. -/
def Change.touched? : Change → Option String
  | made path => some path
  | copied _ path => some path
  | wrote path => some path
  | _ => none

/-- The directories and the bundled files. -/
def required : List String :=
  paths.baseConfigDirectory :: paths.versionConfigDirectory :: ensuredDirectories paths ++
    (bundles paths).flatMap fun entry => ((bundle.list entry.1).toOption.getD []).map (entry.2 ++ ·)

/-- Everything stays, and something is made only where nothing stood and at the paths that are allowed. -/
structure Grows (allowed : String → Prop) (before : Machine) (events : List Change) (after : Machine) : Prop where
  kept : ∀ path entry, before.disk path = some entry → after.disk path = some entry
  fresh : ∀ change ∈ events, ∀ path, change.touched? = some path → before.disk path = none ∧ allowed path
  clean : ∀ path, .removed path ∉ events

variable {bundle sorting paths} {allowed allowed' : String → Prop}

theorem Grows.mono {before after : Machine} {events : List Change} (h : Grows allowed before events after)
    (hsub : ∀ path, allowed path → allowed' path) : Grows allowed' before events after where
  kept := h.kept
  fresh change hmem path hpath := (h.fresh change hmem path hpath).imp_right (hsub path)
  clean := h.clean

theorem Grows.none {before after : Machine} {events : List Change} (h : Grows allowed before events after)
    {path : String} (hafter : after.disk path = none) : before.disk path = none := by
  cases hbefore : before.disk path with
  | none => rfl
  | some entry =>
    rw [h.kept path entry hbefore] at hafter
    cases hafter

theorem Grows.isSome {before after : Machine} {events : List Change} (h : Grows allowed before events after)
    {path : String} (hbefore : (before.disk path).isSome) : (after.disk path).isSome := by
  obtain ⟨entry, hentry⟩ := Option.isSome_iff_exists.1 hbefore
  rw [h.kept path entry hentry]
  rfl

theorem lasting_grows : Lasting (Grows allowed) where
  refl s := ⟨fun _ _ h => h, fun _ h => by simp at h, fun _ h => by simp at h⟩
  trans {s s' s'' events events'} h h' := by
    refine ⟨fun path entry hentry => h'.kept path entry (h.kept path entry hentry), ?_, ?_⟩
    · intro change hmem path hpath
      rcases List.mem_append.1 hmem with hmem | hmem
      · exact h.fresh change hmem path hpath
      · exact (h'.fresh change hmem path hpath).imp_left h.none
    · intro path hmem
      rcases List.mem_append.1 hmem with hmem | hmem
      · exact h.clean path hmem
      · exact h'.clean path hmem

/-- A call that leaves the disk as it is, whatever it lists. -/
theorem Grows.idle {before after : Machine} {events : List Change} (hdisk : after.disk = before.disk)
    (hevents : ∀ change ∈ events, ∃ path entries, change = .listed path entries) :
    Grows allowed before events after where
  kept path entry h := hdisk ▸ h
  fresh change hmem path hpath := by
    obtain ⟨path', entries, rfl⟩ := hevents change hmem
    cases hpath
  clean path hmem := by
    obtain ⟨path', entries, h⟩ := hevents _ hmem
    cases h

/-- A change at a path where nothing stands. -/
theorem Grows.single {before after : Machine} {change : Change} {path : String}
    (hkept : ∀ path entry, before.disk path = some entry → after.disk path = some entry)
    (hpath : change.touched? = some path) (hfresh : before.disk path = .none) (hallowed : allowed path) :
    Grows allowed before [change] after where
  kept := hkept
  fresh change' hmem path' hpath' := by
    rw [List.mem_singleton.1 hmem, hpath] at hpath'
    rw [← Option.some.inj hpath']
    exact ⟨hfresh, hallowed⟩
  clean path' hmem := by
    rw [← List.mem_singleton.1 hmem] at hpath
    cases hpath

theorem pathExists_bind {α : Type} (path : String) (f : Bool → Provision α) (s : Machine) :
    (pathExists path >>= f) s = f (s.disk path).isSome s := by
  rw [bind_of_ok (a := (s.disk path).isSome) rfl]
  rfl

theorem withParents_kept (parents : String → Bool) {disk : Disk} {path : String} {entry : Entry}
    (h : disk path = some entry) : withParents parents disk path = some entry := by
  simp [withParents, h]

theorem update_kept {disk : Disk} {path : String} (hnone : disk path = none) (entry : Option Entry) {path' : String}
    {entry' : Entry} (h : disk path' = some entry') : Function.update disk path entry path' = some entry' := by
  have hne : path' ≠ path := by
    rintro rfl
    rw [hnone] at h
    cases h
  rw [Function.update_of_ne hne, h]

/-- A directory stands after it was ensured. -/
theorem ensureDirectory_attains {path : String} (h : allowed path) :
    Attains (Grows allowed) (fun s => (s.disk path).isSome) (ensureDirectory path) := by
  intro s
  rw [ensureDirectory, pathExists_bind]
  cases hpath : s.disk path with
  | some entry => exact ⟨lasting_grows.refl s, fun _ _ => by simp [hpath]⟩
  | none =>
    have hmade : ∀ after : Machine,
        (∀ path entry, s.disk path = some entry → after.disk path = some entry) →
          Grows allowed s [.made path] after :=
      fun after hkept => Grows.single hkept rfl hpath h
    change Grows allowed s (makeDirectory path s).events (makeDirectory path s).state ∧
      ∀ a, ((makeDirectory path s).result.mapError (atPath path)) = .ok a →
        ((makeDirectory path s).state.disk path).isSome
    simp only [makeDirectory, call]
    generalize s.answers.headD default = answer
    cases answer.fault with
    | some e => exact ⟨hmade _ fun _ _ => withParents_kept _, fun a ha => by cases ha⟩
    | none =>
      refine ⟨hmade _ fun _ _ hentry => withParents_kept (· == path) (withParents_kept answer.parents hentry),
        fun _ _ => ?_⟩
      cases hparents : answer.parents path with
      | true => simp [withParents, hpath, hparents]
      | false => simp [withParents, hpath, hparents]

/-- A bundled file stands after it was copied. -/
theorem copyIfAbsent_attains {bundleId targetDirectory name : String} (h : allowed (targetDirectory ++ name)) :
    Attains (Grows allowed) (fun s => (s.disk (targetDirectory ++ name)).isSome)
      (copyIfAbsent bundle bundleId targetDirectory name) := by
  intro s
  simp only [copyIfAbsent]
  rw [pathExists_bind]
  cases hpath : s.disk (targetDirectory ++ name) with
  | some entry => exact ⟨lasting_grows.refl s, fun _ _ => by simp [hpath]⟩
  | none =>
    cases bundle.read bundleId name with
    | error e => exact ⟨lasting_grows.refl s, fun _ ha => by cases ha⟩
    | ok bytes =>
      change Grows allowed s ([] ++ (writeFile (targetDirectory ++ name) bytes s).events)
          (writeFile (targetDirectory ++ name) bytes s).state ∧
        ∀ a, ((writeFile (targetDirectory ++ name) bytes s).result.mapError (atPath (targetDirectory ++ name))) =
          .ok a → ((writeFile (targetDirectory ++ name) bytes s).state.disk (targetDirectory ++ name)).isSome
      simp only [writeFile, call, hpath, List.nil_append]
      generalize s.answers.headD default = answer
      cases answer.fault with
      | some e =>
        refine ⟨Grows.single ?_ rfl hpath h, fun a ha => by cases ha⟩
        intro path entry hentry
        cases answer.torn with
        | none => exact hentry
        | some part => exact update_kept hpath _ hentry
      | none => exact ⟨Grows.single (fun _ _ => update_kept hpath _) rfl hpath h, fun _ _ => by simp⟩

/-- Every bundled file stands after the bundle was copied. -/
theorem copyBundleIfAbsent_attains {bundleId targetDirectory : String}
    (h : ∀ name ∈ (bundle.list bundleId).toOption.getD [], allowed (targetDirectory ++ name)) :
    Attains (Grows allowed)
      (fun s => ∀ name ∈ (bundle.list bundleId).toOption.getD [], (s.disk (targetDirectory ++ name)).isSome)
      (copyBundleIfAbsent bundle bundleId targetDirectory) := by
  unfold copyBundleIfAbsent
  cases hlist : bundle.list bundleId with
  | error e => exact .pure lasting_grows (fun _ _ hmem => by simp [Except.toOption] at hmem) ()
  | ok names =>
    rw [hlist] at h
    exact Attains.each (G := fun name s => (s.disk (targetDirectory ++ name)).isSome) lasting_grows
      (fun hgrows => hgrows.isSome) fun name hname => copyIfAbsent_attains (h name hname)

theorem previousConfigFile_always : Always (Grows allowed) (previousConfigFile sorting paths) := by
  refine Relates.bind (P := fun s _ events s' => Grows allowed s events s')
    (R := fun _ s _ events s' => Grows allowed s events s')
    (Relates.attempt fun s => ?_) (fun siblings => ?_) (fun _ _ _ _ h => h) fun _ _ _ _ _ _ _ => lasting_grows.trans
  · refine Grows.idle rfl fun change hmem => ?_
    change change ∈ List.map _ _ at hmem
    obtain ⟨entries, -, rfl⟩ := List.mem_map.1 hmem
    exact ⟨_, _, rfl⟩
  · cases siblings with
    | error e => exact lasting_grows.refl
    | ok siblings => exact lasting_grows.refl

/-- The settings are carried over where there are none. -/
theorem carryOver_always (h : allowed (paths.configFilesDirectory ++ "fastecu.cfg")) (previous : Option String) :
    Always (Grows allowed) (carryOver paths previous) := by
  cases previous with
  | none => exact lasting_grows.refl
  | some source =>
    have hcopy : Always (Grows allowed) (copyFileTo source (paths.configFilesDirectory ++ "fastecu.cfg")) := by
      intro s
      simp only [copyFileTo, call]
      split
      · exact Grows.idle rfl fun _ hmem => by simp at hmem
      · rename_i hnone
        have hnone : s.disk (paths.configFilesDirectory ++ "fastecu.cfg") = none := by simpa using hnone
        split
        · exact Grows.single (fun _ _ => update_kept hnone _) rfl hnone h
        · exact Grows.idle rfl fun _ hmem => by simp at hmem
    exact Relates.bind (R := fun _ s _ events s' => Grows allowed s events s') (Relates.attempt hcopy)
      (fun _ => lasting_grows.refl) (fun _ _ _ _ h => h) fun _ _ _ _ _ _ _ => lasting_grows.trans

/-! ### What a version gets -/

/-- What stands after provisioning: the directories and the bundled files. -/
def Required (bundle : ResourceBundle) (paths : ConfigPaths) (path : String) : Prop :=
  path ∈ required bundle paths

/-- A path where something is made. -/
def Wide (bundle : ResourceBundle) (paths : ConfigPaths) (path : String) : Prop :=
  Required bundle paths path ∨ path = paths.configFilesDirectory ++ "fastecu.cfg"

/-- Only the required paths are made, or the version is new. -/
def Provisions (bundle : ResourceBundle) (paths : ConfigPaths) (before : Machine) (events : List Change)
    (after : Machine) : Prop :=
  Grows (Required bundle paths) before events after ∨
    before.disk paths.versionConfigDirectory = none ∧ Grows (Wide bundle paths) before events after

theorem Provisions.wide {before after : Machine} {events : List Change}
    (h : Provisions bundle paths before events after) : Grows (Wide bundle paths) before events after :=
  h.elim (fun h => h.mono fun _ => .inl) And.right

theorem lasting_provisions : Lasting (Provisions bundle paths) where
  refl s := .inl (lasting_grows.refl s)
  trans h h' := by
    rcases h with h | ⟨hnew, h⟩
    · rcases h' with h' | ⟨hnew', h'⟩
      · exact .inl (lasting_grows.trans h h')
      · exact .inr ⟨h.none hnew', lasting_grows.trans (h.mono fun _ => .inl) h'⟩
    · exact .inr ⟨hnew, lasting_grows.trans h h'.wide⟩

theorem required_base : Required bundle paths paths.baseConfigDirectory := List.mem_cons_self ..

theorem required_version : Required bundle paths paths.versionConfigDirectory :=
  List.mem_cons_of_mem _ (List.mem_cons_self ..)

theorem required_ensured {path : String} (h : path ∈ ensuredDirectories paths) : Required bundle paths path :=
  List.mem_append_left _ (List.mem_cons_of_mem _ (List.mem_cons_of_mem _ h))

theorem required_bundled {entry : String × String} (h : entry ∈ bundles paths) {name : String}
    (hname : name ∈ (bundle.list entry.1).toOption.getD []) : Required bundle paths (entry.2 ++ name) :=
  List.mem_append_right _ (List.mem_flatMap.2 ⟨entry, h, List.mem_map_of_mem hname⟩)

/-- A new version gets its directories and the settings of the one before. -/
theorem createVersionDirectory_attains :
    Attains (Grows (Wide bundle paths)) (fun s => (s.disk paths.versionConfigDirectory).isSome)
      (createVersionDirectory sorting paths) := by
  refine .bind_last lasting_grows previousConfigFile_always fun previous => ?_
  have hdirectories : Attains (Grows (Wide bundle paths))
      (fun s => ∀ path ∈ [paths.versionConfigDirectory, paths.configFilesDirectory], (s.disk path).isSome)
      (each [paths.versionConfigDirectory, paths.configFilesDirectory] ensureDirectory) := by
    refine Attains.each (G := fun path s => (s.disk path).isSome) lasting_grows (fun hgrows => hgrows.isSome)
      fun path hpath => ensureDirectory_attains (Or.inl ?_)
    simp only [List.mem_cons, List.not_mem_nil, or_false] at hpath
    rcases hpath with rfl | rfl
    · exact required_version
    · exact required_ensured (by simp [ensuredDirectories])
  refine (Attains.bind (H := fun _ => True) lasting_grows
    (fun hgrows hall path hpath => hgrows.isSome (hall path hpath)) hdirectories fun _ s =>
      ⟨carryOver_always (.inr rfl) previous s, fun _ _ => trivial⟩).weaken ?_
  exact fun s h => h.1 _ (List.mem_cons_self ..)

theorem Provisions.isSome {before after : Machine} {events : List Change}
    (h : Provisions bundle paths before events after) {path : String} (hbefore : (before.disk path).isSome) :
    (after.disk path).isSome :=
  h.wide.isSome hbefore

/-- The version's directory stands if the base directory did. -/
theorem ensureVersion_relates :
    Relates (fun s result events s' => Provisions bundle paths s events s' ∧
      ∀ a, result = .ok a → (s.disk paths.baseConfigDirectory).isSome →
        (s'.disk paths.versionConfigDirectory).isSome) (ensureVersion sorting paths) := by
  intro s
  unfold ensureVersion
  by_cases heq : paths.versionConfigDirectory = paths.baseConfigDirectory
  · rw [if_pos heq]
    exact ⟨lasting_provisions.refl s, fun _ _ h => heq ▸ h⟩
  · rw [if_neg heq, pathExists_bind]
    cases hversion : s.disk paths.versionConfigDirectory with
    | some entry => exact ⟨lasting_provisions.refl s, fun _ _ _ => by simp [hversion]⟩
    | none =>
      obtain ⟨hgrows, hattained⟩ := @createVersionDirectory_attains bundle sorting paths s
      exact ⟨.inr ⟨hversion, hgrows⟩, fun a ha _ => hattained a ha⟩

/-- The directories and the bundled files after the version's own directory. -/
theorem directories_attain :
    Attains (Provisions bundle paths)
      (fun s => (∀ path ∈ ensuredDirectories paths, (s.disk path).isSome) ∧
        ∀ entry ∈ bundles paths, ∀ name ∈ (bundle.list entry.1).toOption.getD [], (s.disk (entry.2 ++ name)).isSome)
      (do each (ensuredDirectories paths) ensureDirectory
          each (bundles paths) fun entry => copyBundleIfAbsent bundle entry.1 entry.2) := by
  have hdirectories : Attains (Provisions bundle paths)
      (fun s => ∀ path ∈ ensuredDirectories paths, (s.disk path).isSome)
      (each (ensuredDirectories paths) ensureDirectory) := by
    refine Attains.each (G := fun path s => (s.disk path).isSome) lasting_provisions (fun h => h.isSome) ?_
    intro path hpath s
    have h := ensureDirectory_attains (@required_ensured bundle paths path hpath) s
    exact ⟨.inl h.1, h.2⟩
  refine Attains.bind lasting_provisions (fun h hall path hpath => h.isSome (hall path hpath)) hdirectories fun _ =>
    Attains.each (G := fun (entry : String × String) s => ∀ name ∈ (bundle.list entry.1).toOption.getD [],
      (s.disk (entry.2 ++ name)).isSome) lasting_provisions (fun h hall name hname => h.isSome (hall name hname)) ?_
  intro entry hentry s
  have h := @copyBundleIfAbsent_attains bundle (Required bundle paths) _ _
    (fun name hname => required_bundled hentry hname) s
  exact ⟨.inl h.1, h.2⟩

/-- Everything that is required stands before the logs are removed. -/
theorem provisionFiles_attains :
    Attains (Provisions bundle paths) (fun s => ∀ path, Required bundle paths path → (s.disk path).isSome)
      (provisionFiles bundle sorting paths) := by
  have hbase : Attains (Provisions bundle paths) (fun s => (s.disk paths.baseConfigDirectory).isSome)
      (ensureDirectory paths.baseConfigDirectory) := by
    intro s
    have h := ensureDirectory_attains (@required_base bundle paths) s
    exact ⟨.inl h.1, h.2⟩
  refine Relates.bind (R := fun _ s result events s' => Provisions bundle paths s events s' ∧
      ∀ a, result = .ok a → (s.disk paths.baseConfigDirectory).isSome →
        ∀ path, Required bundle paths path → (s'.disk path).isSome) hbase (fun _ =>
    Relates.bind (@ensureVersion_relates bundle sorting paths) (fun _ => directories_attain) ?_ ?_) ?_ ?_
  · exact fun s e events s' h => ⟨h.1, fun _ he => by cases he⟩
  · intro s a events s' result events' s'' h h'
    refine ⟨lasting_provisions.trans h.1 h'.1, fun b hb hbefore path hpath => ?_⟩
    obtain ⟨hdirectories, hbundles⟩ := h'.2 b hb
    rcases List.mem_append.1 hpath with hpath | hpath
    · simp only [List.mem_cons] at hpath
      rcases hpath with rfl | rfl | hpath
      · exact h'.1.isSome (h.1.isSome hbefore)
      · exact h'.1.isSome (h.2 a rfl hbefore)
      · exact hdirectories path hpath
    · obtain ⟨entry, hentry, hmap⟩ := List.mem_flatMap.1 hpath
      obtain ⟨name, hname, rfl⟩ := List.mem_map.1 hmap
      exact hbundles entry hentry name hname
  · exact fun s e events s' h => ⟨h.1, fun _ he => by cases he⟩
  · intro s a events s' result events' s'' h h'
    exact ⟨lasting_provisions.trans h.1 h'.1, fun b hb => h'.2 b hb (h.2 a rfl)⟩

/-! ### Old logs -/

/-- Logs are removed, and nothing else is done. -/
structure Prunes (paths : ConfigPaths) (sorting : Sorting) (before : Machine) (events : List Change)
    (after : Machine) : Prop where
  kept : ∀ path, .removed path ∉ events → after.disk path = before.disk path
  only : ∀ change ∈ events, (∃ entries, change = .listed paths.syslogFilesDirectory entries) ∨
    ∃ path, change = .removed path
  old : ∀ path, .removed path ∈ events → ∃ entries, .listed paths.syslogFilesDirectory entries ∈ events ∧
    ∃ file ∈ (newestFirst sorting entries false).drop 20, path = paths.syslogFilesDirectory ++ file.name

/-- What is left of a list of logs. -/
theorem removeFiles_relates (files : List DirEntry) :
    Relates (fun s _ events s' => (∀ path, .removed path ∉ events → s'.disk path = s.disk path) ∧
      ∀ change ∈ events, ∃ file ∈ files, change = .removed (paths.syslogFilesDirectory ++ file.name))
      (each files fun entry => mapError (atPath (paths.syslogFilesDirectory ++ entry.name))
        (removeFile (paths.syslogFilesDirectory ++ entry.name))) := by
  induction files with
  | nil => exact fun s => ⟨fun _ _ => rfl, fun _ h => by cases h⟩
  | cons file files ih =>
    have hremove : Relates (fun (s : Machine) (_ : Except Error Unit) events s' =>
        (∀ path, .removed path ∉ events → s'.disk path = s.disk path) ∧
          ∀ change ∈ events, change = .removed (paths.syslogFilesDirectory ++ file.name))
        (mapError (atPath (paths.syslogFilesDirectory ++ file.name))
          (removeFile (paths.syslogFilesDirectory ++ file.name))) := by
      intro s
      simp only [mapError, removeFile, call]
      split
      · refine ⟨fun path hpath => Function.update_of_ne ?_ _ _, fun _ h => List.mem_singleton.1 h⟩
        rintro rfl
        exact hpath (List.mem_singleton.2 rfl)
      · exact ⟨fun _ _ => rfl, fun _ h => by simp at h⟩
    refine Relates.bind hremove (fun _ => ih) ?_ ?_
    · exact fun s e events s' h => ⟨h.1, fun change hmem => ⟨file, List.mem_cons_self .., h.2 change hmem⟩⟩
    · intro s a events s' result events' s'' h h'
      refine ⟨fun path hpath => ?_, fun change hmem => ?_⟩
      · rw [h'.1 path fun hmem => hpath (List.mem_append_right _ hmem),
          h.1 path fun hmem => hpath (List.mem_append_left _ hmem)]
      · rcases List.mem_append.1 hmem with hmem | hmem
        · exact ⟨file, List.mem_cons_self .., h.2 change hmem⟩
        · obtain ⟨file', hfile, rfl⟩ := h'.2 change hmem
          exact ⟨file', List.mem_cons_of_mem _ hfile, rfl⟩

theorem pruneSyslogs_relates :
    Relates (fun s _ events s' => Prunes paths sorting s events s') (pruneSyslogs sorting paths) := by
  intro s
  rw [pruneSyslogs, attempt_bind]
  cases hentries : (s.answers.headD default).entries with
  | error e =>
    have hlist : listDirectory paths.syslogFilesDirectory s = ⟨.error e, [], s.disk, s.answers.tail⟩ := by
      simp only [listDirectory, call, hentries]
      rfl
    rw [hlist]
    exact ⟨fun _ _ => rfl, fun _ h => by simp at h, fun _ h => by simp at h⟩
  | ok entries =>
    have hlist : listDirectory paths.syslogFilesDirectory s =
        ⟨.ok entries, [.listed paths.syslogFilesDirectory entries], s.disk, s.answers.tail⟩ := by
      simp only [listDirectory, call, hentries]
      rfl
    rw [hlist]
    obtain ⟨hkept, honly⟩ := @removeFiles_relates paths ((newestFirst sorting entries false).drop 20)
      ⟨s.disk, s.answers.tail⟩
    refine ⟨fun path hpath => hkept path fun hmem => hpath (List.mem_append_right _ hmem), ?_, ?_⟩
    · intro change hmem
      rcases List.mem_append.1 hmem with hmem | hmem
      · exact .inl ⟨entries, List.mem_singleton.1 hmem⟩
      · obtain ⟨file, -, rfl⟩ := honly change hmem
        exact .inr ⟨_, rfl⟩
    · intro path hmem
      refine ⟨entries, List.mem_append_left _ (List.mem_singleton.2 rfl), ?_⟩
      rcases List.mem_append.1 hmem with hmem | hmem
      · cases List.mem_singleton.1 hmem
      · obtain ⟨file, hfile, heq⟩ := honly _ hmem
        exact ⟨file, hfile, Change.removed.inj heq⟩

/-! ### Provisioning as a whole -/

/-- The twenty newest logs are no older than the others, and none of them is lost in the sorting. -/
theorem newestFirst_take (entries : List DirEntry) {kept file : DirEntry}
    (hkept : kept ∈ (newestFirst sorting entries false).take 20)
    (hfile : file ∈ (newestFirst sorting entries false).drop 20) :
    file.modifiedTimeEpochSeconds ≤ kept.modifiedTimeEpochSeconds ∧ file ∈ entries ∧ file.isDirectory = false := by
  have hsorted := sorting.sorted (entries.filter (·.isDirectory == false))
  rw [← List.take_append_drop 20 (sorting.sort _), List.pairwise_append] at hsorted
  have hmem := (sorting.perm _).mem_iff.1 (List.mem_of_mem_drop hfile)
  obtain ⟨hentries, hkind⟩ := List.mem_filter.1 hmem
  exact ⟨hsorted.2.2 kept hkept file hfile, hentries, by simpa using hkind⟩

/-- What a provisioning did. -/
structure Provisioned (bundle : ResourceBundle) (sorting : Sorting) (paths : ConfigPaths) (before : Machine)
    (result : Except Error Unit) (events : List Change) (after : Machine) : Prop where
  /-- What stood anywhere stands there, unless it was removed. -/
  kept : ∀ path entry, before.disk path = some entry →
    after.disk path = some entry ∨ .removed path ∈ events
  /-- Something is made only where nothing stood: a directory or a bundled file, or the settings of a new version. -/
  fresh : ∀ change ∈ events, ∀ path, change.touched? = some path → before.disk path = none ∧
    (Required bundle paths path ∨
      before.disk paths.versionConfigDirectory = none ∧ path = paths.configFilesDirectory ++ "fastecu.cfg")
  /-- Only logs are removed that are not among the twenty newest ones. -/
  old : ∀ path, .removed path ∈ events → ∃ entries, .listed paths.syslogFilesDirectory entries ∈ events ∧
    ∃ file ∈ entries, file.isDirectory = false ∧ path = paths.syslogFilesDirectory ++ file.name ∧
      20 < (entries.filter (·.isDirectory == false)).length ∧
      ∀ kept ∈ (newestFirst sorting entries false).take 20,
        file.modifiedTimeEpochSeconds ≤ kept.modifiedTimeEpochSeconds
  /-- Everything that is required stands at the end of a provisioning that succeeds. -/
  complete : result = .ok () → ∀ path, Required bundle paths path →
    (after.disk path).isSome ∨ .removed path ∈ events

/-- Whichever calls fail and whatever the directories list. -/
theorem provision_provisioned (bundle : ResourceBundle) (sorting : Sorting) (paths : ConfigPaths) (s : Machine) :
    Provisioned bundle sorting paths s (provisionConfigDirectories bundle sorting paths s).result
      (provisionConfigDirectories bundle sorting paths s).events
      (provisionConfigDirectories bundle sorting paths s).state := by
  refine Relates.bind (Q := Provisioned bundle sorting paths)
    (P := fun s result events s' => Provisions bundle paths s events s' ∧
      ∀ a, result = .ok a → ∀ path, Required bundle paths path → (s'.disk path).isSome)
    (R := fun _ s _ events s' => Prunes paths sorting s events s')
    provisionFiles_attains (fun _ => pruneSyslogs_relates) ?_ ?_ s
  · rintro s e events s' ⟨hprovisions, -⟩
    refine ⟨fun path entry h => .inl (hprovisions.wide.kept path entry h), ?_, ?_, fun h => by cases h⟩
    · intro change hmem path hpath
      rcases hprovisions with h | ⟨hnew, h⟩
      · exact ⟨(h.fresh change hmem path hpath).1, .inl (h.fresh change hmem path hpath).2⟩
      · exact ⟨(h.fresh change hmem path hpath).1,
          (h.fresh change hmem path hpath).2.imp_right fun heq => ⟨hnew, heq⟩⟩
    · exact fun path hmem => absurd hmem (hprovisions.wide.clean path)
  · rintro s ⟨⟩ events s' result events' s'' ⟨hprovisions, hrequired⟩ hprunes
    -- a removal is one of the second part
    have hremoved : ∀ path, .removed path ∈ events ++ events' ↔ .removed path ∈ events' := by
      intro path
      rw [List.mem_append, or_iff_right (hprovisions.wide.clean path)]
    have hlast : ∀ path, s''.disk path = s'.disk path ∨ .removed path ∈ events ++ events' := by
      intro path
      rw [hremoved]
      exact (Classical.em _).symm.imp_left (hprunes.kept path)
    refine ⟨fun path entry h => ?_, ?_, ?_, fun _ path hpath => ?_⟩
    · exact (hlast path).imp_left fun heq => heq.trans (hprovisions.wide.kept path entry h)
    · intro change hmem path hpath
      rcases List.mem_append.1 hmem with hmem | hmem
      · rcases hprovisions with h | ⟨hnew, h⟩
        · exact ⟨(h.fresh change hmem path hpath).1, .inl (h.fresh change hmem path hpath).2⟩
        · exact ⟨(h.fresh change hmem path hpath).1,
            (h.fresh change hmem path hpath).2.imp_right fun heq => ⟨hnew, heq⟩⟩
      · rcases hprunes.only change hmem with ⟨entries, rfl⟩ | ⟨path', rfl⟩
        · cases hpath
        · cases hpath
    · intro path hmem
      obtain ⟨entries, hlisted, file, hfile, rfl⟩ := hprunes.old path ((hremoved path).1 hmem)
      have hlength : 20 < (newestFirst sorting entries false).length := by
        have := List.length_pos_of_mem hfile
        rw [List.length_drop] at this
        omega
      obtain ⟨kept, hkept⟩ := List.exists_mem_of_length_pos
        (l := (newestFirst sorting entries false).take 20) (by rw [List.length_take]; omega)
      obtain ⟨-, hentries, hkind⟩ := newestFirst_take entries hkept hfile
      refine ⟨entries, List.mem_append_right _ hlisted, file, hentries, hkind, rfl, ?_,
        fun kept' hkept' => (newestFirst_take entries hkept' hfile).1⟩
      rwa [newestFirst, (sorting.perm _).length_eq] at hlength
    · exact (hlast path).imp_left fun heq => by
        rw [heq]
        exact hrequired () rfl path hpath

/-- Insertion, which is one way to sort. -/
def byInsertion : Sorting where
  sort entries := entries.insertionSort fun a b => b.modifiedTimeEpochSeconds ≤ a.modifiedTimeEpochSeconds
  perm entries := List.perm_insertionSort _ entries
  sorted entries := by
    have : Std.Total fun a b : DirEntry => b.modifiedTimeEpochSeconds ≤ a.modifiedTimeEpochSeconds :=
      ⟨fun a b => le_total b.modifiedTimeEpochSeconds a.modifiedTimeEpochSeconds⟩
    have : IsTrans DirEntry fun a b => b.modifiedTimeEpochSeconds ≤ a.modifiedTimeEpochSeconds :=
      ⟨fun a b c hab hbc => hbc.trans hab⟩
    exact List.pairwise_insertionSort _ entries

/-- A bundle with one kernel. -/
def someBundle : ResourceBundle where
  list id := if id = "kernels" then .ok ["k.bin"] else .error ⟨.invalidConfig, "unknown bundle"⟩
  read _ _ := .ok [0xFF]

end FastEcu.Config
