import FastEcu.Logging.RunSnapshot

/-!
# What the ECU supports

`LoggerModel` (`src/backend/logging/logger_model.cpp`) under a run of its operations: a definition is
installed once, the flags of parameters and switches are kept by protocol and id, and the capability bytes
of an ECU decide which measurements are offered.

* `LoggerItem`, `LoggerDefinition` : a definition, with the fields that decide what is offered.
* `SupportModel`, `SupportEvent`, `SupportModel.after` : the model and its operations.
* `SupportEvent.flagAfter` : what an operation says of the flag of one identity.
* `run_support` : every flag of a run is what the run says of its own identity, and the model of a logging
  run reads that flag.
* `defaultSelection_capabilities` : after the capability bytes of an ECU the default selection is what
  they offer, in the order of the definition and up to the limits of the panels.
-/

namespace FastEcu.Logging

/-! ### The definition -/

/-- `LoggerIdentity`. -/
abbrev LoggerIdentity := String × String

/-- The fields of `LoggerParameter` and `LoggerSwitch` that decide whether they are offered. -/
structure LoggerTraits where
  ecuByteIndex : String := ""
  ecuBit : String := ""
  enabled : Bool := false
deriving DecidableEq, Repr

/-- A parameter or a switch, as far as its flag goes. -/
structure LoggerItem extends LoggerTraits where
  identity : LoggerIdentity
deriving DecidableEq, Repr

/-- `LoggerDefinition`. -/
structure LoggerDefinition where
  parameters : List (LoggerParameter × LoggerTraits) := []
  switches : List (LoggerSwitch × LoggerTraits) := []
deriving DecidableEq, Repr

/-- The items of a namespace, in the order of the definition. -/
def LoggerDefinition.items (definition : LoggerDefinition) : LoggingMeasurementKind → List LoggerItem
  | .parameter => definition.parameters.map fun p => { p.2 with identity := (p.1.protocol, p.1.id) }
  | .switch => definition.switches.map fun s => { s.2 with identity := (s.1.protocol, s.1.id) }

/-! ### The flags of a namespace -/

/-- `std::map<LoggerIdentity, EcuSupport>`. -/
abbrev SupportFlags := LoggerIdentity → Option EcuSupport

/-- `std::map::emplace`: a key that is there keeps its flag. -/
def SupportFlags.emplace (flags : SupportFlags) (key : LoggerIdentity) (value : EcuSupport) :
    SupportFlags :=
  if (flags key).isSome then flags else Function.update flags key (some value)

/-- `Update`: only a key that is there gets the flag. -/
def SupportFlags.update (flags : SupportFlags) (key : LoggerIdentity) (value : EcuSupport) :
    SupportFlags :=
  if (flags key).isSome then Function.update flags key (some value) else flags

/-- The loop of `ResetSupport` over the keys of a protocol. -/
def SupportFlags.resetProtocol (flags : SupportFlags) (protocol : String) : SupportFlags := fun key =>
  if key.1 = protocol then (flags key).map fun _ => .unknown else flags key

/-- The loop of `ResetSupport` over all keys. -/
def SupportFlags.reset (flags : SupportFlags) : SupportFlags := fun key =>
  (flags key).map fun _ => .unknown

/-- `Capability`. -/
def capability (indexText bitText : String) (bytes : Bytes) : EcuSupport :=
  match parseUnsigned indexText 10 4294967296, parseUnsigned bitText 10 4294967296 with
  | some index, some bit =>
    if index ≥ bytes.length ∨ bit ≥ 8 then .unknown
    else if byteAt bytes index &&& (1 <<< UInt8.ofNat bit) ≠ 0 then .supported
    else .unsupported
  | _, _ => .unknown

/-- One turn of a loop of `ApplyCapabilities`. -/
def SupportFlags.applyItem (protocol : String) (capabilities : Bytes) (flags : SupportFlags)
    (item : LoggerItem) : SupportFlags :=
  if item.identity.1 = protocol then
    flags.update (protocol, item.identity.2) (capability item.ecuByteIndex item.ecuBit capabilities)
  else flags

/-- `ApplyCapabilities` in one namespace. -/
def SupportFlags.applyCapabilities (flags : SupportFlags) (items : List LoggerItem) (protocol : String)
    (capabilities : Bytes) : SupportFlags :=
  items.foldl (SupportFlags.applyItem protocol capabilities) (flags.resetProtocol protocol)

/-- The emplacing loop of `InstallDefinition`. -/
def SupportFlags.declare (flags : SupportFlags) (items : List LoggerItem) : SupportFlags :=
  items.foldl (fun flags item => flags.emplace item.identity .unknown) flags

/-- `ParameterAvailable` and `SwitchAvailable`. -/
def SupportFlags.available (flags : SupportFlags) (items : List LoggerItem) (key : LoggerIdentity) : Bool :=
  match items.find? (·.identity = key) with
  | none => false
  | some item =>
    match (flags key).getD .unknown with
    | .supported => true
    | .unknown => item.enabled
    | .unsupported => false

/-! ### The model -/

/-- `LoggerModel` with all its fields. -/
structure SupportModel extends LoggerModel where
  installed : Bool := false
  parameterItems : List LoggerItem := []
  switchItems : List LoggerItem := []

/-- The items of a namespace. -/
def SupportModel.items (model : SupportModel) : LoggingMeasurementKind → List LoggerItem
  | .parameter => model.parameterItems
  | .switch => model.switchItems

/-- The flags of a namespace. -/
def SupportModel.flags (model : SupportModel) : LoggingMeasurementKind → SupportFlags
  | .parameter => model.parameterSupportMap
  | .switch => model.switchSupportMap

/-- The protocol of `DefaultSelection`. -/
def SupportModel.defaultProtocol (model : SupportModel) (protocol : String) : String :=
  let chosen := if protocol = "" then model.selection.protocol else protocol
  if chosen ≠ "" then chosen
  else
    match model.parameterItems, model.switchItems with
    | item :: _, _ => item.identity.1
    | [], item :: _ => item.identity.1
    | [], [] => ""

/-- `push_back` up to a limit. -/
def pushBelow (limit : ℕ) (ids : List String) (id : String) : List String :=
  if ids.length < limit then ids ++ [id] else ids

/-- Whether `DefaultSelection` takes an item of a namespace. -/
def SupportModel.selects (model : SupportModel) (kind : LoggingMeasurementKind) (protocol : String)
    (item : LoggerItem) : Bool :=
  item.identity.1 = protocol && (model.flags kind).available (model.items kind) item.identity

/-- `DefaultSelection`. -/
def SupportModel.defaultSelection (model : SupportModel) (protocol : String) : LoggerSelection :=
  let chosen := model.defaultProtocol protocol
  let result := model.parameterItems.foldl (fun result item =>
    if model.selects .parameter chosen item then
      { result with
        gaugeIds := pushBelow 15 result.gaugeIds item.identity.2
        lowerPanelIds := pushBelow 12 result.lowerPanelIds item.identity.2 }
    else result) ({ protocol := chosen } : LoggerSelection)
  model.switchItems.foldl (fun result item =>
    if model.selects .switch chosen item then
      { result with switchIds := pushBelow 20 result.switchIds item.identity.2 }
    else result) result

/-- `InstallDefinition` of a model without a definition. -/
def SupportModel.install (model : SupportModel) (definition : LoggerDefinition) : SupportModel :=
  let parameterItems := definition.items .parameter
  let switchItems := definition.items .switch
  let model : SupportModel :=
    { model with
      installed := true
      parameters := definition.parameters.map Prod.fst
      switches := definition.switches.map Prod.fst
      parameterItems
      switchItems
      parameterSupportMap := SupportFlags.declare model.parameterSupportMap parameterItems
      switchSupportMap := SupportFlags.declare model.switchSupportMap switchItems }
  { model with selection := model.defaultSelection "" }

/-- An operation of `LoggerModel`. -/
inductive SupportEvent
  | installDefinition (definition : LoggerDefinition)
  | setSelection (selection : LoggerSelection)
  | setParameterSupport (key : LoggerIdentity) (state : EcuSupport)
  | setSwitchSupport (key : LoggerIdentity) (state : EcuSupport)
  | resetProtocol (protocol : String)
  | resetSupport
  | applyCapabilities (protocol : String) (capabilities : Bytes)

/-- The model after an operation. -/
def SupportModel.after (model : SupportModel) : SupportEvent → SupportModel
  | .installDefinition definition => if model.installed then model else model.install definition
  | .setSelection selection => { model with selection }
  | .setParameterSupport key state =>
    { model with parameterSupportMap := SupportFlags.update model.parameterSupportMap key state }
  | .setSwitchSupport key state =>
    { model with switchSupportMap := SupportFlags.update model.switchSupportMap key state }
  | .resetProtocol protocol =>
    { model with
      parameterSupportMap := SupportFlags.resetProtocol model.parameterSupportMap protocol
      switchSupportMap := SupportFlags.resetProtocol model.switchSupportMap protocol }
  | .resetSupport =>
    { model with
      parameterSupportMap := SupportFlags.reset model.parameterSupportMap
      switchSupportMap := SupportFlags.reset model.switchSupportMap }
  | .applyCapabilities protocol capabilities =>
    { model with
      parameterSupportMap := SupportFlags.applyCapabilities model.parameterSupportMap model.parameterItems
        protocol capabilities
      switchSupportMap := SupportFlags.applyCapabilities model.switchSupportMap model.switchItems
        protocol capabilities }

/-- A run of a new model. -/
def SupportModel.run (events : List SupportEvent) : SupportModel := events.foldl SupportModel.after {}

/-! ### The flag of one identity -/

/-- What the capability bytes say of an identity: the last item with it decides. -/
def evidence (items : List LoggerItem) (key : LoggerIdentity) (capabilities : Bytes) : EcuSupport :=
  items.foldl (fun flag item =>
    if item.identity = key then capability item.ecuByteIndex item.ecuBit capabilities else flag) .unknown

/-- What an operation makes of the flag of one identity of a definition. -/
def SupportEvent.flagAfter (kind : LoggingMeasurementKind) (items : List LoggerItem) (key : LoggerIdentity)
    (flag : EcuSupport) : SupportEvent → EcuSupport
  | .installDefinition _ => flag
  | .setSelection _ => flag
  | .setParameterSupport changed state => if kind = .parameter ∧ changed = key then state else flag
  | .setSwitchSupport changed state => if kind = .switch ∧ changed = key then state else flag
  | .resetProtocol protocol => if protocol = key.1 then .unknown else flag
  | .resetSupport => .unknown
  | .applyCapabilities protocol capabilities =>
    if protocol = key.1 then evidence items key capabilities else flag

/-- The flag of one identity after a run. -/
def flagAfterAll (kind : LoggingMeasurementKind) (items : List LoggerItem) (key : LoggerIdentity)
    (events : List SupportEvent) (flag : EcuSupport) : EcuSupport :=
  events.foldl (fun flag event => event.flagAfter kind items key flag) flag

/-- The operation installs a definition. -/
def SupportEvent.Installs : SupportEvent → Prop
  | .installDefinition _ => True
  | _ => False

namespace SupportFlags

theorem emplace_apply (flags : SupportFlags) (key k : LoggerIdentity) (value : EcuSupport) :
    flags.emplace key value k =
      if (flags k).isSome then flags k else if key = k then some value else none := by
  unfold emplace
  by_cases hk : key = k
  · subst hk
    split <;> simp_all
  · have hne : k ≠ key := fun h => hk h.symm
    cases hflag : flags k <;> split <;> simp [Function.update_of_ne hne, hflag]

theorem update_apply (flags : SupportFlags) (key k : LoggerIdentity) (value : EcuSupport) :
    flags.update key value k = (flags k).map fun flag => if key = k then value else flag := by
  unfold update
  by_cases hk : key = k
  · subst hk
    cases hflag : flags key <;> simp [hflag]
  · have hne : k ≠ key := fun h => hk h.symm
    split <;> simp [Function.update_of_ne hne]

theorem resetProtocol_apply (flags : SupportFlags) (protocol : String) (key : LoggerIdentity) :
    flags.resetProtocol protocol key =
      (flags key).map fun flag => if protocol = key.1 then .unknown else flag := by
  unfold resetProtocol
  by_cases h : key.1 = protocol
  · simp [h]
  · have hne : protocol ≠ key.1 := fun h' => h h'.symm
    simp [h, hne]

/-- An item of another identity leaves a flag as it is. -/
theorem applyItem_apply (protocol : String) (capabilities : Bytes) (flags : SupportFlags)
    (item : LoggerItem) (key : LoggerIdentity) :
    flags.applyItem protocol capabilities item key = (flags key).map fun flag =>
      if item.identity.1 = protocol ∧ item.identity = key then
        capability item.ecuByteIndex item.ecuBit capabilities
      else flag := by
  unfold applyItem
  by_cases h : item.identity.1 = protocol
  · subst h
    rw [if_pos rfl, update_apply]
    simp
  · simp [h]

theorem foldl_applyItem (protocol : String) (capabilities : Bytes) (items : List LoggerItem)
    (flags : SupportFlags) (key : LoggerIdentity) :
    items.foldl (applyItem protocol capabilities) flags key = (flags key).map fun flag =>
      items.foldl (fun flag item =>
        if item.identity.1 = protocol ∧ item.identity = key then
          capability item.ecuByteIndex item.ecuBit capabilities
        else flag) flag := by
  induction items generalizing flags with
  | nil => simp
  | cons item items ih =>
    rw [List.foldl_cons, ih, applyItem_apply, Option.map_map]
    rfl

/-- The capability bytes decide the flags of their protocol and no others. -/
theorem applyCapabilities_apply (flags : SupportFlags) (items : List LoggerItem) (protocol : String)
    (capabilities : Bytes) (key : LoggerIdentity) :
    flags.applyCapabilities items protocol capabilities key = (flags key).map fun flag =>
      if protocol = key.1 then evidence items key capabilities else flag := by
  rw [applyCapabilities, foldl_applyItem, resetProtocol_apply, Option.map_map]
  by_cases h : protocol = key.1
  · subst h
    -- an item of this identity is one of the protocol
    have hturn : (fun (flag : EcuSupport) (item : LoggerItem) =>
        if item.identity.1 = key.1 ∧ item.identity = key then
          capability item.ecuByteIndex item.ecuBit capabilities
        else flag) = fun flag item =>
        if item.identity = key then capability item.ecuByteIndex item.ecuBit capabilities else flag := by
      funext flag item
      by_cases hkey : item.identity = key
      · rw [if_pos ⟨congrArg Prod.fst hkey, hkey⟩, if_pos hkey]
      · rw [if_neg (fun h => hkey h.2), if_neg hkey]
    rw [hturn]
    simp [evidence, Function.comp_def]
  · -- an item of the protocol has another identity
    have hturn : (fun (flag : EcuSupport) (item : LoggerItem) =>
        if item.identity.1 = protocol ∧ item.identity = key then
          capability item.ecuByteIndex item.ecuBit capabilities
        else flag) = fun flag _ => flag := by
      funext flag item
      refine if_neg ?_
      rintro ⟨hprotocol, hkey⟩
      exact h (hprotocol.symm.trans (congrArg Prod.fst hkey))
    rw [hturn]
    simp [h, Function.comp_def]

theorem declare_apply (items : List LoggerItem) (flags : SupportFlags) (key : LoggerIdentity) :
    flags.declare items key =
      if (flags key).isSome then flags key
      else if ∃ item ∈ items, item.identity = key then some .unknown else none := by
  induction items generalizing flags with
  | nil =>
    cases hflag : flags key <;> simp [declare, hflag]
  | cons item items ih =>
    have hdeclare : flags.declare (item :: items) =
        (flags.emplace item.identity .unknown).declare items := rfl
    rw [hdeclare, ih, emplace_apply]
    cases hflag : flags key with
    | some flag => simp
    | none =>
      by_cases hkey : item.identity = key
      · simp [hkey]
      · simp [hkey]

end SupportFlags

/-! ### One operation -/

/-- The flag of an identity after an operation depends on its flag before, and on no other. -/
theorem SupportModel.after_flags (model : SupportModel) (event : SupportEvent)
    (h : model.installed = true ∨ ¬ event.Installs) (kind : LoggingMeasurementKind) (key : LoggerIdentity) :
    (model.after event).flags kind key =
      (model.flags kind key).map fun flag => event.flagAfter kind (model.items kind) key flag := by
  cases event with
  | installDefinition definition =>
    have hinstalled : model.installed = true := h.resolve_right fun hn => hn trivial
    simp [SupportModel.after, hinstalled, SupportEvent.flagAfter]
  | setSelection selection => cases kind <;> simp [SupportModel.after, flags, SupportEvent.flagAfter]
  | setParameterSupport changed state =>
    cases kind <;> simp [SupportModel.after, flags, SupportEvent.flagAfter, SupportFlags.update_apply]
  | setSwitchSupport changed state =>
    cases kind <;> simp [SupportModel.after, flags, SupportEvent.flagAfter, SupportFlags.update_apply]
  | resetProtocol protocol =>
    cases kind <;>
      simp [SupportModel.after, flags, SupportEvent.flagAfter, SupportFlags.resetProtocol_apply]
  | resetSupport =>
    cases kind <;> simp [SupportModel.after, flags, SupportEvent.flagAfter, SupportFlags.reset]
  | applyCapabilities protocol capabilities =>
    cases kind <;>
      simp [SupportModel.after, flags, items, SupportEvent.flagAfter, SupportFlags.applyCapabilities_apply]

/-- The definition of a model, with whether it is installed. -/
def SupportModel.Defines (model model' : SupportModel) : Prop :=
  model'.installed = model.installed ∧ model'.parameters = model.parameters ∧
    model'.switches = model.switches ∧ ∀ kind, model'.items kind = model.items kind

/-- Only the first installation changes the definition. -/
theorem SupportModel.after_defines (model : SupportModel) (event : SupportEvent)
    (h : model.installed = true ∨ ¬ event.Installs) : model.Defines (model.after event) := by
  cases event with
  | installDefinition definition =>
    have hinstalled : model.installed = true := h.resolve_right fun hn => hn trivial
    rw [SupportModel.after, if_pos hinstalled]
    exact ⟨rfl, rfl, rfl, fun _ => rfl⟩
  | setSelection selection => exact ⟨rfl, rfl, rfl, fun kind => by cases kind <;> rfl⟩
  | setParameterSupport key state => exact ⟨rfl, rfl, rfl, fun kind => by cases kind <;> rfl⟩
  | setSwitchSupport key state => exact ⟨rfl, rfl, rfl, fun kind => by cases kind <;> rfl⟩
  | resetProtocol protocol => exact ⟨rfl, rfl, rfl, fun kind => by cases kind <;> rfl⟩
  | resetSupport => exact ⟨rfl, rfl, rfl, fun kind => by cases kind <;> rfl⟩
  | applyCapabilities protocol capabilities => exact ⟨rfl, rfl, rfl, fun kind => by cases kind <;> rfl⟩

/-- The flags after the installation: every identity of the definition has one, and it is unknown. -/
theorem SupportModel.install_flags (model : SupportModel) (definition : LoggerDefinition)
    (kind : LoggingMeasurementKind) (key : LoggerIdentity) :
    (model.install definition).flags kind key =
      if (model.flags kind key).isSome then model.flags kind key
      else if ∃ item ∈ definition.items kind, item.identity = key then some .unknown else none := by
  cases kind <;> exact SupportFlags.declare_apply _ _ key

/-! ### Runs -/

/-- A run keeps the definition and takes each flag through its own history. -/
theorem SupportModel.foldl_after (events : List SupportEvent) (model : SupportModel)
    (h : model.installed = true ∨ ∀ e ∈ events, ¬ e.Installs) :
    model.Defines (events.foldl SupportModel.after model) ∧
      ∀ kind key, (events.foldl SupportModel.after model).flags kind key =
        (model.flags kind key).map (flagAfterAll kind (model.items kind) key events) := by
  induction events generalizing model with
  | nil => exact ⟨⟨rfl, rfl, rfl, fun _ => rfl⟩, fun kind key => (congrFun Option.map_id _).symm⟩
  | cons event events ih =>
    have hevent : model.installed = true ∨ ¬ event.Installs :=
      h.imp_right fun hn => hn event (List.mem_cons_self ..)
    obtain ⟨hinstalled, hparameters, hswitches, hitems⟩ := model.after_defines event hevent
    have hrest : (model.after event).installed = true ∨ ∀ e ∈ events, ¬ e.Installs := by
      rw [hinstalled]
      exact h.imp_right fun hn e he => hn e (List.mem_cons_of_mem _ he)
    obtain ⟨⟨hinstalled', hparameters', hswitches', hitems'⟩, hflags⟩ := ih (model.after event) hrest
    refine ⟨⟨hinstalled'.trans hinstalled, hparameters'.trans hparameters, hswitches'.trans hswitches,
      fun kind => (hitems' kind).trans (hitems kind)⟩, ?_⟩
    intro kind key
    rw [List.foldl_cons, hflags, hitems, model.after_flags event hevent, Option.map_map]
    rfl

/-- Every flag of a run is what the operations since the installation say of its own identity: a flag of
another identity, of another protocol or of the other namespace never reaches it, and an identity that
the definition does not name stays unknown. -/
theorem run_support (before after : List SupportEvent) (definition : LoggerDefinition)
    (hbefore : ∀ e ∈ before, ¬ e.Installs) :
    let model := SupportModel.run (before ++ .installDefinition definition :: after)
    model.parameters = definition.parameters.map Prod.fst ∧
      model.switches = definition.switches.map Prod.fst ∧
      ∀ kind key, supportOf model.toLoggerModel key.1 kind key.2 =
        if ∃ item ∈ definition.items kind, item.identity = key then
          flagAfterAll kind (definition.items kind) key after .unknown
        else .unknown := by
  intro model
  obtain ⟨⟨hnew, -, -, -⟩, hblank⟩ := SupportModel.foldl_after before {} (.inr hbefore)
  set first := before.foldl SupportModel.after {} with hfirst
  have hinstall : first.after (.installDefinition definition) = first.install definition := by
    rw [SupportModel.after, if_neg (by rw [hnew]; exact Bool.false_ne_true)]
  have hmodel : model = after.foldl SupportModel.after (first.install definition) := by
    rw [← hinstall, hfirst]
    exact List.foldl_append
  obtain ⟨⟨-, hparameters, hswitches, -⟩, hflags⟩ :=
    SupportModel.foldl_after after (first.install definition) (.inl rfl)
  rw [hmodel]
  refine ⟨hparameters, hswitches, ?_⟩
  intro kind key
  have hitems : (first.install definition).items kind = definition.items kind := by cases kind <;> rfl
  have hnone : first.flags kind key = none := by
    rw [hblank]
    cases kind <;> rfl
  have hflag : (after.foldl SupportModel.after (first.install definition)).flags kind key =
      if ∃ item ∈ definition.items kind, item.identity = key then
        some (flagAfterAll kind (definition.items kind) key after .unknown)
      else none := by
    rw [hflags, hitems, first.install_flags, hnone]
    split <;> simp_all
  have hsupport (model : SupportModel) :
      supportOf model.toLoggerModel key.1 kind key.2 = (model.flags kind key).getD .unknown := by
    cases kind <;> rfl
  rw [hsupport, hflag]
  split <;> rfl

/-- A definition with an id in both namespaces. -/
def sharedIdDefinition : LoggerDefinition where
  parameters :=
    [(⟨"SSM", "rpm", "Engine Speed", "0x08", "2", [], []⟩, ⟨"0", "1", true⟩),
     (⟨"SSM", "boost", "Boost", "0x24", "1", [], []⟩, ⟨"9", "0", true⟩)]
  switches := [(⟨"SSM", "rpm", "Speed flag", "0x62", "0"⟩, ⟨"0", "0", true⟩)]

theorem run_support_sharedId :
    supportOf (SupportModel.run [.setParameterSupport ("SSM", "rpm") .supported,
        .installDefinition sharedIdDefinition, .setSwitchSupport ("SSM", "rpm") .unsupported]).toLoggerModel
      "SSM" .parameter "rpm" = .unknown :=
  (run_support [.setParameterSupport ("SSM", "rpm") .supported]
    [.setSwitchSupport ("SSM", "rpm") .unsupported] sharedIdDefinition
    (List.forall_mem_singleton.2 id)).2.2 .parameter ("SSM", "rpm")

/-! ### The default selection -/

/-- The capability bytes offer an identity: its bit is set, or nothing is known of it and its first entry
is enabled. -/
def offers (items : List LoggerItem) (capabilities : Bytes) (key : LoggerIdentity) : Bool :=
  match evidence items key capabilities with
  | .supported => true
  | .unknown => (items.find? (·.identity = key)).any (·.enabled)
  | .unsupported => false

/-- The ids of a protocol that the capability bytes offer, in the order of the definition. -/
def offered (items : List LoggerItem) (protocol : String) (capabilities : Bytes) : List String :=
  (items.filter fun item => item.identity.1 = protocol && offers items capabilities item.identity).map
    (·.identity.2)

/-- The operation leaves the flags of a protocol as they are, on a model with a definition. -/
def SupportEvent.Spares (protocol : String) : SupportEvent → Prop
  | .installDefinition _ => True
  | .setSelection _ => True
  | .setParameterSupport key _ => key.1 ≠ protocol
  | .setSwitchSupport key _ => key.1 ≠ protocol
  | .resetProtocol other => other ≠ protocol
  | .resetSupport => False
  | .applyCapabilities other _ => other ≠ protocol

theorem SupportEvent.flagAfter_of_spares {event : SupportEvent} {key : LoggerIdentity}
    (h : event.Spares key.1) (kind : LoggingMeasurementKind) (items : List LoggerItem) (flag : EcuSupport) :
    event.flagAfter kind items key flag = flag := by
  cases event with
  | installDefinition definition => rfl
  | setSelection selection => rfl
  | setParameterSupport changed state =>
    refine if_neg ?_
    rintro ⟨-, rfl⟩
    exact h rfl
  | setSwitchSupport changed state =>
    refine if_neg ?_
    rintro ⟨-, rfl⟩
    exact h rfl
  | resetProtocol protocol => exact if_neg h
  | resetSupport => exact absurd h id
  | applyCapabilities protocol capabilities => exact if_neg h

theorem flagAfterAll_of_spares {events : List SupportEvent} {key : LoggerIdentity}
    (h : ∀ e ∈ events, e.Spares key.1) (kind : LoggingMeasurementKind) (items : List LoggerItem)
    (flag : EcuSupport) : flagAfterAll kind items key events flag = flag := by
  induction events with
  | nil => rfl
  | cons event events ih =>
    rw [flagAfterAll, List.foldl_cons, SupportEvent.flagAfter_of_spares (h event (List.mem_cons_self ..))]
    exact ih fun e he => h e (List.mem_cons_of_mem _ he)

/-- Every identity of the definition has a flag. -/
def SupportModel.Declared (model : SupportModel) : Prop :=
  ∀ kind, ∀ item ∈ model.items kind, (model.flags kind item.identity).isSome

theorem SupportModel.Declared.after {model : SupportModel} (h : model.Declared) (event : SupportEvent) :
    (model.after event).Declared := by
  by_cases hkeeps : model.installed = true ∨ ¬ event.Installs
  · intro kind item hitem
    obtain ⟨-, -, -, hitems⟩ := model.after_defines event hkeeps
    rw [hitems] at hitem
    rw [model.after_flags event hkeeps, Option.isSome_map]
    exact h kind item hitem
  · obtain ⟨hnew, hinstalls⟩ := not_or.1 hkeeps
    cases event with
    | installDefinition definition =>
      rw [SupportModel.after, if_neg hnew]
      intro kind item hitem
      have hdeclared : ∃ item' ∈ definition.items kind, item'.identity = item.identity :=
        ⟨item, by cases kind <;> exact hitem, rfl⟩
      rw [model.install_flags, if_pos hdeclared]
      split <;> simp_all
    | setSelection selection => exact absurd id hinstalls
    | setParameterSupport key state => exact absurd id hinstalls
    | setSwitchSupport key state => exact absurd id hinstalls
    | resetProtocol protocol => exact absurd id hinstalls
    | resetSupport => exact absurd id hinstalls
    | applyCapabilities protocol capabilities => exact absurd id hinstalls

theorem SupportModel.Declared.foldl {model : SupportModel} (h : model.Declared)
    (events : List SupportEvent) : (events.foldl SupportModel.after model).Declared := by
  induction events generalizing model with
  | nil => exact h
  | cons event events ih => exact ih (h.after event)

theorem SupportModel.declared_run (events : List SupportEvent) : (SupportModel.run events).Declared := by
  refine SupportModel.Declared.foldl ?_ events
  intro kind item hitem
  cases kind <;> cases hitem

theorem foldl_pushBelow (limit : ℕ) (ids taken : List String) (h : taken.length ≤ limit) :
    ids.foldl (pushBelow limit) taken = (taken ++ ids).take limit := by
  induction ids generalizing taken with
  | nil => simp [List.take_of_length_le h]
  | cons id ids ih =>
    rw [List.foldl_cons, pushBelow]
    by_cases hlt : taken.length < limit
    · rw [if_pos hlt, ih _ (by simp; omega), List.append_assoc]
      rfl
    · have hfull : taken.length = limit := by omega
      rw [if_neg hlt, ih _ h, ← hfull]
      simp

theorem foldl_selectParameter (items : List LoggerItem) (result : LoggerSelection) :
    items.foldl (fun result item =>
      { result with
        gaugeIds := pushBelow 15 result.gaugeIds item.identity.2
        lowerPanelIds := pushBelow 12 result.lowerPanelIds item.identity.2 }) result =
    { result with
      gaugeIds := (items.map (·.identity.2)).foldl (pushBelow 15) result.gaugeIds
      lowerPanelIds := (items.map (·.identity.2)).foldl (pushBelow 12) result.lowerPanelIds } := by
  induction items generalizing result with
  | nil => rfl
  | cons item items ih => exact ih _

theorem foldl_selectSwitch (items : List LoggerItem) (result : LoggerSelection) :
    items.foldl (fun result item =>
      { result with switchIds := pushBelow 20 result.switchIds item.identity.2 }) result =
    { result with switchIds := (items.map (·.identity.2)).foldl (pushBelow 20) result.switchIds } := by
  induction items generalizing result with
  | nil => rfl
  | cons item items ih => exact ih _

/-- The lists of the default selection are the first ids of the items it takes. -/
theorem SupportModel.defaultSelection_eq (model : SupportModel) (protocol : String) :
    let chosen := model.defaultProtocol protocol
    let ids := fun kind => ((model.items kind).filter (model.selects kind chosen)).map (·.identity.2)
    model.defaultSelection protocol =
      { protocol := chosen
        gaugeIds := (ids .parameter).take 15
        lowerPanelIds := (ids .parameter).take 12
        switchIds := (ids .switch).take 20 } := by
  intro chosen ids
  have htake (limit : ℕ) (taken : List String) : taken.foldl (pushBelow limit) [] = taken.take limit :=
    foldl_pushBelow limit taken [] (Nat.zero_le _)
  -- a loop that skips some items is one over the items it takes
  rw [SupportModel.defaultSelection, ← List.foldl_filter, ← List.foldl_filter, foldl_selectParameter,
    foldl_selectSwitch]
  simp only [htake]
  rfl

/-- After the capability bytes of an ECU, and whatever does not concern its protocol, the default selection
of the protocol is what the bytes offer: the first fifteen gauges, the first twelve of them for the lower
panel, and the first twenty switches. -/
theorem defaultSelection_capabilities (before quiet : List SupportEvent) (protocol : String)
    (capabilities : Bytes) (hprotocol : protocol ≠ "")
    (hinstalled : (SupportModel.run before).installed = true) (hquiet : ∀ e ∈ quiet, e.Spares protocol) :
    let model := SupportModel.run (before ++ .applyCapabilities protocol capabilities :: quiet)
    let ids := fun kind => offered ((SupportModel.run before).items kind) protocol capabilities
    model.defaultSelection protocol =
      { protocol
        gaugeIds := (ids .parameter).take 15
        lowerPanelIds := (ids .parameter).take 12
        switchIds := (ids .switch).take 20 } := by
  intro model ids
  set first := SupportModel.run before
  have hmodel : model =
      (.applyCapabilities protocol capabilities :: quiet).foldl SupportModel.after first :=
    List.foldl_append
  obtain ⟨⟨-, -, -, hitems⟩, hflags⟩ :=
    SupportModel.foldl_after (.applyCapabilities protocol capabilities :: quiet) first (.inl hinstalled)
  rw [← hmodel] at hitems hflags
  have hchosen : model.defaultProtocol protocol = protocol := by
    simp [SupportModel.defaultProtocol, hprotocol]
  -- an item of the protocol has the flag the bytes gave it
  have hselects (kind : LoggingMeasurementKind) (item : LoggerItem) (hitem : item ∈ first.items kind) :
      model.selects kind protocol item =
        (decide (item.identity.1 = protocol) && offers (first.items kind) capabilities item.identity) := by
    by_cases h : item.identity.1 = protocol
    · obtain ⟨flag, hflag⟩ := Option.isSome_iff_exists.1 (SupportModel.declared_run before kind item hitem)
      have hspared : ∀ e ∈ quiet, e.Spares item.identity.1 := by rwa [h]
      have hevidence : model.flags kind item.identity =
          some (evidence (first.items kind) item.identity capabilities) := by
        rw [hflags, hflag, Option.map_some, flagAfterAll, List.foldl_cons]
        refine congrArg some ?_
        refine (flagAfterAll_of_spares hspared kind (first.items kind) _).trans ?_
        exact if_pos h.symm
      rw [SupportModel.selects, SupportFlags.available, hitems, hevidence, offers]
      cases hfind : (first.items kind).find? (·.identity = item.identity) with
      | none =>
        have hmiss := List.find?_eq_none.1 hfind item hitem
        simp at hmiss
      | some found =>
        cases evidence (first.items kind) item.identity capabilities <;> rfl
    · simp [SupportModel.selects, h]
  rw [SupportModel.defaultSelection_eq, hchosen]
  have hids (kind : LoggingMeasurementKind) :
      ((model.items kind).filter (model.selects kind protocol)).map (·.identity.2) = ids kind := by
    rw [hitems]
    exact congrArg (List.map _) (List.filter_congr (hselects kind))
  simp only [hids]

theorem defaultSelection_sharedId :
    (SupportModel.run ([.installDefinition sharedIdDefinition] ++ .applyCapabilities "SSM" [2] ::
        [.setParameterSupport ("CDBG", "rpm") .unsupported])).defaultSelection "SSM" =
      ⟨"SSM", ["rpm", "boost"], ["rpm", "boost"], []⟩ :=
  (defaultSelection_capabilities [.installDefinition sharedIdDefinition]
    [.setParameterSupport ("CDBG", "rpm") .unsupported] "SSM" [2] (by decide) rfl
    (List.forall_mem_singleton.2 (by change "CDBG" ≠ "SSM"; decide))).trans (by decide)

end FastEcu.Logging
