import FastEcu.Logging.Preparation
import FastEcu.Logging.SessionSpec
import FastEcu.Logging.SsmPoll

/-!
# Preparing a logging run

`PrepareLoggingRun` (`src/backend/logging/logging_run_snapshot.cpp`): the selected measurements are resolved
in the logger definition, each once, and become the channels of a session; a sample is later resolved to
its measurement (`logging_sample_resolution.cpp`).

* `MeasurementCollector` : the channels and measurements so far.
* `prepareLoggingRun` : the run.
* `resolveLogSample` : the measurement of a sample.
* `Collected` : what holds of the collector after the selected entries.
* `prepareLoggingRun_spec` : what every run has.
-/

namespace FastEcu.Logging

open Calibration (Error ErrorKind invalidConfig)
open Expression (Numbers Instruction)

/-! ### The logger model -/

/-- `EcuSupport`. -/
inductive EcuSupport
  | unknown
  | supported
  | unsupported
deriving DecidableEq, Repr

/-- `LoggerSelection`. -/
structure LoggerSelection where
  protocol : String := ""
  gaugeIds : List String := []
  lowerPanelIds : List String := []
  switchIds : List String := []
deriving DecidableEq, Repr

/-- `LoggerModel`; the maps of what the ECU supports are by protocol and id. -/
structure LoggerModel where
  parameters : List LoggerParameter := []
  switches : List LoggerSwitch := []
  selection : LoggerSelection := {}
  parameterSupportMap : String × String → Option EcuSupport := fun _ => none
  switchSupportMap : String × String → Option EcuSupport := fun _ => none

/-- `LoggerModel::ParameterSupport`. -/
def LoggerModel.parameterSupport (model : LoggerModel) (protocol id : String) : EcuSupport :=
  (model.parameterSupportMap (protocol, id)).getD .unknown

/-- `LoggerModel::SwitchSupport`. -/
def LoggerModel.switchSupport (model : LoggerModel) (protocol id : String) : EcuSupport :=
  (model.switchSupportMap (protocol, id)).getD .unknown

/-- `LoggingMeasurementKind`. -/
inductive LoggingMeasurementKind
  | parameter
  | switch
deriving DecidableEq, Repr

/-- `LoggingMeasurement`. -/
structure LoggingMeasurement where
  kind : LoggingMeasurementKind
  identity : String × String
  channelId : String
  name : String
  unit : String
  decimalPrecision : UInt8
  support : EcuSupport
deriving DecidableEq, Repr

/-- `LoggingTarget`. -/
inductive LoggingTarget
  | ecu
  | tcu
deriving DecidableEq, Repr

/-- `EffectiveProtocolFilter`. -/
def effectiveProtocolFilter (protocol : LoggingProtocolId) (filter : String) : Except Error String :=
  match protocol with
  | .ssm =>
    if filter = "" then invalidConfig "SSM logging protocol filter is empty" else .ok filter
  | .mutDma => .ok "MUT_DMA"
  | .cdbg => .ok "CDBG"

/-! ### The collector -/

/-- `Resolved`. -/
structure Resolved where
  channel : Except Error LoggingChannel := invalidConfig "unresolved measurement"
  name : String := ""
  count : ℕ := 0

/-- `Resolve`: the last definition that matches, and how many do. -/
def resolve {β : Type} (sources : List β) (selected : β → Bool) (name : β → String)
    (prepare : β → Except Error LoggingChannel) : Resolved :=
  sources.foldl (fun resolved source =>
    if selected source then
      { channel := prepare source, name := name source, count := resolved.count + 1 }
    else resolved) {}

/-- The name of a kind. -/
def LoggingMeasurementKind.text : LoggingMeasurementKind → String
  | .parameter => "parameter"
  | .switch => "switch"

/-- The id of the channel of a measurement. -/
def measurementTag (kind : LoggingMeasurementKind) (id : String) : String := s!"{kind.text}:{id}"

/-- The fields of `MeasurementCollector` that change. -/
structure MeasurementCollector where
  identities : List String := []
  channels : List LoggingChannel := []
  measurements : List LoggingMeasurement := []

section Collector

variable {α : Type} (N : Numbers α) (model : LoggerModel) (protocol : LoggingProtocolId)
  (filter : String)

/-- What the model says of the support of a measurement. -/
def supportOf : LoggingMeasurementKind → String → EcuSupport
  | .parameter, id => model.parameterSupport filter id
  | .switch, id => model.switchSupport filter id

/-- The definition of a measurement. -/
def resolveMeasurement : LoggingMeasurementKind → String → Resolved
  | .parameter, id =>
    resolve model.parameters (fun p => p.protocol = filter ∧ p.id = id) (·.name)
      (prepareLoggingChannel N · protocol)
  | .switch, id =>
    resolve model.switches (fun s => s.protocol = filter ∧ s.id = id) (·.name)
      (prepareLoggingSwitch N · protocol)

/-- `MeasurementCollector::Add`. -/
def MeasurementCollector.add (collector : MeasurementCollector) (kind : LoggingMeasurementKind)
    (id : String) : Except Error MeasurementCollector :=
  let tag := measurementTag kind id
  if tag ∈ collector.identities then .ok collector
  else
    let state := supportOf model filter kind id
    if state = .unsupported then
      invalidConfig s!"{filter} {tag}: selected measurement is known unsupported; remove or replace it"
    else
      let resolved := resolveMeasurement N model protocol filter kind id
      if resolved.count ≠ 1 then
        let found := if resolved.count = 0 then "unresolved" else "duplicate"
        invalidConfig s!"{filter} {tag}: {found} definition; remove or replace the selected entry"
      else
        match resolved.channel with
        | .error e => .error e
        | .ok channel =>
          let channel := { channel with id := tag }
          .ok {
            identities := collector.identities ++ [tag]
            channels := collector.channels ++ [channel]
            measurements := collector.measurements ++ [{
              kind
              identity := (filter, id)
              channelId := tag
              name := resolved.name
              unit := channel.unit
              decimalPrecision := channel.decimalPrecision
              support := state }] }

/-- `MeasurementCollector::AddAll`. -/
def MeasurementCollector.addAll (collector : MeasurementCollector) (kind : LoggingMeasurementKind) :
    List String → Except Error MeasurementCollector
  | [] => .ok collector
  | id :: ids =>
    match collector.add N model protocol filter kind id with
    | .error e => .error e
    | .ok collector => collector.addAll kind ids

end Collector

/-! ### The run -/

/-- `LoggingRunSnapshot`. -/
structure LoggingRunSnapshot (α : Type) where
  session : LoggingSession α
  protocolKey : String
  selection : LoggerSelection
  measurements : List LoggingMeasurement
  target : LoggingTarget

/-- `LoggingRunSnapshot::FindMeasurement`. -/
def LoggingRunSnapshot.findMeasurement {α : Type} (run : LoggingRunSnapshot α)
    (kind : LoggingMeasurementKind) (id : String) : Option LoggingMeasurement :=
  run.measurements.find? fun measurement =>
    decide (measurement.kind = kind ∧ measurement.identity.2 = id)

/-- The loop of `PrepareLoggingRun` over the lists of the selection. -/
def collectLists {α : Type} (N : Numbers α) (model : LoggerModel) (protocol : LoggingProtocolId)
    (filter : String) : MeasurementCollector → List (LoggingMeasurementKind × List String) →
    Except Error MeasurementCollector
  | collector, [] => .ok collector
  | collector, (kind, ids) :: rest =>
    match collector.addAll N model protocol filter kind ids with
    | .error e => .error e
    | .ok collector => collectLists N model protocol filter collector rest

/-- `PrepareLoggingRun`.  A target is one of the two. -/
def prepareLoggingRun {α : Type} (N : Numbers α) (model : LoggerModel) (protocol : LoggingProtocolId)
    (protocolFilter : String) (policy : LoggingPolicy) (target : LoggingTarget) :
    Except Error (LoggingRunSnapshot α) :=
  match effectiveProtocolFilter protocol protocolFilter with
  | .error e => .error e
  | .ok filter =>
    match collectLists N model protocol filter {}
        [(.parameter, model.selection.gaugeIds), (.parameter, model.selection.lowerPanelIds),
          (.switch, model.selection.switchIds)] with
    | .error e => .error e
    | .ok collector =>
      match makeLoggingSession N protocol collector.channels policy with
      | .error e => .error ⟨e.kind, s!"{filter}: {e.detail}"⟩
      | .ok session => .ok ⟨session, filter, model.selection, collector.measurements, target⟩

/-- `ResolvedLogSample`. -/
structure ResolvedLogSample (α : Type) where
  kind : LoggingMeasurementKind
  identity : String × String
  numericValue : Option α
  decimalPrecision : UInt8
deriving DecidableEq

/-- `ResolveLogSample`. -/
def resolveLogSample {α : Type} (snapshot : LoggingRunSnapshot α) (sample : LogSample α) :
    Except Error (ResolvedLogSample α) :=
  match snapshot.session.findChannel sample.channelId with
  | none =>
    .error ⟨.internal, s!"{snapshot.protocolKey} sample {
      sample.channelId}: logging sample id is not in the run snapshot"⟩
  | some channel =>
    match snapshot.measurements.find? (·.channelId == sample.channelId) with
    | none => .error ⟨.internal, "logging channel has no captured measurement identity"⟩
    | some measurement =>
      .ok ⟨measurement.kind, measurement.identity, sample.numericValue, channel.decimalPrecision⟩

/-! ### What the collector has -/

/-- The selected entries, in the order in which they are added. -/
def selectedEntries (selection : LoggerSelection) : List (LoggingMeasurementKind × String) :=
  selection.gaugeIds.map (.parameter, ·) ++ selection.lowerPanelIds.map (.parameter, ·) ++
    selection.switchIds.map (.switch, ·)

/-- The entry of a measurement. -/
def LoggingMeasurement.entry (measurement : LoggingMeasurement) : LoggingMeasurementKind × String :=
  (measurement.kind, measurement.identity.2)

/-- The measurement of a channel. -/
structure Measures (filter : String) (measurement : LoggingMeasurement) (channel : LoggingChannel) :
    Prop where
  channelId : measurement.channelId = channel.id
  tag : channel.id = measurementTag measurement.kind measurement.identity.2
  protocol : measurement.identity.1 = filter
  unit : measurement.unit = channel.unit
  decimalPrecision : measurement.decimalPrecision = channel.decimalPrecision

/-- What the collector has after some entries: the first of each, with their channels. -/
structure Collected (filter : String) (entries : List (LoggingMeasurementKind × String))
    (collector : MeasurementCollector) : Prop where
  measurements : collector.measurements.map (·.entry) = entries.eraseDups
  identities : collector.identities = entries.eraseDups.map fun e => measurementTag e.1 e.2
  indexed : List.Forall₂ (Measures filter) collector.measurements collector.channels

theorem measurementTag_toList (kind : LoggingMeasurementKind) (id : String) :
    (measurementTag kind id).toList = kind.text.toList ++ ':' :: id.toList := by
  simp [measurementTag, toString]

/-- Measurements of a different kind or id have different tags. -/
theorem measurementTag_inj {kind kind' : LoggingMeasurementKind} {id id' : String} :
    measurementTag kind id = measurementTag kind' id' ↔ kind = kind' ∧ id = id' := by
  rw [← String.toList_inj, measurementTag_toList, measurementTag_toList]
  cases kind <;> cases kind' <;> simp [LoggingMeasurementKind.text, String.toList_inj]

section EraseDups

variable {β : Type} [BEq β] [LawfulBEq β] {l : List β} {b : β}

theorem eraseDups_concat_of_mem (h : b ∈ l) : (l ++ [b]).eraseDups = l.eraseDups := by
  rw [List.eraseDups_append]
  simp [List.removeAll, h]

theorem eraseDups_concat_of_not_mem (h : b ∉ l) : (l ++ [b]).eraseDups = l.eraseDups ++ [b] := by
  rw [List.eraseDups_append]
  simp [List.removeAll, h, List.eraseDups_cons]

end EraseDups

section Collector

variable {α : Type} {N : Numbers α} {model : LoggerModel} {protocol : LoggingProtocolId}
  {filter : String} {entries : List (LoggingMeasurementKind × String)}
  {collector collector' : MeasurementCollector}

theorem Collected.mem_identities (h : Collected filter entries collector)
    (kind : LoggingMeasurementKind) (id : String) :
    measurementTag kind id ∈ collector.identities ↔ (kind, id) ∈ entries := by
  rw [h.identities, List.mem_map, ← List.mem_eraseDups]
  constructor
  · rintro ⟨⟨kind', id'⟩, hmem, heq⟩
    obtain ⟨rfl, rfl⟩ := measurementTag_inj.1 heq
    exact hmem
  · exact fun hmem => ⟨(kind, id), hmem, rfl⟩

/-- An entry more. -/
theorem Collected.add (h : Collected filter entries collector) {kind : LoggingMeasurementKind}
    {id : String} (hadd : collector.add N model protocol filter kind id = .ok collector') :
    Collected filter (entries ++ [(kind, id)]) collector' := by
  simp only [MeasurementCollector.add, h.mem_identities] at hadd
  by_cases hmem : (kind, id) ∈ entries
  · rw [if_pos hmem] at hadd
    cases hadd
    refine ⟨?_, ?_, h.indexed⟩
    · rw [eraseDups_concat_of_mem hmem]
      exact h.measurements
    · rw [eraseDups_concat_of_mem hmem]
      exact h.identities
  · rw [if_neg hmem] at hadd
    split at hadd
    · cases hadd
    split at hadd
    · cases hadd
    split at hadd
    · cases hadd
    cases hadd
    refine ⟨?_, ?_, ?_⟩
    · rw [eraseDups_concat_of_not_mem hmem, List.map_append, h.measurements]
      rfl
    · rw [eraseDups_concat_of_not_mem hmem, List.map_append, ← h.identities]
      rfl
    · exact List.rel_append h.indexed (.cons ⟨rfl, rfl, rfl, rfl, rfl⟩ .nil)

theorem Collected.addAll (h : Collected filter entries collector) {kind : LoggingMeasurementKind}
    {ids : List String} (hadd : collector.addAll N model protocol filter kind ids = .ok collector') :
    Collected filter (entries ++ ids.map (kind, ·)) collector' := by
  induction ids generalizing entries collector with
  | nil =>
    cases hadd
    simpa using h
  | cons id ids ih =>
    rw [MeasurementCollector.addAll] at hadd
    cases hone : collector.add N model protocol filter kind id with
    | error e =>
      rw [hone] at hadd
      cases hadd
    | ok collector₁ =>
      rw [hone] at hadd
      have := ih (h.add hone) hadd
      rwa [List.append_assoc] at this

theorem Collected.collectLists (h : Collected filter entries collector)
    {lists : List (LoggingMeasurementKind × List String)}
    (hcollect : collectLists N model protocol filter collector lists = .ok collector') :
    Collected filter (entries ++ lists.flatMap fun l => l.2.map (l.1, ·)) collector' := by
  induction lists generalizing entries collector with
  | nil =>
    cases hcollect
    simpa using h
  | cons list rest ih =>
    obtain ⟨kind, ids⟩ := list
    rw [Logging.collectLists] at hcollect
    cases hall : collector.addAll N model protocol filter kind ids with
    | error e =>
      rw [hall] at hcollect
      cases hcollect
    | ok collector₁ =>
      rw [hall] at hcollect
      have := ih (h.addAll hall) hcollect
      rwa [List.append_assoc] at this

end Collector

/-! ### Looking up by name -/

section Lookup

variable {β κ : Type} [BEq κ] [LawfulBEq κ] {f : β → κ} {l : List β}

theorem find?_of_nodup (hnodup : (l.map f).Nodup) {b : β} (hmem : b ∈ l) :
    l.find? (fun x => f x == f b) = some b := by
  induction l with
  | nil => cases hmem
  | cons a l ih =>
    rw [List.map_cons, List.nodup_cons] at hnodup
    rcases List.mem_cons.1 hmem with rfl | hmem
    · simp
    · have hne : f a ≠ f b := fun heq => hnodup.1 (heq ▸ List.mem_map_of_mem hmem)
      rw [List.find?_cons_of_neg (by simpa using hne), ih hnodup.2 hmem]

theorem findIdx?_of_nodup (hnodup : (l.map f).Nodup) {b : β} {index : ℕ} (hget : l[index]? = some b) :
    l.findIdx? (fun x => f x == f b) = some index := by
  induction l generalizing index with
  | nil => simp at hget
  | cons a l ih =>
    rw [List.map_cons, List.nodup_cons] at hnodup
    rw [List.findIdx?_cons]
    cases index with
    | zero =>
      cases hget
      simp
    | succ index =>
      rw [List.getElem?_cons_succ] at hget
      have hne : f a ≠ f b := fun heq =>
        hnodup.1 (heq ▸ List.mem_map_of_mem (List.mem_of_getElem? hget))
      rw [if_neg (by simpa using hne), ih hnodup.2 hget]
      rfl

theorem getElem?_of_forall₂ {γ : Type} {R : β → γ → Prop} {l' : List γ} (h : List.Forall₂ R l l')
    {index : ℕ} {b : β} (hget : l[index]? = some b) : ∃ c, l'[index]? = some c ∧ R b c := by
  induction h generalizing index with
  | nil => simp at hget
  | cons hR _ ih =>
    cases index with
    | zero =>
      cases hget
      exact ⟨_, rfl, hR⟩
    | succ index => exact ih hget

end Lookup

/-! ### What a run has -/

section Run

variable {α : Type} {N : Numbers α} {model : LoggerModel} {protocol : LoggingProtocolId}

/-- The conversion of a sample of a channel does not end in an internal error. -/
theorem convertSample_kind {session : LoggingSession α} {raw : ProtocolSample}
    {channel : LoggingChannel} {compiled : List (Instruction α)} {e : Error}
    (hchannel : session.findChannel raw.channelId = some channel)
    (hconversion : session.findConversion raw.channelId = some compiled)
    (hcompiled : compileChannel N protocol channel = .ok compiled)
    (h : convertSample N session raw = .error e) : e.kind ≠ .internal := by
  have hcompile : Expression.compile N.toArithmetic channel.fromByteExpression.toList =
      .ok compiled := by
    rw [compileChannel] at hcompiled
    split at hcompiled
    · cases hcompiled
    split at hcompiled
    · cases hcompiled
    split at hcompiled
    · cases hcompiled
    · cases hcompiled
      assumption
  simp only [convertSample, hchannel, hconversion, Option.bind_some] at h
  cases hbit : channel.sampleBit with
  | some bit =>
    simp only [hbit] at h
    split at h
    · cases h
      decide
    · split at h
      · cases h
        decide
      · cases h
  | none =>
    simp only [hbit] at h
    split at h
    · cases h
      exact fun heq => (by cases heq)
    · rename_i rawValue _
      -- compiled code has a value
      obtain ⟨value, hvalue⟩ := Option.isSome_iff_exists.1
        (Expression.evaluate_isSome hcompile rawValue)
      rw [hvalue] at h
      cases value with
      | ok value => cases h
      | error error =>
        cases h
        exact fun heq => (by cases heq)

/-- Everything that is looked up by the name of a channel is that of the channel and its
measurement. -/
structure Found (N : Numbers α) (protocol : LoggingProtocolId) (run : LoggingRunSnapshot α)
    (measurement : LoggingMeasurement) (channel : LoggingChannel) : Prop where
  findChannel : run.session.findChannel channel.id = some channel
  findConversion : ∃ compiled, compileChannel N protocol channel = .ok compiled ∧
    run.session.findConversion channel.id = some compiled
  findMeasurement : run.findMeasurement measurement.kind measurement.identity.2 = some measurement
  resolve : ∀ sample : LogSample α, sample.channelId = channel.id →
    resolveLogSample run sample =
      .ok ⟨measurement.kind, measurement.identity, sample.numericValue, channel.decimalPrecision⟩
  convert : ∀ raw : ProtocolSample, raw.channelId = channel.id → ∀ e,
    convertSample N run.session raw = .error e → e.kind ≠ .internal

/-- The run fits its wire protocol. -/
def RunFits (protocol : LoggingProtocolId) (session : LoggingSession α) : Prop :=
  match protocol with
  | .ssm => ∃ plan, session.readPlan = some plan ∧ (buildPollRequest plan).length ≤ 254
  | .mutDma => session.channels.length ≤ 96 ∧ (session.channels.map (·.length)).sum ≤ 96
  | .cdbg => ∃ frames, batchChannelsIntoFrames (session.channels.map (·.toCdbg)) = some frames ∧
      frames.flatten = session.channels.map (·.toCdbg) ∧ frames.length ≤ 8 ∧
      ∀ frame ∈ frames, frameBytes frame ≤ 7

/-- What a run has. -/
structure SnapshotSpec (N : Numbers α) (model : LoggerModel) (protocol : LoggingProtocolId)
    (run : LoggingRunSnapshot α) : Prop where
  /-- The measurements are the first of each of the selected entries. -/
  order : run.measurements.map (·.entry) = (selectedEntries model.selection).eraseDups
  /-- The channels are those of the measurements, in their order. -/
  indexed : List.Forall₂ (Measures run.protocolKey) run.measurements run.session.channels
  /-- Their ids are all different. -/
  distinct : (run.session.channels.map (·.id)).Nodup
  /-- What is looked up by their names is theirs. -/
  lookup : ∀ (index : ℕ) (measurement : LoggingMeasurement) (channel : LoggingChannel),
    run.measurements[index]? = some measurement → run.session.channels[index]? = some channel →
    Found N protocol run measurement channel
  /-- The run fits its wire protocol. -/
  wire : RunFits protocol run.session

theorem runFits_of_fitsWire {session : LoggingSession α}
    (h : SessionSpec N protocol session.channels session) : RunFits protocol session := by
  have hwire := h.wire
  rw [FitsWire, h.protocol_eq] at hwire
  cases protocol with
  | ssm =>
    obtain ⟨plan, hplan, hspec⟩ := hwire
    refine ⟨plan, hplan, ?_⟩
    have hle := hspec.length_le
    rw [length_buildPollRequest]
    omega
  | mutDma => exact hwire
  | cdbg => exact hwire

/-- The ids of the channels, by the measurements. -/
theorem ids_of_indexed {filter : String} {measurements : List LoggingMeasurement}
    {channels : List LoggingChannel} (h : List.Forall₂ (Measures filter) measurements channels) :
    channels.map (·.id) = measurements.map (·.channelId) ∧
      channels.map (·.id) = (measurements.map (·.entry)).map fun e => measurementTag e.1 e.2 := by
  induction h with
  | nil => exact ⟨rfl, rfl⟩
  | cons hmeasures _ ih =>
    obtain ⟨ih, ih'⟩ := ih
    simp only [List.map_cons, ih, hmeasures.channelId, List.cons.injEq, true_and]
    refine ⟨hmeasures.tag, ?_⟩
    rw [← ih', ih]

/-- Everything is found by the names of the channels. -/
theorem found_of_indexed {run : LoggingRunSnapshot α} {index : ℕ} {measurement : LoggingMeasurement}
    {channel : LoggingChannel} (hspec : SessionSpec N protocol run.session.channels run.session)
    (hindexed : List.Forall₂ (Measures run.protocolKey) run.measurements run.session.channels)
    (hmeasurement : run.measurements[index]? = some measurement)
    (hchannel : run.session.channels[index]? = some channel) :
    Found N protocol run measurement channel := by
  obtain ⟨channel', hchannel', hmeasures⟩ := getElem?_of_forall₂ hindexed hmeasurement
  cases hchannel.symm.trans hchannel'
  obtain ⟨compiled, hget, hcompiled⟩ := getElem?_of_forall₂ hspec.conversions hchannel
  obtain ⟨hids, htags⟩ := ids_of_indexed hindexed
  have hnodup := hspec.ids_nodup
  have hfind : run.session.findChannel channel.id = some channel :=
    find?_of_nodup hnodup (List.mem_of_getElem? hchannel)
  have hconversion : run.session.findConversion channel.id = some compiled := by
    rw [LoggingSession.findConversion, findIdx?_of_nodup hnodup hchannel, Option.bind_some, hget]
  exact {
    findChannel := hfind
    findConversion := ⟨compiled, hcompiled, hconversion⟩
    findMeasurement := by
      have hentries : (run.measurements.map (·.entry)).Nodup := by
        rw [htags] at hnodup
        exact hnodup.of_map _
      have hentry := find?_of_nodup hentries (List.mem_of_getElem? hmeasurement)
      rw [← hentry, LoggingRunSnapshot.findMeasurement]
      congr 1
      funext other
      rw [Bool.eq_iff_iff, decide_eq_true_iff, beq_iff_eq, LoggingMeasurement.entry,
        LoggingMeasurement.entry, Prod.mk.injEq]
    resolve := by
      intro sample hsample
      have hresolved : run.measurements.find? (·.channelId == measurement.channelId) =
          some measurement :=
        find?_of_nodup (hids ▸ hnodup) (List.mem_of_getElem? hmeasurement)
      rw [resolveLogSample, hsample, hfind]
      simp only
      rw [← hmeasures.channelId, hresolved]
    convert := by
      intro raw hraw e he
      refine convertSample_kind ?_ ?_ hcompiled he
      · rw [hraw, hfind]
      · rw [hraw, hconversion] }

/-- **What every run has.** -/
theorem prepareLoggingRun_spec {protocolFilter : String} {policy : LoggingPolicy}
    {target : LoggingTarget} {run : LoggingRunSnapshot α}
    (h : prepareLoggingRun N model protocol protocolFilter policy target = .ok run) :
    SnapshotSpec N model protocol run := by
  rw [prepareLoggingRun] at h
  cases hfilter : effectiveProtocolFilter protocol protocolFilter with
  | error e =>
    rw [hfilter] at h
    cases h
  | ok filter =>
    rw [hfilter] at h
    simp only at h
    split at h
    · cases h
    · rename_i collector hcollect
      cases hsession : makeLoggingSession N protocol collector.channels policy with
      | error e =>
        rw [hsession] at h
        cases h
      | ok session =>
        rw [hsession] at h
        cases h
        have hempty : Collected filter [] {} := ⟨rfl, rfl, .nil⟩
        have hcollected := hempty.collectLists hcollect
        have hspec := makeLoggingSession_spec hsession
        rw [← hspec.channels_eq] at hspec
        have hindexed := hcollected.indexed
        rw [← (makeLoggingSession_spec hsession).channels_eq] at hindexed
        exact {
          order := by
            rw [hcollected.measurements]
            simp [selectedEntries]
          indexed := hindexed
          distinct := hspec.ids_nodup
          lookup := fun index measurement channel hmeasurement hchannel =>
            found_of_indexed hspec hindexed hmeasurement hchannel
          wire := runFits_of_fitsWire hspec }

end Run

/-- A parameter and a switch of the same id, each selected more than once. -/
def sharedIdModel : LoggerModel where
  parameters := [{
    protocol := "SSM"
    id := "P8"
    name := "Engine Speed"
    address := "0x00000E"
    length := "2"
    conversions := [{ units := "rpm", expr := "x/4", format := "0" }] }]
  switches :=
    [{ protocol := "SSM", id := "P8", name := "AT Vehicle ID", address := "0x61", sampleBit := "6" }]
  selection := ⟨"SSM", ["P8", "P8"], ["P8"], ["P8", "P8"]⟩

theorem prepareLoggingRun_sharedId : ∃ run : LoggingRunSnapshot ℤ,
    prepareLoggingRun Expression.integers sharedIdModel .ssm "SSM" ⟨100, 5, 10, 10⟩ .ecu = .ok run ∧
      run.session.channels.map (·.id) = ["parameter:P8", "switch:P8"] ∧
      SnapshotSpec Expression.integers sharedIdModel .ssm run := by
  have hids : (prepareLoggingRun Expression.integers sharedIdModel .ssm "SSM" ⟨100, 5, 10, 10⟩
      .ecu).toOption.map (fun run => run.session.channels.map (·.id)) =
        some ["parameter:P8", "switch:P8"] := by decide +kernel
  cases hrun : prepareLoggingRun Expression.integers sharedIdModel .ssm "SSM" ⟨100, 5, 10, 10⟩ .ecu with
  | error e =>
    rw [hrun] at hids
    cases hids
  | ok run =>
    rw [hrun] at hids
    exact ⟨run, rfl, Option.some.inj hids, prepareLoggingRun_spec hrun⟩

end FastEcu.Logging
