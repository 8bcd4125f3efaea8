import FastEcu.Calibration.NumericPatch
import FastEcu.Calibration.PlacedMaps

/-!
# Numeric edits are atomic

`EditNumeric` (`src/backend/calibration/session/map_operations.cpp`): the target of an edit is found
and decoded from the bytes of its session, a patch is calculated, every write of the patch is checked
and only then is the patch written (`src/backend/calibration/session/numeric_target_internal.cpp`).

* `writePatch_cases` : a patch of cells that are apart is written whole or not at all.
* `ReadRun` : the cells that an edit gets are those of a run that the ROM file has.
* `Edited` : what an edit that is reported as changed has done.
* `editNumeric_atomic` : an edit does all of this or nothing.
-/

namespace FastEcu.Calibration

open Memory Expression

/-! ### Workspaces -/

/-- `CalibrationWorkspace`: the open sessions. -/
abbrev CalibrationWorkspace := List CalibrationSession

namespace CalibrationWorkspace

/-- `CalibrationWorkspace::Find`. -/
def find (workspace : CalibrationWorkspace) (id : ℕ) : Option CalibrationSession :=
  List.find? (fun session => session.id == id) workspace

/-- The workspace after its session of this id has changed. -/
def update (workspace : CalibrationWorkspace) (session : CalibrationSession) :
    CalibrationWorkspace :=
  match workspace with
  | [] => []
  | s :: rest => if s.id = session.id then session :: rest else s :: update rest session

theorem update_self {workspace : CalibrationWorkspace} {id : ℕ} {session : CalibrationSession}
    (h : workspace.find id = some session) : workspace.update session = workspace := by
  induction workspace with
  | nil => rfl
  | cons s rest ih =>
    have hid : session.id = id := by simpa using List.find?_some h
    simp only [find, List.find?_cons] at h
    simp only [update]
    split at h
    · cases h
      rw [if_pos rfl]
    · rename_i hne
      rw [if_neg (by simpa [hid] using hne), ih h]

theorem find_update {workspace : CalibrationWorkspace} {id : ℕ}
    {session session' : CalibrationSession} (h : workspace.find id = some session)
    (hid : session'.id = session.id) : (workspace.update session').find id = some session' := by
  induction workspace with
  | nil => cases h
  | cons s rest ih =>
    have hsession : session.id = id := by simpa using List.find?_some h
    simp only [find, List.find?_cons] at h
    simp only [update, hid, hsession]
    split at h
    · rename_i heq
      rw [if_pos (by simpa using heq)]
      simp [find, hid, hsession]
    · rename_i hne
      rw [if_neg (by simpa using hne)]
      simp only [find, List.find?_cons, hne]
      exact ih h

end CalibrationWorkspace

/-! ### Finding the target of an edit -/

/-- `MapRef`. -/
structure MapRef where
  session : ℕ
  mapIndex : ℕ

/-- `NumericSelection`. -/
structure NumericSelection where
  target : NumericTarget
  elements : SelectionRange

/-- `NotApplicableReason`. -/
inductive NotApplicableReason
  | closedSession
  | noDefinition
  | unknownMap
  | unavailableTarget
  | unknownSelection
deriving DecidableEq, Repr

/-- `NumericEditOutcome`. -/
inductive NumericEditOutcome
  | changed
  | unchanged (reason : NoChangeReason)
  | notApplicable (reason : NotApplicableReason)
deriving DecidableEq, Repr

/-- `LocateMap`. -/
def locateMap (workspace : CalibrationWorkspace) (id mapIndex : ℕ) :
    Except NotApplicableReason (CalibrationSession × RomDefinition × CalibrationMap) :=
  match workspace.find id with
  | none => .error .closedSession
  | some session =>
    match session.definition with
    | none => .error .noDefinition
    | some definition =>
      match definition.maps[mapIndex]? with
      | none => .error .unknownMap
      | some map => .ok (session, definition, map)

variable {α : Type}

/-- `TargetCells`. -/
def targetCells (values : DecodedMap α) : NumericTarget → Option (NumericRun α)
  | .mapBody =>
    match values.body with
    | .run cells => some cells
    | .blob _ => none
  | .xAxis =>
    match values.xAxis with
    | .run cells => some cells
    | _ => none
  | .yAxis =>
    match values.yAxis with
    | .run cells => some cells
    | _ => none

/-- `PreparedNumericTarget`. -/
structure PreparedNumericTarget (α : Type) where
  session : CalibrationSession
  element : MapElement α
  cells : NumericRun α

/-- `PrepareNumericTarget`. -/
def prepareNumericTarget (N : Numbers α) (workspace : CalibrationWorkspace) (id mapIndex : ℕ)
    (target : NumericTarget) : Except NotApplicableReason (PreparedNumericTarget α) :=
  match locateMap workspace id mapIndex with
  | .error reason => .error reason
  | .ok (session, definition, map) =>
    match session.decodeMap N mapIndex with
    | .error _ => .error .unavailableTarget
    | .ok decoded =>
      match targetCells decoded target with
      | none => .error .unavailableTarget
      | some cells => .ok ⟨session, resolveMapElement N definition map target, cells⟩

/-! ### Writing a patch -/

/-- The first loop of `WritePatch`: every write is checked. -/
def checkPatch (session : CalibrationSession) (spec : MapElementSpec α) (cellCount : ℕ) :
    List CellWrite → Except Error Unit
  | [] => .ok ()
  | cell :: rest =>
    if cellCount ≤ cell.index ∨ cell.bytes.length ≠ storageByteSize spec.storageType ∨
        cell.byteAddress ≠ elementByteAddress spec cell.index then
      invalidConfig "map edit index, address, or byte width does not match its target"
    else
      match session.checkWrite cell.byteAddress cell.bytes.length with
      | .error e => .error e
      | .ok () => checkPatch session spec cellCount rest

/-- The second loop of `WritePatch`: the bytes are written. -/
def writeCells (session : CalibrationSession) :
    List CellWrite → Except Error Unit × CalibrationSession
  | [] => (.ok (), session)
  | cell :: rest =>
    match session.writeBytes cell.byteAddress cell.bytes with
    | (.error e, session) => (.error e, session)
    | (.ok (), session) => writeCells session rest

/-- `WritePatch`. -/
def writePatch (session : CalibrationSession) (spec : MapElementSpec α) (cellCount : ℕ)
    (patch : List CellWrite) : Except Error Unit × CalibrationSession :=
  match checkPatch session spec cellCount patch with
  | .error e => (.error e, session)
  | .ok () => writeCells session patch

/-! ### Applying an edit -/

/-- `PreparedNumericTarget::Apply`. -/
def PreparedNumericTarget.apply (N : Numbers α) (prepared : PreparedNumericTarget α)
    (range : SelectionRange) (operation : NumericEditOperation) :
    Except Error NumericEditOutcome × CalibrationSession :=
  let session := prepared.session
  let element := prepared.element
  let spec := element.editSpec
  let stop := elementRunEnd spec.address spec.startPosition spec.interval element.byteWidth
    (u32 prepared.cells.length)
  match session.read spec.address (stop - spec.address) with
  | .error e => (.error e, session)
  | .ok window =>
    match calculate N ⟨window, spec.address⟩ spec range element.width.toNat element.height.toNat
        prepared.cells operation with
    | .error e => (.error e, session)
    | .ok calculated =>
      if calculated.writes = [] then (.ok (.unchanged calculated.noChange), session)
      else
        match writePatch session spec prepared.cells.length calculated.writes with
        | (.error e, session) => (.error e, session)
        | (.ok (), session) => (.ok .changed, session)

/-- `EditNumeric`. -/
def editNumeric (N : Numbers α) (workspace : CalibrationWorkspace) (map : MapRef)
    (selection : NumericSelection) (operation : NumericEditOperation) :
    Except Error NumericEditOutcome × CalibrationWorkspace :=
  match prepareNumericTarget N workspace map.session map.mapIndex selection.target with
  | .error reason => (.ok (.notApplicable reason), workspace)
  | .ok prepared =>
    let (result, session) := prepared.apply N selection.elements operation
    (result, workspace.update session)

/-! ### A patch is written whole or not at all -/

/-- The bytes of two cells are apart. -/
def CellWrite.Apart (v w : CellWrite) : Prop :=
  v.byteAddress + v.bytes.length ≤ w.byteAddress ∨ w.byteAddress + w.bytes.length ≤ v.byteAddress

/-- From one image to the next, the bytes of the patch are stored and no other file byte changes. -/
structure Writes (before after : MemoryImage) (patch : List CellWrite) : Prop where
  map_eq : after.map = before.map
  stored : ∀ w ∈ patch, Holds after w.byteAddress w.bytes
  kept : ∀ o, (∀ w ∈ patch, ∀ k < w.bytes.length,
    ¬ FileByte before.map (w.byteAddress + k) o) → after.file[o]? = before.file[o]?

theorem writes_nil (image : MemoryImage) : Writes image image [] :=
  ⟨rfl, fun _ hw => (List.not_mem_nil hw).elim, fun _ _ => rfl⟩

/-- A write and then a patch that leaves it alone. -/
theorem Writes.cons {before middle after : MemoryImage} {w : CellWrite} {rest : List CellWrite}
    (hw : StoresAt before middle w.byteAddress w.bytes) (hrest : Writes middle after rest)
    (hapart : ∀ v ∈ rest, w.Apart v) : Writes before after (w :: rest) := by
  have hmap := hrest.map_eq.trans hw.map_eq
  refine ⟨hmap, fun v hv => ?_, fun o ho => ?_⟩
  · rcases List.mem_cons.1 hv with rfl | hv
    · intro k hk
      obtain ⟨o, ho, hbyte⟩ := hw.stored k hk
      refine ⟨o, hrest.map_eq ▸ ho, ?_⟩
      -- a byte of the rest at this place would be one of an overlapping cell
      rw [hrest.kept o fun v' hv' j hj hfile => ?_, hbyte]
      have heq := ho.inj hfile
      rcases hapart v' hv' with hle | hle
      · omega
      · omega
    · exact hrest.stored v hv
  · rw [hrest.kept o fun v hv k hk => ?_, hw.kept o fun k hk => ho w List.mem_cons_self k hk]
    rw [hw.map_eq]
    exact ho v (List.mem_cons_of_mem _ hv) k hk

theorem writeCells_eq_ok {session : CalibrationSession} {patch : List CellWrite}
    (hcheck : ∀ w ∈ patch, session.checkWrite w.byteAddress w.bytes.length = .ok ())
    (hne : ∀ w ∈ patch, w.bytes ≠ []) (hapart : patch.Pairwise CellWrite.Apart) :
    ∃ image, writeCells session patch =
        (.ok (), { session with image, dirty := session.dirty || !patch.isEmpty }) ∧
      Writes session.image image patch := by
  induction patch generalizing session with
  | nil =>
    refine ⟨session.image, ?_, writes_nil _⟩
    simp only [writeCells, List.isEmpty_nil, Bool.not_true, Bool.or_false]
  | cons w rest ih =>
    rw [List.forall_mem_cons] at hcheck hne
    rw [List.pairwise_cons] at hapart
    obtain ⟨middle, hwrite, hstores⟩ := CalibrationSession.writeBytes_of_ok hcheck.1 hne.1
    have hrest : ∀ v ∈ rest, CalibrationSession.checkWrite
        { session with image := middle, dirty := true } v.byteAddress v.bytes.length = .ok () := by
      intro v hv
      rw [CalibrationSession.checkWrite_congr hstores.map_eq]
      exact hcheck.2 v hv
    obtain ⟨image, hcells, hwrites⟩ := ih hrest hne.2 hapart.2
    refine ⟨image, ?_, hwrites.cons hstores hapart.1⟩
    simp only [writeCells, hwrite, hcells, List.isEmpty_cons, Bool.not_false, Bool.or_true,
      Bool.true_or]

/-- What the first loop lets through. -/
theorem checkPatch_eq_ok {session : CalibrationSession} {spec : MapElementSpec α} {cellCount : ℕ}
    {patch : List CellWrite} (h : checkPatch session spec cellCount patch = .ok ()) :
    ∀ w ∈ patch, w.bytes.length = storageByteSize spec.storageType ∧
      w.byteAddress = elementByteAddress spec w.index ∧
      session.checkWrite w.byteAddress w.bytes.length = .ok () := by
  induction patch with
  | nil => exact fun _ hw => (List.not_mem_nil hw).elim
  | cons w rest ih =>
    simp only [checkPatch] at h
    split at h
    · cases h
    · rename_i hvalid
      simp only [not_or, ne_eq, not_not] at hvalid
      split at h
      · cases h
      · rename_i hwrite
        exact List.forall_mem_cons.2 ⟨⟨hvalid.2.1, hvalid.2.2, hwrite⟩, ih h⟩

/-- Two cells of a run are apart, if there is a stride. -/
theorem apart_of_index_ne {spec : MapElementSpec α} (hinterval : spec.interval ≠ 0)
    {v w : CellWrite} (hv : v.bytes.length = storageByteSize spec.storageType ∧
      v.byteAddress = elementByteAddress spec v.index ∧ v.byteAddress < u64Max)
    (hw : w.bytes.length = storageByteSize spec.storageType ∧
      w.byteAddress = elementByteAddress spec w.index ∧ w.byteAddress < u64Max)
    (hne : v.index ≠ w.index) : v.Apart w := by
  have hstep : storageByteSize spec.storageType ≤
      spec.interval.toNat * storageByteSize spec.storageType := by
    refine Nat.le_mul_of_pos_left _ (Nat.pos_of_ne_zero fun hzero => hinterval ?_)
    exact UInt32.toNat.inj hzero
  -- the smaller index is at least one stride before
  have hbefore : ∀ i j : ℕ, i < j →
      i * (spec.interval.toNat * storageByteSize spec.storageType) +
        storageByteSize spec.storageType ≤
      j * (spec.interval.toNat * storageByteSize spec.storageType) := by
    intro i j hij
    calc i * (spec.interval.toNat * storageByteSize spec.storageType) +
          storageByteSize spec.storageType
        ≤ i * (spec.interval.toNat * storageByteSize spec.storageType) +
          spec.interval.toNat * storageByteSize spec.storageType := Nat.add_le_add_left hstep _
      _ = (i + 1) * (spec.interval.toNat * storageByteSize spec.storageType) := by
        rw [Nat.add_mul, Nat.one_mul]
      _ ≤ j * (spec.interval.toNat * storageByteSize spec.storageType) :=
        Nat.mul_le_mul_right _ hij
  have haddress : ∀ u : CellWrite, u.byteAddress = elementByteAddress spec u.index →
      u.byteAddress < u64Max → u.byteAddress = spec.address +
        elementOffset spec.startPosition spec.interval (storageByteSize spec.storageType) u.index :=
    fun u hu hlt => hu.trans (elementByteAddress_of_lt (hu ▸ hlt))
  have hv' := haddress v hv.2.1 hv.2.2
  have hw' := haddress w hw.2.1 hw.2.2
  simp only [elementOffset] at hv' hw'
  rw [CellWrite.Apart, hv.1, hw.1]
  rcases lt_or_gt_of_ne hne with hlt | hlt
  · have := hbefore _ _ hlt
    omega
  · have := hbefore _ _ hlt
    omega

/-- **A patch of different cells is written whole or not at all.** -/
theorem writePatch_cases {session : CalibrationSession} {spec : MapElementSpec α} {cellCount : ℕ}
    {patch : List CellWrite} (hinterval : spec.interval ≠ 0)
    (hnodup : (patch.map (·.index)).Nodup) (hne : patch ≠ []) :
    (∃ e, writePatch session spec cellCount patch = (.error e, session)) ∨
      ∃ image, writePatch session spec cellCount patch =
          (.ok (), { session with image, dirty := true }) ∧
        Writes session.image image patch := by
  simp only [writePatch]
  split
  · rename_i e he
    exact .inl ⟨e, rfl⟩
  · rename_i hok
    have hchecked := checkPatch_eq_ok hok
    have hlt : ∀ w ∈ patch, w.byteAddress < u64Max := by
      intro w hw
      have hle := CalibrationSession.le_of_checkWrite (hchecked w hw).2.2
      have hsize := base_add_definitionSize_lt session.image.map
      have : (u32Size : ℕ) ≤ u64Max := by decide
      omega
    have hapart : patch.Pairwise CellWrite.Apart := by
      refine List.Pairwise.imp_of_mem ?_ (List.pairwise_map.1 hnodup)
      intro v w hv hw hindex
      exact apart_of_index_ne hinterval ⟨(hchecked v hv).1, (hchecked v hv).2.1, hlt v hv⟩
        ⟨(hchecked w hw).1, (hchecked w hw).2.1, hlt w hw⟩ hindex
    have hbytes : ∀ w ∈ patch, w.bytes ≠ [] := by
      intro w hw hnil
      have hlength := (hchecked w hw).1
      rw [hnil] at hlength
      exact (storageByteSize_pos spec.storageType).ne hlength
    obtain ⟨image, hcells, hwrites⟩ :=
      writeCells_eq_ok (fun w hw => (hchecked w hw).2.2) hbytes hapart
    refine .inr ⟨image, ?_, hwrites⟩
    rw [hcells, show patch.isEmpty = false from List.isEmpty_eq_false_iff.2 hne, Bool.not_false,
      Bool.or_true]

/-! ### The run of a target -/

section Target

variable {N : Numbers α} {rom : DefinitionBytes} {definition : RomDefinition}
  {map : CalibrationMap} {target : NumericTarget} {cells : NumericRun α}

theorem decodeNumericRun_eq_ok {run : ElementRun} (h : decodeNumericRun N rom run = .ok cells) :
    run.Readable ∧ cells.length = run.count := by
  simp only [decodeNumericRun] at h
  split at h
  · rename_i hread
    split at h
    · cases h
    · cases h
      exact ⟨hread, by rw [List.length_map, List.length_range]⟩
  · cases h

/-- The run of an element that has cells. -/
structure MapElement.HasCells (element : MapElement α) (cells : NumericRun α) : Prop where
  address_ne : element.address ≠ none
  count_ne : element.count ≠ 0
  count_le : element.count ≤ u32Max
  readable : element.run.Readable
  length_eq : cells.length = element.count

theorem hasCells_of_decode {element : MapElement α} (haddress : element.address ≠ none)
    (hcount : element.count ≠ 0) (hle : element.count ≤ u32Max)
    (h : decodeNumericRun N rom element.run = .ok cells) : element.HasCells cells := by
  obtain ⟨hread, hlength⟩ := decodeNumericRun_eq_ok h
  exact ⟨haddress, hcount, hle, hread, hlength.trans (u32_of_le hle)⟩

theorem decodeTypedAxis_eq_run {axis : AxisDefinition} {extent : UInt32} {xAxis : Bool}
    {mapType : String} {element : MapElement α}
    (h : decodeTypedAxis N axis extent rom xAxis mapType element = .ok (.run cells)) :
    ¬ extent ≤ 1 ∧ axis.address ≠ none ∧ decodeNumericRun N rom element.run = .ok cells := by
  simp only [decodeTypedAxis] at h
  split at h
  · cases h
  · rename_i hextent
    split at h
    · split at h
      · cases h
      · cases h
    · split at h
      · cases h
      · split at h
        · cases h
        · rename_i haddress
          split at h
          · cases h
          · rename_i hrun
            cases h
            exact ⟨(not_or.1 hextent).1, haddress, hrun⟩

theorem axis_hasCells {element : MapElement α} {size : UInt32}
    (hsize : element.count = size.toNat) (hone : ¬ size ≤ 1) (haddress : element.address ≠ none)
    (h : decodeNumericRun N rom element.run = .ok cells) : element.HasCells cells := by
  have hlt := size.toNat_lt
  have hpos : 1 < size.toNat := not_le.1 fun hle => hone (UInt32.le_iff_toNat_le.2 hle)
  exact hasCells_of_decode haddress (by omega) (by rw [u32Max]; omega) h

/-- The cells of a target are those of its element. -/
theorem targetCells_hasCells {decoded : DecodedMap α}
    (h : decodeCalibrationMap N definition map rom = .ok decoded)
    (hcells : targetCells decoded target = some cells) :
    (resolveMapElement N definition map target).HasCells cells := by
  simp only [decodeCalibrationMap] at h
  split at h
  · cases h
  · split at h
    · cases h
    · rename_i hdims
      rw [not_or, not_or, not_lt] at hdims
      split at h
      · -- a blob has no cells
        split at h
        · cases h
        · cases h
          cases target <;> cases hcells
      · split at h
        · cases h
        · rename_i body hbody
          split at h
          · cases h
          · rename_i xAxis hx
            split at h
            · cases h
            · rename_i yAxis hy
              cases h
              cases target with
              | mapBody =>
                cases hcells
                exact hasCells_of_decode hdims.1 hdims.2.1 hdims.2.2 hbody
              | xAxis =>
                simp only [targetCells] at hcells
                split at hcells
                · cases hcells
                  obtain ⟨hone, haddress, hrun⟩ := decodeTypedAxis_eq_run hx
                  exact axis_hasCells (resolveMapElement_count_axis N definition map (by decide)) hone
                    haddress hrun
                · cases hcells
              | yAxis =>
                simp only [targetCells] at hcells
                split at hcells
                · cases hcells
                  obtain ⟨hone, haddress, hrun⟩ := decodeTypedAxis_eq_run hy
                  exact axis_hasCells (resolveMapElement_count_axis N definition map (by decide)) hone
                    haddress hrun
                · cases hcells

theorem decodeMap_eq_ok {session : CalibrationSession} {mapIndex : ℕ} {decoded : DecodedMap α}
    (hdefinition : session.definition = some definition)
    (hmap : definition.maps[mapIndex]? = some map)
    (h : session.decodeMap N mapIndex = .ok decoded) :
    ∃ extent window, checkMapPlacement N definition map session.image.map = .ok extent ∧
      decodeCalibrationMap N definition map ⟨window, extent.start⟩ = .ok decoded := by
  simp only [CalibrationSession.decodeMap, hdefinition, hmap] at h
  split at h
  · cases h
  · rename_i extent hextent
    split at h
    · cases h
    · rename_i window hwindow
      exact ⟨extent, window, hextent, h⟩

/-- The run behind the cells of an element: its bytes are in the ROM file, and its addresses are
those of the layout. -/
structure MapElement.ReadRun (element : MapElement α) (memoryMap : MemoryMap)
    (cells : NumericRun α) : Prop where
  length_eq : cells.length = element.width.toNat * element.height.toNat
  interval_ne : element.interval ≠ 0
  stop_eq : elementRunEnd element.base element.startPosition element.interval element.byteWidth
    (u32 cells.length) = element.run.stop
  placed : Placed memoryMap element.base element.run.stop
  cell_eq : ∀ index < cells.length,
    cellAddress element.run (storageByteSize element.storageType) index = element.base +
      elementOffset element.startPosition element.interval (storageByteSize element.storageType)
        index

theorem targetCells_readRun {memoryMap : MemoryMap} {extent : MapExtent}
    (hplacement : checkMapPlacement N definition map memoryMap = .ok extent)
    (h : (resolveMapElement N definition map target).HasCells cells) :
    (resolveMapElement N definition map target).ReadRun memoryMap cells := by
  obtain ⟨a, ha⟩ := Option.ne_none_iff_exists'.1 h.address_ne
  have hbase := MapElement.base_eq ha
  obtain ⟨run, -, hstart, hplaced, hend, -⟩ :=
    run_of_placed hplacement ha h.count_ne h.count_le h.readable
  have hinside := runInside hplacement ha h.count_ne h.count_le h.readable
  refine ⟨h.length_eq, h.readable.2.2.2, ?_, ?_, fun index hindex => ?_⟩
  · have hwidth : (resolveMapElement N definition map target).byteWidth =
        storageByteSize (resolveMapElement N definition map target).storageType := by
      rw [resolveMapElement_byteWidth]
      exact elementByteWidth_of_ne _ h.readable.2.1
    rw [h.length_eq, hwidth]
    rfl
  · rw [hbase, ← hstart, ← hend]
    exact hplaced
  · rw [hbase]
    exact hinside.cell_eq index (h.length_eq ▸ hindex)

end Target

/-! ### An edit does all or nothing -/

/-- What an edit has done to the image of its session: the cell of every request has the encoding of
its value within the limits, where the decoder reads it, and no other file byte changes. -/
structure Edited (N : Numbers α) (element : MapElement α) (limits : Limits α)
    (requests : List (Request α)) (before after : MemoryImage) : Prop where
  map_eq : after.map = before.map
  address_eq : ∀ request ∈ requests, elementByteAddress element.editSpec request.index =
    cellAddress element.run (storageByteSize element.storageType) request.index
  stored : ∀ request ∈ requests, ∃ value bytes, request.value = .ok value ∧
    encodeValue N element.editSpec (clamp N limits value) = .ok bytes ∧
    Holds after (elementByteAddress element.editSpec request.index) bytes
  kept : ∀ o, (∀ request ∈ requests, ∀ k < storageByteSize element.storageType,
    ¬ FileByte before.map (elementByteAddress element.editSpec request.index + k) o) →
      after.file[o]? = before.file[o]?

section Apply

variable {N : Numbers α} {session : CalibrationSession} {element : MapElement α}
  {cells : NumericRun α} {limits : Limits α} {requests : List (Request α)}
  {writes : List CellWrite} {window : Bytes} {image : MemoryImage}

/-- A request that is met is for a cell of the window. -/
theorem Request.Met.address_lt {request : Request α} {rom : DefinitionBytes}
    (hrom : rom.start + rom.data.length < u64Max)
    (h : request.Met N rom element.editSpec limits writes) :
    elementByteAddress element.editSpec request.index < u64Max := by
  obtain ⟨_, _, _, -, -, hat, -⟩ := h
  obtain ⟨-, hle, -⟩ := at_eq_some hat
  omega

/-- **A patch that is written does what was asked for**, also to the cells that it leaves out. -/
theorem edited_of_writes (hrun : element.ReadRun session.image.map cells)
    (hread : session.read element.base (element.run.stop - element.base) = .ok window)
    (hindex : ∀ request ∈ requests, request.index < cells.length)
    (hnodup : (requests.map (·.index)).Nodup)
    (hpatch : Patches N ⟨window, element.base⟩ element.editSpec limits requests writes)
    (hwrites : Writes session.image image writes) :
    Edited N element limits requests session.image image := by
  have hrom : element.base + window.length < u64Max := by
    have hle := CalibrationSession.le_of_read hread
    have hlt := base_add_definitionSize_lt session.image.map
    have hmax : (u32Size : ℕ) ≤ u64Max := by decide
    rw [CalibrationSession.read_eq_ok hle] at hread
    cases hread
    rw [length_renderWindow]
    omega
  have haddress_lt : ∀ request ∈ requests,
      elementByteAddress element.editSpec request.index < u64Max :=
    fun request hrequest => (hpatch.met request hrequest).address_lt hrom
  refine ⟨hwrites.map_eq, fun request hrequest => ?_, fun request hrequest => ?_, fun o ho => ?_⟩
  · rw [hrun.cell_eq _ (hindex request hrequest),
      elementByteAddress_of_lt (haddress_lt request hrequest)]
    rfl
  · obtain ⟨value, bytes, current, hvalue, hbytes, hat, hmem⟩ := hpatch.met request hrequest
    refine ⟨value, bytes, hvalue, hbytes, ?_⟩
    by_cases hwritten : ∃ w ∈ writes, w.index = request.index
    · -- the write of this index is the one of this request
      obtain ⟨w, hw, hsame⟩ := hwritten
      obtain ⟨request', hrequest', value', hvalue', hbytes', hindex', haddress⟩ :=
        hpatch.of_request w hw
      cases List.inj_on_of_nodup_map hnodup hrequest' hrequest (hindex'.symm.trans hsame)
      cases hvalue.symm.trans hvalue'
      cases hbytes.symm.trans hbytes'
      rw [← haddress]
      exact hwrites.stored w hw
    · -- the cell has its bytes already, and every write is of another cell
      have hcurrent : current = bytes := by
        by_contra hne
        exact hwritten ⟨_, hmem hne, rfl⟩
      have hholds : Holds session.image _ bytes := hcurrent ▸ holds_of_at hrun.placed hread hat
      intro k hk
      obtain ⟨o, ho, hbyte⟩ := hholds k hk
      refine ⟨o, hwrites.map_eq ▸ ho, ?_⟩
      rw [hwrites.kept o fun w hw j hj hfile => ?_, hbyte]
      obtain ⟨request', hrequest', value', hvalue', hbytes', hindex', haddress⟩ :=
        hpatch.of_request w hw
      have hapart : CellWrite.Apart
          ⟨request.index, elementByteAddress element.editSpec request.index, bytes⟩ w := by
        refine apart_of_index_ne hrun.interval_ne
          ⟨(encodeValue_eq_ok hbytes).1, rfl, haddress_lt request hrequest⟩
          ⟨(encodeValue_eq_ok hbytes').1, hindex' ▸ haddress, ?_⟩
          fun hsame => hwritten ⟨w, hw, hsame.symm⟩
        rw [haddress]
        exact haddress_lt request' hrequest'
      have heq := ho.inj hfile
      rcases hapart with hle | hle
      · simp only at hle
        omega
      · simp only at hle
        omega
  · refine hwrites.kept o fun w hw k hk => ?_
    obtain ⟨request, hrequest, value, -, hbytes, -, haddress⟩ := hpatch.of_request w hw
    rw [haddress]
    exact ho request hrequest k ((encodeValue_eq_ok hbytes).1 ▸ hk)

/-- Applying an edit either fails or finds nothing to change, and leaves the session alone, or it
has edited the cells of the operation. -/
theorem apply_cases (hrun : element.ReadRun session.image.map cells) (range : SelectionRange)
    (operation : NumericEditOperation) :
    (∃ result, result ≠ .ok .changed ∧
      PreparedNumericTarget.apply N ⟨session, element, cells⟩ range operation =
        (result, session)) ∨
    ∃ image requests limits,
      PreparedNumericTarget.apply N ⟨session, element, cells⟩ range operation =
        (.ok .changed, { session with image, dirty := true }) ∧
      limitsFor N element.editSpec = .ok limits ∧
      operation.requests N element.editSpec range element.width.toNat element.height.toNat cells =
        .ok requests ∧
      requests.map (·.index) =
        (operation.cells element.width.toNat element.height.toNat range).map
          (fun c => c.1 * element.width.toNat + c.2) ∧
      Edited N element limits requests session.image image := by
  simp only [PreparedNumericTarget.apply]
  split
  · refine .inl ⟨_, ?_, rfl⟩
    exact fun h => nomatch h
  · rename_i window hread
    split
    · refine .inl ⟨_, ?_, rfl⟩
      exact fun h => nomatch h
    · rename_i calculated hcalculated
      obtain ⟨hvalid, requests, limits, hrequests, hlimits, hpatch⟩ :=
        calculate_eq_ok hrun.length_eq hcalculated
      have hindices := requests_index_eq hvalid hrequests
      have hnodup := nodup_requests_index hvalid hrequests
      have hlt := requests_index_lt hvalid hrequests
      rw [← hrun.length_eq] at hlt
      split
      · refine .inl ⟨_, ?_, rfl⟩
        exact fun h => nomatch h
      · rename_i hne
        have hinterval : element.editSpec.interval ≠ 0 := hrun.interval_ne
        rcases writePatch_cases hinterval (hpatch.sublist.nodup hnodup) hne with
          ⟨e, he⟩ | ⟨image, hok, hwrites⟩
        · rw [he]
          refine .inl ⟨_, ?_, rfl⟩
          exact fun h => nomatch h
        · rw [hok]
          -- the window that is read ends where the decoded run does
          have hwindow : session.read element.base (element.run.stop - element.base) =
              .ok window := hrun.stop_eq ▸ hread
          exact .inr ⟨image, requests, limits, rfl, hlimits, hrequests, hindices,
            edited_of_writes hrun hwindow hlt hnodup hpatch hwrites⟩

/-- What is prepared is a run of the session. -/
theorem prepareNumericTarget_eq_ok {workspace : CalibrationWorkspace} {id mapIndex : ℕ}
    {target : NumericTarget} {prepared : PreparedNumericTarget α}
    (h : prepareNumericTarget N workspace id mapIndex target = .ok prepared) :
    ∃ definition map decoded, workspace.find id = some prepared.session ∧
      prepared.session.definition = some definition ∧ definition.maps[mapIndex]? = some map ∧
      prepared.session.decodeMap N mapIndex = .ok decoded ∧
      targetCells decoded target = some prepared.cells ∧
      prepared.element = resolveMapElement N definition map target ∧
      prepared.element.ReadRun prepared.session.image.map prepared.cells := by
  simp only [prepareNumericTarget] at h
  split at h
  · cases h
  · rename_i session definition map hlocate
    simp only [locateMap] at hlocate
    split at hlocate
    · cases hlocate
    · rename_i hfind
      split at hlocate
      · cases hlocate
      · rename_i hdefinition
        split at hlocate
        · cases hlocate
        · rename_i hmap
          cases hlocate
          split at h
          · cases h
          · rename_i decoded hdecoded
            split at h
            · cases h
            · rename_i cells hcells
              cases h
              obtain ⟨extent, window, hplacement, hdecode⟩ :=
                decodeMap_eq_ok hdefinition hmap hdecoded
              exact ⟨definition, map, decoded, hfind, hdefinition, hmap, hdecoded, hcells, rfl,
                targetCells_readRun hplacement (targetCells_hasCells hdecode hcells)⟩

end Apply

/-- **A numeric edit does all or nothing.**  Unless it is reported as changed, no session of the
workspace changes.  If it is, its session is marked and has been edited: the cells of the operation
have the encodings of their values within the limits, and no other byte of the ROM file changes.  The
cells are those of the selection, or of the pasted rows as far as the run has room for them. -/
theorem editNumeric_atomic (N : Numbers α) (workspace : CalibrationWorkspace) (map : MapRef)
    (selection : NumericSelection) (operation : NumericEditOperation) :
    ((editNumeric N workspace map selection operation).1 ≠ .ok .changed →
      (editNumeric N workspace map selection operation).2 = workspace) ∧
    ((editNumeric N workspace map selection operation).1 = .ok .changed →
      ∃ session definition calibrationMap decoded cells image element requests limits,
        workspace.find map.session = some session ∧
        session.definition = some definition ∧
        definition.maps[map.mapIndex]? = some calibrationMap ∧
        session.decodeMap N map.mapIndex = .ok decoded ∧
        targetCells decoded selection.target = some cells ∧
        element = resolveMapElement N definition calibrationMap selection.target ∧
        (editNumeric N workspace map selection operation).2 =
          workspace.update { session with image, dirty := true } ∧
        (editNumeric N workspace map selection operation).2.find map.session =
          some { session with image, dirty := true } ∧
        limitsFor N element.editSpec = .ok limits ∧
        operation.requests N element.editSpec selection.elements element.width.toNat
          element.height.toNat cells = .ok requests ∧
        requests.map (·.index) = (operation.cells element.width.toNat element.height.toNat
          selection.elements).map (fun c => c.1 * element.width.toNat + c.2) ∧
        Edited N element limits requests session.image image) := by
  cases hprepare : prepareNumericTarget N workspace map.session map.mapIndex selection.target with
  | error reason =>
    have hedit : editNumeric N workspace map selection operation =
        (.ok (.notApplicable reason), workspace) := by
      simp only [editNumeric, hprepare]
    rw [hedit]
    exact ⟨fun _ => rfl, fun h => nomatch h⟩
  | ok prepared =>
    obtain ⟨session, element, cells⟩ := prepared
    obtain ⟨definition, calibrationMap, decoded, hfind, hdefinition, hmap, hdecoded, hcells,
      helement, hrun⟩ := prepareNumericTarget_eq_ok hprepare
    simp only [editNumeric, hprepare]
    rcases apply_cases (N := N) hrun selection.elements operation with
      ⟨result, hne, happly⟩ | ⟨image, requests, limits, happly, hlimits, hrequests, hindices, hedited⟩
    · rw [happly]
      exact ⟨fun _ => CalibrationWorkspace.update_self hfind, fun h => absurd h hne⟩
    · rw [happly]
      refine ⟨fun h => absurd rfl h, fun _ => ⟨session, definition, calibrationMap, decoded, cells,
        image, element, requests, limits, hfind, hdefinition, hmap, hdecoded, hcells, helement, rfl,
        ?_, hlimits, hrequests, hindices, hedited⟩⟩
      exact CalibrationWorkspace.find_update hfind rfl

/-- A workspace with one session, of two byte cells. -/
def twoCellsWorkspace : CalibrationWorkspace :=
  [⟨1, twoBytesImage, some ⟨[twoCells], []⟩, false⟩]

/-- Two values are pasted where one cell is selected: the cell beside it changes as well. -/
theorem editNumeric_paste_beside :
    (SelectionRange.cells ⟨0, 0, 0, 0⟩ = [(0, 0)]) ∧
    (editNumeric integers twoCellsWorkspace ⟨1, 0⟩ ⟨.mapBody, ⟨0, 0, 0, 0⟩⟩
      (.paste [["5", "6"]])).1 = .ok .changed ∧
    (editNumeric integers twoCellsWorkspace ⟨1, 0⟩ ⟨.mapBody, ⟨0, 0, 0, 0⟩⟩
      (.paste [["5", "6"]])).2.map (·.image.file) = [[5, 6]] ∧
    twoCellsWorkspace.map (·.image.file) = [[7, 8]] := by
  decide +kernel


end FastEcu.Calibration
