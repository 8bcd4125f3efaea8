import FastEcu.Calibration.Session

/-!
# A placed map can be decoded

`DecodeMap` of a session checks the placement of a map once, reads the extent of it and decodes the
map from that window, with address arithmetic of its own.  A map that is placed is inside the window,
and no address of it wraps.

The widths of blobs come from the definition.  The resolver refuses a selection without bytes; the
placement check does not look, and accepts a blob of no bytes anywhere.

* `Measured` : the blobs have a width of 32 bits, and those without bytes start inside the memory.
* `checkTarget_inside` : then every checked run is inside the memory.
-/

namespace FastEcu.Calibration

open Memory Expression

variable {α : Type}

/-- The width of each blob fits in 32 bits, and a blob of no bytes starts inside the memory. -/
def Measured (N : Numbers α) (definition : RomDefinition) (map : CalibrationMap)
    (memoryMap : MemoryMap) : Prop :=
  ∀ target selection, (resolveMapElement N definition map target).storageType = some .bloblist →
    (targetScaling definition map target).bind (·.selections.head?) = some selection →
    selection.value.length ≤ u32Max ∧
      (selection.value = [] → ∀ a, (resolveMapElement N definition map target).address = some a →
        a.value ≤ definitionSize memoryMap)

variable {N : Numbers α} {definition : RomDefinition} {map : CalibrationMap}
  {memoryMap : MemoryMap} {extent : MapExtent} {target : NumericTarget}

theorem address_le_of_byteWidth (hm : Measured N definition map memoryMap)
    (h : (resolveMapElement N definition map target).byteWidth = 0) {a : DefinitionAddress}
    (ha : (resolveMapElement N definition map target).address = some a) :
    a.value ≤ definitionSize memoryMap := by
  rw [resolveMapElement_byteWidth] at h
  simp only [elementByteWidth] at h
  split at h
  · rename_i selection hstorage hselection
    obtain ⟨hle, hin⟩ := hm target selection hstorage hselection
    rw [u32_of_le hle] at h
    exact hin (List.length_eq_zero_iff.1 h) a ha
  · exact absurd h (storageByteSize_pos _).ne'

theorem checkTarget_inside (hm : Measured N definition map memoryMap) {run : MapExtent}
    (h : checkTarget N definition map memoryMap target = .ok (some run)) :
    run.Inside memoryMap := by
  have hzero : (resolveMapElement N definition map target).byteWidth = 0 → ∀ a,
      (resolveMapElement N definition map target).address = some a →
        a.value ≤ definitionSize memoryMap :=
    fun hwidth a ha => address_le_of_byteWidth hm hwidth ha
  cases target with
  | mapBody =>
    simp only [checkTarget, checkBody] at h
    split at h
    · exact checkRun_inside hzero h
    · exact checkRun_inside hzero h
  | xAxis => exact checkRun_inside hzero h
  | yAxis => exact checkRun_inside hzero h

/-! ### The texts of the decoder -/

/-- The text complains that something exceeds the ROM. -/
def ExceedsRom (detail : String) : Prop := "exceeds ROM size".toList <:+ detail.toList

theorem not_exceedsRom {detail : String} {c : Char} (h : detail.toList.getLast? = some c)
    (hc : c ≠ 'e') : ¬ ExceedsRom detail := by
  rintro ⟨s, hs⟩
  rw [← hs, List.getLast?_append] at h
  exact hc (Option.some.inj h).symm

/-- What follows decides how a text ends. -/
theorem not_exceedsRom_append (before detail : String) {c : Char}
    (h : detail.toList.getLast? = some c) (hc : c ≠ 'e') : ¬ ExceedsRom (before ++ detail) := by
  refine not_exceedsRom (c := c) ?_ hc
  rw [String.toList_append, List.getLast?_append, h]
  rfl

/-! ### A window over the extent has every run -/

theorem MapElement.base_eq {element : MapElement α} {a : DefinitionAddress}
    (h : element.address = some a) : element.base = a.value := by
  rw [MapElement.base, h]
  rfl

/-- The run of a target that the decoder reads, where it lies and how its elements are placed. -/
theorem run_of_placed (h : checkMapPlacement N definition map memoryMap = .ok extent)
    {a : DefinitionAddress} (ha : (resolveMapElement N definition map target).address = some a)
    (hcount : (resolveMapElement N definition map target).count ≠ 0)
    (hle : (resolveMapElement N definition map target).count ≤ u32Max)
    (hread : (resolveMapElement N definition map target).run.Readable) :
    ∃ run : MapExtent, extent.Covers run ∧ run.start = a.value ∧
      Placed memoryMap run.start run.stop ∧
      run.stop = (resolveMapElement N definition map target).run.stop ∧
      run.stop = a.value + elementOffset
        (resolveMapElement N definition map target).startPosition
        (resolveMapElement N definition map target).interval
        (storageByteSize (resolveMapElement N definition map target).storageType)
        ((resolveMapElement N definition map target).count - 1) +
        storageByteSize (resolveMapElement N definition map target).storageType := by
  obtain ⟨runs, hruns, -⟩ := checkMapPlacement_eq_ok h
  obtain ⟨run, hrun, subject, hcheck⟩ :=
    checkTarget_run ⟨_, hruns target⟩ hread.2.1 ha hcount hle
  obtain ⟨a', ha', -, -, hstart, hend, hstop, hplaced⟩ := checkRun_eq_some hcheck
  cases ha'
  refine ⟨run, checkMapPlacement_covers h hrun, hstart, hplaced (storageByteSize_pos _), ?_, hstop⟩
  rw [hend, ElementRun.stop, show (resolveMapElement N definition map target).run.address = a.value
    from MapElement.base_eq ha]
  rfl

theorem at_run_isSome (h : checkMapPlacement N definition map memoryMap = .ok extent)
    {window : Bytes} (hwindow : extent.start + window.length = extent.stop)
    (ha : (resolveMapElement N definition map target).address ≠ none)
    (hcount : (resolveMapElement N definition map target).count ≠ 0)
    (hle : (resolveMapElement N definition map target).count ≤ u32Max)
    (hread : (resolveMapElement N definition map target).run.Readable) :
    (DefinitionBytes.at ⟨window, extent.start⟩
      (resolveMapElement N definition map target).run.address
      ((resolveMapElement N definition map target).run.stop -
        (resolveMapElement N definition map target).run.address)).isSome := by
  obtain ⟨a, ha⟩ := Option.ne_none_iff_exists'.1 ha
  obtain ⟨run, hcover, hstart, -, hend, hstop⟩ := run_of_placed h ha hcount hle hread
  have hbase : (resolveMapElement N definition map target).run.address = a.value :=
    MapElement.base_eq ha
  have hcov := hcover.start_le
  have hcov' := hcover.stop_le
  -- the end that the decoder computes is the one that was checked
  rw [hbase, ← hend]
  exact at_isSome (by simp only; omega) (by simp only; omega)

/-- Where the blob of a map lies. -/
theorem blob_of_placed (h : checkMapPlacement N definition map memoryMap = .ok extent)
    {a : DefinitionAddress} (ha : (resolveMapElement N definition map .mapBody).address = some a)
    (hblob : (resolveMapElement N definition map .mapBody).storageType = some .bloblist) :
    extent.start ≤ a.value ∧
      a.value + (resolveMapElement N definition map .mapBody).byteWidth ≤ extent.stop := by
  obtain ⟨runs, hruns, -⟩ := checkMapPlacement_eq_ok h
  have hcheck := hruns .mapBody
  simp only [checkTarget, checkBody, if_pos hblob, ha] at hcheck
  cases hrun : runs .mapBody with
  | none =>
    rw [hrun] at hcheck
    exact absurd hcheck (checkRun_ne_none (by decide) (by decide))
  | some run =>
    rw [hrun] at hcheck
    have hcover := checkMapPlacement_covers h ((hruns .mapBody).trans (by rw [hrun]))
    obtain ⟨a', ha', -, -, hstart, -, hstop, -⟩ := checkRun_eq_some hcheck
    cases ha'
    have hcov := hcover.start_le
    have hcov' := hcover.stop_le
    simp only [elementOffset, startOffset, UInt32.toNat_one] at hstop
    exact ⟨by omega, by omega⟩

theorem at_blob_isSome (h : checkMapPlacement N definition map memoryMap = .ok extent)
    {window : Bytes} (hwindow : extent.start + window.length = extent.stop)
    (ha : (resolveMapElement N definition map .mapBody).address ≠ none)
    (hblob : (resolveMapElement N definition map .mapBody).storageType = some .bloblist) :
    (DefinitionBytes.at ⟨window, extent.start⟩ (resolveMapElement N definition map .mapBody).base
      (resolveMapElement N definition map .mapBody).byteWidth).isSome := by
  obtain ⟨a, ha⟩ := Option.ne_none_iff_exists'.1 ha
  obtain ⟨hstart, hstop⟩ := blob_of_placed h ha hblob
  rw [MapElement.base_eq ha]
  exact at_isSome hstart (hwindow ▸ hstop)

/-- Nothing of a placed map exceeds a window over its extent. -/
theorem decodeCalibrationMap_error (h : checkMapPlacement N definition map memoryMap = .ok extent)
    {window : Bytes} (hwindow : extent.start + window.length = extent.stop) {e : Error}
    (he : decodeCalibrationMap N definition map ⟨window, extent.start⟩ = .error e) :
    ¬ ExceedsRom e.detail := by
  -- an axis is read only if the map has more than one column, or row, along it
  have haxis : ∀ target, target ≠ .mapBody → ∀ size : UInt32, size.toNat =
      (resolveMapElement N definition map target).count → ¬ size ≤ 1 →
      (resolveMapElement N definition map target).address ≠ none →
      (resolveMapElement N definition map target).run.Readable →
      (DefinitionBytes.at ⟨window, extent.start⟩
        (resolveMapElement N definition map target).run.address
        ((resolveMapElement N definition map target).run.stop -
          (resolveMapElement N definition map target).run.address)).isSome := by
    intro target _ size hsize hone ha hread
    have hlt := size.toNat_lt
    have hpos : 1 < size.toNat := not_le.1 fun hle => hone (UInt32.le_iff_toNat_le.2 hle)
    exact at_run_isSome h hwindow ha (by omega) (by rw [u32Max]; omega) hread
  simp only [decodeCalibrationMap] at he
  split at he
  · cases he
    exact not_exceedsRom_append _ "' has unresolved scaling" rfl (by decide)
  · split at he
    · cases he
      exact not_exceedsRom_append _ "' has invalid address or dimensions" rfl (by decide)
    · rename_i hdims
      rw [not_or, not_or, not_lt] at hdims
      obtain ⟨ha, hcount, hle⟩ := hdims
      split at he
      · rename_i hblob
        obtain ⟨data, hdata⟩ := Option.isSome_iff_exists.1 (at_blob_isSome h hwindow ha hblob)
        simp only [hdata, reduceCtorEq] at he
      · split at he
        · rename_i e' hbody
          cases he
          rw [decodeNumericRun_error N (at_run_isSome h hwindow ha hcount hle) hbody]
          exact not_exceedsRom_append _ _ rfl (by decide)
        · split at he
          · rename_i e' hx
            cases he
            rcases decodeTypedAxis_error N (haxis .xAxis (by decide) map.xSize
              (by rw [resolveMapElement_count_axis _ _ _ (by decide)]; rfl)) hx with hd | hd | hd <;>
            · rw [hd]
              exact not_exceedsRom_append _ _ rfl (by decide)
          · split at he
            · rename_i e' hy
              cases he
              rcases decodeTypedAxis_error N (haxis .yAxis (by decide) map.ySize
                (by rw [resolveMapElement_count_axis _ _ _ (by decide)]; rfl)) hy with
                hd | hd | hd <;>
              · rw [hd]
                exact not_exceedsRom_append _ _ rfl (by decide)
            · cases he

/-! ### Decoding in a session -/

/-- The addresses of a run that the decoder reads: the end of the run and the address of each of its
elements are what the layout says, and they are inside the extent. -/
structure RunInside (extent : MapExtent) (element : MapElement α) (a : DefinitionAddress) :
    Prop where
  stop_eq : element.run.stop = a.value + elementOffset element.startPosition element.interval
    (storageByteSize element.storageType) (element.count - 1) + storageByteSize element.storageType
  stop_le : element.run.stop ≤ extent.stop
  start_le : extent.start ≤ a.value
  cell_eq : ∀ index < element.count,
    cellAddress element.run (storageByteSize element.storageType) index = a.value +
      elementOffset element.startPosition element.interval (storageByteSize element.storageType)
        index
  cell_le : ∀ index < element.count,
    cellAddress element.run (storageByteSize element.storageType) index +
      storageByteSize element.storageType ≤ element.run.stop

theorem elementOffset_mono {startPosition interval : UInt32} {width i j : ℕ} (h : i ≤ j) :
    elementOffset startPosition interval width i ≤ elementOffset startPosition interval width j :=
  Nat.add_le_add_left (Nat.mul_le_mul_right _ h) _

theorem runInside (h : checkMapPlacement N definition map memoryMap = .ok extent)
    {a : DefinitionAddress} (ha : (resolveMapElement N definition map target).address = some a)
    (hcount : (resolveMapElement N definition map target).count ≠ 0)
    (hle : (resolveMapElement N definition map target).count ≤ u32Max)
    (hread : (resolveMapElement N definition map target).run.Readable) :
    RunInside extent (resolveMapElement N definition map target) a := by
  obtain ⟨run, hcover, hstart, hplaced, hend, hstop⟩ := run_of_placed h ha hcount hle hread
  have hfits : run.stop < u64Max := (Nat.le_add_left _ _).trans_lt (hplaced.fits.trans (by decide))
  have hcell : ∀ index < (resolveMapElement N definition map target).count,
      a.value + elementOffset (resolveMapElement N definition map target).startPosition
        (resolveMapElement N definition map target).interval
        (storageByteSize (resolveMapElement N definition map target).storageType) index +
        storageByteSize (resolveMapElement N definition map target).storageType ≤ run.stop := by
    intro index hindex
    rw [hstop]
    exact Nat.add_le_add_right (Nat.add_le_add_left (elementOffset_mono (by omega)) _) _
  have haddress : ∀ index < (resolveMapElement N definition map target).count,
      cellAddress (resolveMapElement N definition map target).run
        (storageByteSize (resolveMapElement N definition map target).storageType) index =
      a.value + elementOffset (resolveMapElement N definition map target).startPosition
        (resolveMapElement N definition map target).interval
        (storageByteSize (resolveMapElement N definition map target).storageType) index := by
    intro index hindex
    have hsum := hcell index hindex
    have hbase : (resolveMapElement N definition map target).run.address = a.value :=
      MapElement.base_eq ha
    rw [← hbase] at hsum ⊢
    exact cellAddress_eq hread.2.2.1 (by omega) (storageByteSize_le _)
      ((Nat.le_add_right _ _).trans (hsum.trans hfits.le))
  refine ⟨hend ▸ hstop, hend ▸ hcover.stop_le, hstart ▸ hcover.start_le, haddress, ?_⟩
  intro index hindex
  rw [haddress index hindex, ← hend]
  exact hcell index hindex

/-- **A placed map cannot run out of the ROM.**  Let the placement check accept a map whose blobs are
measured.  Then the window that `DecodeMap` reads is inside the memory of the session, decoding it
raises no error of the ROM's size, and neither the addresses of the extent in 32 bits nor those of a
run and its elements in 64 bits wrap. -/
theorem checkMapPlacement_decodes_inside
    (h : checkMapPlacement N definition map memoryMap = .ok extent)
    (hm : Measured N definition map memoryMap) :
    (∀ (session : CalibrationSession) (mapIndex : ℕ), session.image.map = memoryMap →
      session.definition = some definition → definition.maps[mapIndex]? = some map →
      ∃ window, session.read extent.start (extent.stop - extent.start) = .ok window ∧
        extent.start + window.length = extent.stop ∧
        session.decodeMap N mapIndex =
          decodeCalibrationMap N definition map ⟨window, extent.start⟩) ∧
    (∀ window : Bytes, extent.start + window.length = extent.stop → ∀ e,
      decodeCalibrationMap N definition map ⟨window, extent.start⟩ = .error e →
        ¬ ExceedsRom e.detail) ∧
    (extent.start ≤ extent.stop ∧ memoryMap.definitionBase.value + extent.stop ≤ u32Max) ∧
    (∀ target a, (resolveMapElement N definition map target).address = some a →
      (resolveMapElement N definition map target).count ≠ 0 →
      (resolveMapElement N definition map target).count ≤ u32Max →
      (resolveMapElement N definition map target).run.Readable →
      RunInside extent (resolveMapElement N definition map target) a) ∧
    (∀ a, (resolveMapElement N definition map .mapBody).address = some a →
      (resolveMapElement N definition map .mapBody).storageType = some .bloblist →
      extent.start ≤ a.value ∧
        a.value + (resolveMapElement N definition map .mapBody).byteWidth ≤ extent.stop) ∧
    (∀ target selection,
      (resolveMapElement N definition map target).storageType = some .bloblist →
      (targetScaling definition map target).bind (·.selections.head?) = some selection →
      (resolveMapElement N definition map target).byteWidth = selection.value.length) := by
  have hinside := checkMapPlacement_inside h fun target run => checkTarget_inside hm
  have hlt := base_add_definitionSize_lt memoryMap
  have hstart := hinside.start_le
  have hstop := hinside.stop_le
  refine ⟨?_, fun window hw e he => decodeCalibrationMap_error h hw he, ⟨hstart, ?_⟩,
    fun target a ha hcount hle hread => runInside h ha hcount hle hread,
    fun a ha hblob => blob_of_placed h ha hblob, fun target selection hblob hselection => ?_⟩
  · rintro session mapIndex rfl hdefinition hmap
    have hle : extent.start + (extent.stop - extent.start) ≤ definitionSize session.image.map := by
      omega
    have hread := CalibrationSession.read_eq_ok hle
    refine ⟨_, hread, ?_, ?_⟩
    · rw [length_renderWindow]
      omega
    · simp only [CalibrationSession.decodeMap, hdefinition, hmap, h, hread]
  · exact Nat.le_sub_one_of_lt ((Nat.add_le_add_left hstop _).trans_lt hlt)
  · rw [resolveMapElement_byteWidth, hblob]
    simp only [elementByteWidth, hselection]
    exact u32_of_le (hm target selection hblob hselection).1

/-- Two bytes of writable memory. -/
def twoBytes : MemoryMap :=
  .whole ⟨⟨0, u32Size_pos⟩, ⟨2, by decide⟩, by decide, by decide⟩ .writable

/-- An image of them. -/
def twoBytesImage : MemoryImage := ⟨twoBytes, [7, 8], rfl⟩

/-- A map of two byte cells. -/
def twoCells : CalibrationMap :=
  { name := "cells", address := some ⟨0, u32Size_pos⟩, xSize := 2, storageType := some .uint8 }

theorem checkMapPlacement_twoCells :
    checkMapPlacement integers ⟨[twoCells], []⟩ twoCells twoBytes = .ok ⟨0, 2⟩ ∧
      ∃ window, CalibrationSession.read ⟨0, ⟨twoBytes, [7, 8], rfl⟩, some ⟨[twoCells], []⟩, false⟩
        0 2 = .ok window := by
  have hplaced : checkMapPlacement integers ⟨[twoCells], []⟩ twoCells twoBytes = .ok ⟨0, 2⟩ := by
    decide +kernel
  have hmeasured : Measured integers ⟨[twoCells], []⟩ twoCells twoBytes := by
    intro target selection hblob
    cases target <;> cases hblob
  obtain ⟨hwindow, -⟩ := checkMapPlacement_decodes_inside hplaced hmeasured
  obtain ⟨window, hread, -⟩ := hwindow ⟨0, ⟨twoBytes, [7, 8], rfl⟩, some ⟨[twoCells], []⟩, false⟩ 0
    rfl rfl rfl
  exact ⟨hplaced, window, hread⟩

/-- A blob whose first selection has no bytes, behind the memory. -/
def emptyBlob : RomDefinition where
  maps := [{ name := "blob", address := some ⟨5, by decide⟩, scalingName := "empty" }]
  scalings := [{ name := "empty", storageType := some .bloblist, selections := [⟨"none", []⟩] }]

/-- A session with that definition. -/
def emptyBlobSession : CalibrationSession :=
  ⟨0, twoBytesImage, some emptyBlob, false⟩

/-- The blob of no bytes is accepted, and the window that `DecodeMap` reads for it does not exist. -/
theorem checkMapPlacement_emptyBlob :
    (∀ map ∈ emptyBlob.maps[0]?,
      checkMapPlacement integers emptyBlob map twoBytes = .ok ⟨5, 5⟩) ∧
    (∀ window, emptyBlobSession.read 5 0 ≠ .ok window) ∧
    ∃ e, emptyBlobSession.decodeMap integers 0 = .error e ∧
      e.detail = "read of 0 bytes at 0x5 is outside the 2-byte image" := by
  refine ⟨by decide +kernel, fun window h => ?_, _, rfl, by decide +kernel⟩
  exact absurd (CalibrationSession.le_of_read h) (by decide +kernel)

end FastEcu.Calibration
