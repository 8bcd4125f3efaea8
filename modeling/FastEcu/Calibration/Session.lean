import FastEcu.Calibration.Decode

/-!
# Calibration sessions

`CalibrationSession` (`src/backend/calibration/session/calibration_session.cpp`): one open ROM.  Its
bytes are read and written by definition address, through the memory map of its image.

* `renderWindow_spec` : a window has the byte of each address that a block holds.
* `read_eq_ok` : a read inside the memory of the definition succeeds.
* `FileByte`, `Holds` : where the ROM file keeps what stands at a definition address.
* `writeBytes_of_ok` : a write that is checked stores its bytes, marks the session dirty and leaves
  every other file byte alone.
* `writeBytes_of_error` : a write that fails leaves the session alone.
-/

namespace FastEcu.Calibration

open Memory Expression

/-- `CalibrationSession`, as far as maps are read and edited. -/
structure CalibrationSession where
  id : ℕ
  image : MemoryImage
  definition : Option RomDefinition
  dirty : Bool

/-! ### Reading -/

/-- The share of one block in the window from `start` up to `stop`, and where it stands there. -/
def windowPart (image : MemoryImage) (start stop : ℕ) (block : MemoryBlock) : Option (ℕ × Bytes) :=
  let first := max block.range.start.value start
  let last := min block.range.stop.value stop
  if h : first < last then
    have hlast : last < u32Size := (min_le_left _ _).trans_lt block.range.stop.lt
    match image.render (.between ⟨first, h.trans hlast⟩ ⟨last, hlast⟩ h) with
    | .error _ => none
    | .ok view => some (first - start, view.data)
  else none

/-- `RenderWindow`: the blocks' shares copied into a cleared window. -/
def renderWindow (image : MemoryImage) (start stop : ℕ) : Bytes :=
  overwriteAll (List.replicate (stop - start) 0)
    (image.map.blocks.filterMap (windowPart image start stop))

namespace CalibrationSession

/-- The offset or the size is past the memory of the definition. -/
def Outside (session : CalibrationSession) (offset size : ℕ) : Prop :=
  definitionSize session.image.map < offset ∨ definitionSize session.image.map - offset < size

instance (session : CalibrationSession) (offset size : ℕ) :
    Decidable (session.Outside offset size) := inferInstanceAs (Decidable (_ ∨ _))

/-- `CalibrationSession::Read`. -/
def read (session : CalibrationSession) (offset size : ℕ) : Except Error Bytes :=
  if session.Outside offset size then
    invalidConfig s!"read of {size} bytes at 0x{hex offset} is outside the {
      definitionSize session.image.map}-byte image"
  else
    let start := u32 (session.image.map.definitionBase.value + u32 offset)
    .ok (renderWindow session.image start (u32 (start + u32 size)))

end CalibrationSession

theorem toFlashAddress_isSome (memoryMap : MemoryMap) {offset : ℕ}
    (h : offset ≤ definitionSize memoryMap) :
    (memoryMap.toFlashAddress ⟨u32 offset, Nat.mod_lt _ (by decide)⟩).isSome := by
  have hlt := base_add_definitionSize_lt memoryMap
  rw [Option.isSome_iff_ne_none, Ne, MemoryMap.toFlashAddress, TaggedPosition.advance_eq_none_iff]
  simp only [u32_of_le_definitionSize h]
  omega

/-- The ECU address of a definition address of the memory. -/
def flashAddress (memoryMap : MemoryMap) (offset : ℕ) (h : offset ≤ definitionSize memoryMap) :
    FlashAddress :=
  (memoryMap.toFlashAddress ⟨u32 offset, Nat.mod_lt _ (by decide)⟩).get
    (toFlashAddress_isSome memoryMap h)

theorem flashAddress_value (memoryMap : MemoryMap) {offset : ℕ}
    (h : offset ≤ definitionSize memoryMap) :
    (flashAddress memoryMap offset h).value = memoryMap.definitionBase.value + offset := by
  have hsome := Option.some_get (toFlashAddress_isSome memoryMap h)
  have hvalue := TaggedPosition.advance_eq_some_iff.1 hsome.symm
  rw [flashAddress, hvalue]
  simp only [u32_of_le_definitionSize h]

/-! ### Writing -/

namespace CalibrationSession

/-- The check of the image behind `CalibrationSession::CheckWrite`, for an offset in the memory. -/
def checkImage (session : CalibrationSession) (offset size : ℕ)
    (h : offset ≤ definitionSize session.image.map) : Except Error Unit :=
  if size = 0 then .ok ()
  else
    match session.image.checkWrite (flashAddress session.image.map offset h)
        ⟨u32 size, Nat.mod_lt _ (by decide)⟩ with
    | .error e => invalidConfig s!"write of {size} bytes at 0x{hex offset}: {e.detail}"
    | .ok () => .ok ()

theorem le_of_not_outside {session : CalibrationSession} {offset size : ℕ}
    (h : ¬ session.Outside offset size) :
    offset + size ≤ definitionSize session.image.map := by
  rw [Outside, not_or] at h
  omega

/-- `CalibrationSession::CheckWrite`. -/
def checkWrite (session : CalibrationSession) (offset size : ℕ) : Except Error Unit :=
  if h : session.Outside offset size then
    invalidConfig s!"write of {size} bytes at 0x{hex offset} is outside the {
      definitionSize session.image.map}-byte image"
  else
    session.checkImage offset size ((Nat.le_add_right _ _).trans (le_of_not_outside h))

theorem le_of_checkWrite {session : CalibrationSession} {offset size : ℕ}
    (h : session.checkWrite offset size = .ok ()) :
    offset + size ≤ definitionSize session.image.map := by
  simp only [checkWrite] at h
  split at h
  · cases h
  · exact le_of_not_outside ‹_›

/-- `CalibrationSession::WriteBytes`. -/
def writeBytes (session : CalibrationSession) (offset : ℕ) (data : Bytes) :
    Except Error Unit × CalibrationSession :=
  match h : session.checkWrite offset data.length with
  | .error e => (.error e, session)
  | .ok () =>
    if data = [] then (.ok (), { session with dirty := true })
    else
      match session.image.write (flashAddress session.image.map offset
          ((Nat.le_add_right _ _).trans (le_of_checkWrite h))) data with
      | (.error e, image) => (invalidConfig e.detail, { session with image })
      | (.ok (), image) => (.ok (), { session with image, dirty := true })

/-- `CalibrationSession::DecodeMap`. -/
def decodeMap {α : Type} (N : Numbers α) (session : CalibrationSession) (mapIndex : ℕ) :
    Except Error (DecodedMap α) :=
  match session.definition with
  | none => invalidConfig "calibration session has no definition"
  | some definition =>
    match definition.maps[mapIndex]? with
    | none => invalidConfig
        s!"map index {mapIndex} is past the definition's {definition.maps.length} maps"
    | some map =>
      match checkMapPlacement N definition map session.image.map with
      | .error e => .error e
      | .ok extent =>
        match session.read extent.start (extent.stop - extent.start) with
        | .error e => .error e
        | .ok window => decodeCalibrationMap N definition map ⟨window, extent.start⟩

end CalibrationSession

/-! ### What a window shows -/

/-- The share of a block: the bytes of its addresses in the window. -/
theorem windowPart_spec {image : MemoryImage} {start stop : ℕ} {block : MemoryBlock}
    (hblock : block ∈ image.map.blocks)
    (h : max block.range.start.value start < min block.range.stop.value stop) :
    ∃ data, windowPart image start stop block =
        some (max block.range.start.value start - start, data) ∧
      data.length = min block.range.stop.value stop - max block.range.start.value start ∧
      ∀ a : FlashAddress, max block.range.start.value start ≤ a.value →
        a.value < min block.range.stop.value stop →
        data[a.value - max block.range.start.value start]? = image.byteAt a := by
  have hlast : min block.range.stop.value stop < u32Size :=
    (min_le_left _ _).trans_lt block.range.stop.lt
  let range : AddressRange FlashSpace :=
    .between ⟨max block.range.start.value start, h.trans hlast⟩
      ⟨min block.range.stop.value stop, hlast⟩ h
  have hcontains : ∀ a : FlashAddress, range.contains a = true ↔
      max block.range.start.value start ≤ a.value ∧ a.value < min block.range.stop.value stop := by
    intro a
    rw [AddressRange.contains_iff]
    change max block.range.start.value start ≤ a.value ∧
      a.value < max block.range.start.value start +
        (min block.range.stop.value stop - max block.range.start.value start) ↔ _
    rw [Nat.add_sub_cancel' h.le]
  -- one block holds all of the range
  have hheld : image.Held range := by
    intro a ha
    obtain ⟨h₁, h₂⟩ := (hcontains a).1 ha
    have hmem : block.range.contains a = true := by
      rw [AddressRange.contains_iff]
      exact ⟨(le_max_left _ _).trans h₁, h₂.trans_le (min_le_left _ _)⟩
    simp only [MemoryMap.absence, MemoryMap.blockAt_eq_some_iff.2 ⟨hblock, hmem⟩]
  obtain ⟨view, hview⟩ := MemoryImage.render_eq_ok_iff.2 hheld
  obtain ⟨hrange, hdata⟩ := MemoryImage.render_data hview
  refine ⟨view.data, ?_, ?_, fun a h₁ h₂ => hdata a ((hcontains a).2 ⟨h₁, h₂⟩)⟩
  · simp only [windowPart, dif_pos h]
    rw [hview]
  · rw [view.length_data, hrange]
    rfl

theorem windowPart_eq_some {image : MemoryImage} {start stop : ℕ} {block : MemoryBlock}
    {part : ℕ × Bytes} (h : windowPart image start stop block = some part) :
    max block.range.start.value start < min block.range.stop.value stop := by
  simp only [windowPart] at h
  split at h
  · assumption
  · cases h

section Window

variable {image : MemoryImage} {start stop : ℕ}

theorem fits_windowPart :
    Fits (stop - start) (image.map.blocks.filterMap (windowPart image start stop)) := by
  intro part hpart
  obtain ⟨block, hblock, hsome⟩ := List.mem_filterMap.1 hpart
  have hlt := windowPart_eq_some hsome
  obtain ⟨data, hdata, hlength, -⟩ := windowPart_spec hblock hlt
  cases hsome.symm.trans hdata
  have hle := min_le_right block.range.stop.value stop
  have hge := le_max_right block.range.start.value start
  simp only [hlength]
  omega

theorem length_renderWindow : (renderWindow image start stop).length = stop - start := by
  rw [renderWindow, length_overwriteAll, List.length_replicate]
  rw [List.length_replicate]
  exact fits_windowPart

theorem agrees_windowPart :
    Agrees (fun i => TaggedPosition.extend image.byteAt (start + i))
      (image.map.blocks.filterMap (windowPart image start stop)) := by
  intro part hpart i hi
  obtain ⟨block, hblock, hsome⟩ := List.mem_filterMap.1 hpart
  have hlt := windowPart_eq_some hsome
  obtain ⟨data, hdata, hlength, hbytes⟩ := windowPart_spec hblock hlt
  cases hsome.symm.trans hdata
  have hlast : min block.range.stop.value stop < u32Size :=
    (min_le_left _ _).trans_lt block.range.stop.lt
  have hge := le_max_right block.range.start.value start
  simp only [hlength] at hi
  let a : FlashAddress := ⟨max block.range.start.value start + i, by omega⟩
  have hread := hbytes a (Nat.le_add_right _ _) (by simp only [a]; omega)
  rw [show a.value - max block.range.start.value start = i from
    Nat.add_sub_cancel_left _ _] at hread
  have hvalue : start + (max block.range.start.value start - start + i) = a.value := by
    simp only [a]
    omega
  change data[i]? = TaggedPosition.extend image.byteAt
    (start + (max block.range.start.value start - start + i))
  rw [hvalue, TaggedPosition.extend_value, hread]

/-- **A window shows the byte of every address that a block holds.** -/
theorem renderWindow_spec {a : FlashAddress} {b : Byte} (hstart : start ≤ a.value)
    (hstop : a.value < stop) (hb : image.byteAt a = some b) :
    (renderWindow image start stop)[a.value - start]? = some b := by
  obtain ⟨block, hat⟩ : ∃ block, image.map.blockAt a = some block := by
    cases hat : image.map.blockAt a with
    | none => simp [MemoryImage.byteAt, hat] at hb
    | some block => exact ⟨block, rfl⟩
  obtain ⟨hblock, hcontains⟩ := MemoryMap.blockAt_eq_some_iff.1 hat
  obtain ⟨h₁, h₂⟩ := AddressRange.contains_iff.1 hcontains
  have hfirst : max block.range.start.value start ≤ a.value := max_le h₁ hstart
  have hlast : a.value < min block.range.stop.value stop := lt_min h₂ hstop
  obtain ⟨data, hdata, hlength, -⟩ := windowPart_spec hblock (hfirst.trans_lt hlast)
  have hcovered : Covered (image.map.blocks.filterMap (windowPart image start stop))
      (a.value - start) := by
    refine ⟨_, List.mem_filterMap.2 ⟨block, hblock, hdata⟩, ?_⟩
    have hge := le_max_right block.range.start.value start
    simp only [hlength]
    omega
  have hfits : Fits (List.replicate (stop - start) (0 : Byte)).length
      (image.map.blocks.filterMap (windowPart image start stop)) := by
    rw [List.length_replicate]
    exact fits_windowPart
  rw [renderWindow, getElem?_overwriteAll_of_covered hfits agrees_windowPart hcovered,
    Nat.add_sub_cancel' hstart, TaggedPosition.extend_value, hb]

end Window

/-! ### Reads and writes, by addresses -/

namespace CalibrationSession

variable {session : CalibrationSession} {offset size : ℕ}

/-- **A read inside the memory of the definition succeeds**, and no address of it wraps. -/
theorem read_eq_ok (h : offset + size ≤ definitionSize session.image.map) :
    session.read offset size = .ok (renderWindow session.image
      (session.image.map.definitionBase.value + offset)
      (session.image.map.definitionBase.value + offset + size)) := by
  have hlt := base_add_definitionSize_lt session.image.map
  have houtside : ¬ session.Outside offset size := by
    rw [Outside]
    omega
  have hoffset : u32 offset = offset :=
    u32_of_le_definitionSize ((Nat.le_add_right _ _).trans h)
  have hsize : u32 size = size := u32_of_le_definitionSize ((Nat.le_add_left _ _).trans h)
  have hstart : u32 (session.image.map.definitionBase.value + offset) =
      session.image.map.definitionBase.value + offset :=
    Nat.mod_eq_of_lt (lt_of_le_of_lt (by omega) hlt)
  have hstop : u32 (session.image.map.definitionBase.value + offset + size) =
      session.image.map.definitionBase.value + offset + size :=
    Nat.mod_eq_of_lt (lt_of_le_of_lt (by omega) hlt)
  simp only [read, if_neg houtside, hoffset, hsize, hstart, hstop]

theorem le_of_read {window : Bytes} (h : session.read offset size = .ok window) :
    offset + size ≤ definitionSize session.image.map := by
  simp only [read] at h
  split at h
  · cases h
  · exact le_of_not_outside ‹_›

end CalibrationSession

/-- The byte of a definition address is byte `o` of the ROM file. -/
def FileByte (memoryMap : MemoryMap) (address o : ℕ) : Prop :=
  ∃ a : FlashAddress, a.value = memoryMap.definitionBase.value + address ∧
    memoryMap.place a = some o

/-- A file byte has one address. -/
theorem FileByte.inj {memoryMap : MemoryMap} {address address' o : ℕ}
    (h : FileByte memoryMap address o) (h' : FileByte memoryMap address' o) :
    address = address' := by
  obtain ⟨a, ha, ho⟩ := h
  obtain ⟨a', ha', ho'⟩ := h'
  rw [MemoryMap.place_inj ho ho', ha'] at ha
  omega

/-- The ROM file has these bytes from a definition address on. -/
def Holds (image : MemoryImage) (address : ℕ) (bytes : Bytes) : Prop :=
  ∀ k < bytes.length, ∃ o, FileByte image.map (address + k) o ∧ image.file[o]? = bytes[k]?

/-- A window over placed addresses has what the ROM file holds. -/
theorem holds_of_at {session : CalibrationSession} {start stop address size : ℕ}
    {window bytes : Bytes} (hplaced : Placed session.image.map start stop)
    (hread : session.read start (stop - start) = .ok window)
    (hat : DefinitionBytes.at ⟨window, start⟩ address size = some bytes) :
    Holds session.image address bytes := by
  obtain ⟨hstart, hstop, hlength, hbytes⟩ := at_eq_some hat
  rw [CalibrationSession.read_eq_ok (CalibrationSession.le_of_read hread)] at hread
  cases hread
  simp only [length_renderWindow] at hstart hstop hbytes
  have hfits := hplaced.fits
  intro k hk
  let a : FlashAddress := ⟨session.image.map.definitionBase.value + (address + k), by omega⟩
  obtain ⟨o, ho⟩ := hplaced.place a (by simp only [a]; omega) (by simp only [a]; omega)
  refine ⟨o, ⟨a, rfl, ho⟩, ?_⟩
  have hlt : o < session.image.file.length := by
    rw [session.image.length_file]
    exact MemoryMap.place_lt ho
  have hbyte : session.image.byteAt a = some session.image.file[o] := by
    rw [MemoryImage.byteAt_eq_of_place ho, List.getElem?_eq_getElem hlt]
  have hwindow : (renderWindow session.image (session.image.map.definitionBase.value + start)
      (session.image.map.definitionBase.value + start + (stop - start)))[a.value -
        (session.image.map.definitionBase.value + start)]? = some session.image.file[o] :=
    renderWindow_spec (by simp only [a]; omega) (by simp only [a]; omega) hbyte
  rw [hbytes k (by omega), List.getElem?_eq_getElem hlt, ← hwindow]
  congr 1
  simp only [a]
  omega

/-- From one image to the next, the bytes are stored at the address and no other file byte
changes. -/
structure StoresAt (before after : MemoryImage) (address : ℕ) (bytes : Bytes) : Prop where
  map_eq : after.map = before.map
  stored : Holds after address bytes
  kept : ∀ o, (∀ k < bytes.length, ¬ FileByte before.map (address + k) o) →
    after.file[o]? = before.file[o]?

/-- A write of an image, by definition addresses. -/
theorem storesAt_write {image : MemoryImage} {start : FlashAddress} {data : Bytes} {address : ℕ}
    (hstart : start.value = image.map.definitionBase.value + address) (hne : data ≠ [])
    (hok : (image.write start data).1 = .ok ()) :
    StoresAt image (image.write start data).2 address data := by
  rcases image.write_cases start data with rfl | ⟨-, hpast⟩ | ⟨r, rfl, hlen, hst | hbad⟩
  · exact absurd rfl hne
  · rw [MemoryImage.write_eq_of_past hne hpast] at hok
    cases hok
  · have hmap := (MemoryImage.write_eq_of_storable hlen hst).2.1
    refine ⟨hmap, fun k hk => ?_, fun o ho => ?_⟩
    · have hfits := r.fits
      let a : FlashAddress := ⟨r.start.value + k, by omega⟩
      have ha : r.contains a = true :=
        AddressRange.contains_iff.2 ⟨Nat.le_add_right _ _, Nat.add_lt_add_left (hlen ▸ hk) _⟩
      obtain ⟨o, ho⟩ := MemoryImage.exists_place_of_refusal_eq_none (hst a ha)
      refine ⟨o, ⟨a, ?_, hmap ▸ ho⟩, ?_⟩
      · rw [hmap]
        change r.start.value + k = _
        omega
      · rw [MemoryImage.getElem?_write_of_place hlen hst ha ho]
        exact congrArg (data[·]?) (Nat.add_sub_cancel_left _ _)
    · refine MemoryImage.getElem?_write_of_not_place hlen hst fun a ha hao => ?_
      obtain ⟨h₁, h₂⟩ := AddressRange.contains_iff.1 ha
      exact ho (a.value - r.start.value) (by omega) ⟨a, by omega, hao⟩
  · obtain ⟨a, e, ha, he, hfirst⟩ := hbad
    rw [MemoryImage.write_eq_of_refusal hlen ha he hfirst] at hok
    cases hok

namespace CalibrationSession

variable {session : CalibrationSession} {offset : ℕ} {data : Bytes}

/-- Whether a write is allowed depends on the memory map only. -/
theorem checkWrite_congr {session' : CalibrationSession}
    (h : session'.image.map = session.image.map) (offset size : ℕ) :
    session'.checkWrite offset size = session.checkWrite offset size := by
  obtain ⟨id, ⟨map, file, hfile⟩, definition, dirty⟩ := session
  obtain ⟨id', ⟨map', file', hfile'⟩, definition', dirty'⟩ := session'
  cases h
  rfl

theorem image_checkWrite (h : session.checkWrite offset data.length = .ok ()) (hne : data ≠ [])
    (hoffset : offset ≤ definitionSize session.image.map) :
    session.image.checkWrite (flashAddress session.image.map offset hoffset)
      ⟨u32 data.length, Nat.mod_lt _ (by decide)⟩ = .ok () := by
  have hlength : data.length ≠ 0 := fun hzero => hne (List.length_eq_zero_iff.1 hzero)
  simp only [checkWrite] at h
  split at h
  · cases h
  · simp only [checkImage, if_neg hlength] at h
    split at h
    · cases h
    · assumption

/-- **A checked write** stores its bytes and marks the session. -/
theorem writeBytes_of_ok (h : session.checkWrite offset data.length = .ok ()) (hne : data ≠ []) :
    ∃ image, session.writeBytes offset data = (.ok (), { session with image, dirty := true }) ∧
      StoresAt session.image image offset data := by
  have hle := le_of_checkWrite h
  have hoffset : offset ≤ definitionSize session.image.map := (Nat.le_add_right _ _).trans hle
  have hsize : data.length = u32 data.length :=
    (u32_of_le_definitionSize ((Nat.le_add_left _ _).trans hle)).symm
  -- the image checks the same addresses again
  have hwrite : (session.image.write (flashAddress session.image.map offset hoffset) data).1 =
      .ok () :=
    (MemoryImage.checkWrite_eq_write hsize).trans (image_checkWrite h hne hoffset)
  refine ⟨_, ?_, storesAt_write (flashAddress_value _ hoffset) hne hwrite⟩
  simp only [writeBytes]
  split
  · rename_i e he
    cases he.symm.trans h
  · rw [if_neg hne]
    split
    · rename_i e image himage
      rw [himage] at hwrite
      cases hwrite
    · rename_i image himage
      rw [himage]

/-- **A failed write** leaves the session alone. -/
theorem writeBytes_of_error {e : Error} (h : (session.writeBytes offset data).1 = .error e) :
    (session.writeBytes offset data).2 = session := by
  cases hcheck : session.checkWrite offset data.length with
  | ok u =>
    -- what is checked does not fail
    by_cases hne : data = []
    · simp only [writeBytes] at h
      split at h
      · rename_i he
        cases he.symm.trans hcheck
      · rw [if_pos hne] at h
        cases h
    · obtain ⟨image, hok, -⟩ := writeBytes_of_ok hcheck hne
      rw [hok] at h
      cases h
  | error e' =>
    simp only [writeBytes]
    split
    · rfl
    · rename_i hok
      cases hok.symm.trans hcheck

end CalibrationSession

end FastEcu.Calibration
