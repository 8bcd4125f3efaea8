import FastEcu.Memory.Image

/-!
# The memory map of a ROM file

How a protocol places a ROM file (`SelectMemoryMap` and `PlaceRomFile` of `src/backend/config/catalog.cpp`):
it declares maps, and the size of the file chooses one of them.  Of the maps of
`src/backend/config/builtin_catalog.cpp` the packed one of the MC68HC16Y5 is here, which has a hole for
the RAM.

* `selectMemoryMap`, `placeRomFile` : the choice, and the image.
* `placeRomFile_mc68` : a file of 160 KiB is placed by the packed map.
* `place_mc68_low`, `place_mc68_high` : where the packed map has the byte of an address.
-/

namespace FastEcu.Memory

/-! ### Selection -/

/-- One memory map that the ROM files of a protocol can have. -/
structure MemoryMapSpec where
  blocks : List MemoryBlock
  definitionBase : FlashAddress := ⟨0, u32Size_pos⟩

/-- The fields of `ProtocolSpec` that place a ROM file. -/
structure RomProtocol where
  name : String
  memoryMaps : List MemoryMapSpec

/-- Where the furthest-placed byte of the ROM file ends. -/
def MemoryMapSpec.fileEnd (spec : MemoryMapSpec) : ℕ :=
  spec.blocks.foldl (fun last block =>
    match block.backing with
    | .file offset => max last (offset.value + block.range.size.value)
    | .fill _ => last) 0

theorem min_fileEnd_lt (spec : MemoryMapSpec) : min spec.fileEnd 0xFFFFFFFF < u32Size :=
  (min_le_right _ _).trans_lt (by decide)

/-- `MemoryMapSpec::FileSize`. -/
def MemoryMapSpec.fileSize (spec : MemoryMapSpec) : ByteCount :=
  ⟨min spec.fileEnd 0xFFFFFFFF, min_fileEnd_lt spec⟩

/-- `FileSizeError`. -/
def fileSizeError (detail : String) : MemoryError := ⟨.fileSizeMismatch, detail⟩

/-- `SelectMemoryMap`. -/
def selectMemoryMap (protocol : Option RomProtocol) (fileSize : ℕ) : Except MemoryError MemoryMap :=
  if fileSize = 0 then .error (fileSizeError "the ROM file is empty")
  else
    match ByteCount.fromSize fileSize with
    | none => .error (fileSizeError s!"the {fileSize}-byte ROM file is larger than 4 GiB")
    | some size =>
      match protocol with
      | none => MemoryMap.identity size
      | some ⟨_, []⟩ => MemoryMap.identity size
      | some ⟨name, maps⟩ =>
        match maps.find? fun spec => decide (spec.fileSize = size) with
        | none => .error (fileSizeError
            s!"protocol '{name}' has no memory map for 0x{hex fileSize}-byte ROM files")
        | some spec => MemoryMap.create spec.blocks spec.fileSize spec.definitionBase

/-- `PlaceRomFile`. -/
def placeRomFile (protocol : Option RomProtocol) (file : Bytes) : Except MemoryError MemoryImage :=
  match selectMemoryMap protocol file.length with
  | .error e => .error e
  | .ok map => MemoryImage.create map file

/-! ### The packed map -/

/-- A range of constant catalog data is not empty and ends within the address space. -/
def RangeOk (start size : UInt32) : Prop := 0 < size.toNat ∧ start.toNat + size.toNat < u32Size

/-- A range of constant catalog data. -/
def constantRange (start size : UInt32) (h : RangeOk start size) : AddressRange FlashSpace :=
  ⟨⟨start.toNat, start.toNat_lt⟩, ⟨size.toNat, size.toNat_lt⟩, h.1, h.2⟩

/-- `FileBlock`. -/
def fileBlock (start size fileOffset : UInt32) (writability : Writability) (h : RangeOk start size) :
    MemoryBlock :=
  ⟨constantRange start size h, .file ⟨fileOffset.toNat, fileOffset.toNat_lt⟩, writability⟩

/-- `FillBlock`. -/
def fillBlock (start size : UInt32) (value : Byte) (h : RangeOk start size) : MemoryBlock :=
  ⟨constantRange start size h, .fill value, .readOnly⟩

theorem rangeOk_low : RangeOk 0x00000 0x20000 := ⟨by decide, by decide⟩

theorem rangeOk_ram : RangeOk 0x20000 0x08000 := ⟨by decide, by decide⟩

theorem rangeOk_high : RangeOk 0x28000 0x08000 := ⟨by decide, by decide⟩

/-- `kMc68PackedBlocks`: the flash on both sides of the RAM. -/
def mc68PackedBlocks : List MemoryBlock :=
  [fileBlock 0x00000 0x20000 0x00000 .writable rangeOk_low,
    fillBlock 0x20000 0x08000 0xFF rangeOk_ram,
    fileBlock 0x28000 0x08000 0x20000 .writable rangeOk_high]

/-- `kMc68FullBlocks`: a file that also holds bytes for the RAM. -/
def mc68FullBlocks : List MemoryBlock :=
  [fileBlock 0x00000 0x20000 0x00000 .writable rangeOk_low,
    fileBlock 0x20000 0x08000 0x20000 .readOnly rangeOk_ram,
    fileBlock 0x28000 0x08000 0x28000 .writable rangeOk_high]

/-- The protocol `sub_ecu_denso_mc68hc16y5_02` with `kMc68Maps`. -/
def mc68Protocol : RomProtocol :=
  ⟨"sub_ecu_denso_mc68hc16y5_02", [⟨mc68PackedBlocks, ⟨0, u32Size_pos⟩⟩, ⟨mc68FullBlocks, ⟨0, u32Size_pos⟩⟩]⟩

theorem checkLayout_mc68 (h : 160 * 1024 < u32Size) :
    checkLayout mc68PackedBlocks ⟨160 * 1024, h⟩ = .ok () := by
  have hsorted : (fileRanges mc68PackedBlocks).mergeSort fileRangeLe = fileRanges mc68PackedBlocks :=
    List.mergeSort_of_pairwise (by decide)
  have hplacement : checkFilePlacement mc68PackedBlocks ⟨160 * 1024, h⟩ = .ok () := by
    rw [checkFilePlacement, hsorted]
    rfl
  exact hplacement

theorem selectMemoryMap_mc68 : ∃ map, selectMemoryMap (some mc68Protocol) (160 * 1024) = .ok map ∧
    map.blocks = mc68PackedBlocks ∧ map.fileSize.value = 160 * 1024 := by
  refine ⟨⟨mc68PackedBlocks, ⟨160 * 1024, by decide⟩, ⟨0, u32Size_pos⟩, checkLayout_mc68 _⟩, ?_, rfl, rfl⟩
  exact MemoryMap.create_eq_ok_iff.2 ⟨rfl, rfl, rfl⟩

/-- **A file of 160 KiB is placed by the packed map.** -/
theorem placeRomFile_mc68 {file : Bytes} (h : file.length = 160 * 1024) :
    ∃ image, placeRomFile (some mc68Protocol) file = .ok image ∧ image.file = file ∧
      image.map.blocks = mc68PackedBlocks := by
  obtain ⟨map, hselect, hblocks, hsize⟩ := selectMemoryMap_mc68
  have hlength : file.length = map.fileSize.value := h.trans hsize.symm
  refine ⟨⟨map, file, hlength⟩, ?_, rfl, hblocks⟩
  have hplace : placeRomFile (some mc68Protocol) file = MemoryImage.create map file := by
    rw [placeRomFile, h, hselect]
  rw [hplace]
  exact dif_pos hlength

section Place

variable {m : MemoryMap} {a : FlashAddress}

/-- Below the RAM the file is placed at its own offsets. -/
theorem place_mc68_low (h : m.blocks = mc68PackedBlocks) (ha : a.value < 0x20000) :
    m.place a = some a.value := by
  refine MemoryMap.place_eq_some_iff.2 ⟨fileBlock 0x00000 0x20000 0x00000 .writable rangeOk_low, ?_, ?_, ?_⟩
  · rw [h]
    exact List.mem_cons_self ..
  · exact AddressRange.contains_iff.2 ⟨Nat.zero_le _, ha⟩
  · exact congrArg some (by simp [fileBlock, constantRange])

/-- Above the RAM the file goes on where it has ended below it. -/
theorem place_mc68_high (h : m.blocks = mc68PackedBlocks) (hlow : 0x28000 ≤ a.value)
    (hhigh : a.value < 0x30000) : m.place a = some (a.value - 0x8000) := by
  refine MemoryMap.place_eq_some_iff.2 ⟨fileBlock 0x28000 0x08000 0x20000 .writable rangeOk_high, ?_, ?_, ?_⟩
  · rw [h]
    simp [mc68PackedBlocks]
  · exact AddressRange.contains_iff.2 ⟨hlow, hhigh⟩
  · refine congrArg some ?_
    show 0x20000 + (a.value - 0x28000) = a.value - 0x8000
    omega

/-- Every address up to the end of the flash is in one of the blocks. -/
theorem absence_mc68 (h : m.blocks = mc68PackedBlocks) (ha : a.value < 0x30000) :
    m.absence a = none := by
  unfold MemoryMap.absence
  cases hblock : m.blockAt a with
  | some b => rfl
  | none =>
    have hnone := MemoryMap.blockAt_eq_none_iff.1 hblock
    rw [h] at hnone
    -- the address is below the RAM, in it or above it
    by_cases hlow : a.value < 0x20000
    · have hfirst := hnone (fileBlock 0x00000 0x20000 0x00000 .writable rangeOk_low) (by
        exact List.mem_cons_self ..)
      rw [AddressRange.contains_iff.2 ⟨Nat.zero_le _, hlow⟩] at hfirst
      cases hfirst
    · by_cases hram : a.value < 0x28000
      · have hsecond := hnone (fillBlock 0x20000 0x08000 0xFF rangeOk_ram) (by simp [mc68PackedBlocks])
        rw [AddressRange.contains_iff.2 ⟨Nat.le_of_not_lt hlow, hram⟩] at hsecond
        cases hsecond
      · have hthird := hnone (fileBlock 0x28000 0x08000 0x20000 .writable rangeOk_high)
          (by simp [mc68PackedBlocks])
        rw [AddressRange.contains_iff.2 ⟨Nat.le_of_not_lt hram, ha⟩] at hthird
        cases hthird

end Place

end FastEcu.Memory
