import FastEcu.Data.Overwrite
import FastEcu.Memory.Map

/-!
# Memory images

`MemoryImage` (`src/algorithms/memory/memory_image.cpp`) is a ROM file placed at ECU addresses by
a memory map.  Reads and writes by address go through the map, slice by slice.

* `MemoryImage.byteAt` is what an image is for: a partial function from addresses to bytes.
* `MemoryMap.refusal` is the reason why one address cannot be stored.
* `MemoryImage.render_eq_ok_iff`, `MemoryImage.render_data` : `render` lists `byteAt` over a range
  of held addresses.
* `MemoryImage.write_eq_of_storable`, `MemoryImage.write_eq_of_refusal` : a write of storable
  addresses replaces `byteAt` over the range and leaves the rest of the file alone; any other write
  changes nothing and fails with the refusal of the first address that is not storable.
-/

namespace FastEcu.Memory

/-! ### Checking the slices of a range -/

/-- No memory block holds the address. -/
def unmappedError (a : FlashAddress) : MemoryError :=
  ⟨.unmapped, s!"no memory block holds address 0x{hex a.value}"⟩

/-- The address is in a fill block. -/
def fillBlockError (a : FlashAddress) : MemoryError :=
  ⟨.fillBlock, s!"address 0x{hex a.value} is in a fill block"⟩

/-- The address is in a block that is not writable. -/
def notWritableError (a : FlashAddress) : MemoryError :=
  ⟨.notWritable, s!"address 0x{hex a.value} is in a block that is not writable"⟩

/-- The write does not fit in the address space. -/
def pastSpaceError (size : ℕ) (start : FlashAddress) : MemoryError :=
  ⟨.unmapped, s!"a {size}-byte write at 0x{hex start.value} runs past the address space"⟩

/-- `render` reads every block, fill blocks included. -/
def heldByABlock (s : BlockSlice) : Except MemoryError Unit :=
  match s.block with
  | none => .error (unmappedError s.range.start)
  | some _ => .ok ()

/-- `write` needs a writable, file-backed block. -/
def writableFileBlock (s : BlockSlice) : Except MemoryError Unit :=
  match s.block with
  | none => .error (unmappedError s.range.start)
  | some b =>
    if b.isFill then .error (fillBlockError s.range.start)
    else if b.writability ≠ .writable then .error (notWritableError s.range.start)
    else .ok ()

/-- The error `check` gives for the first slice it rejects. -/
def checkAll (check : BlockSlice → Except MemoryError Unit) :
    List BlockSlice → Except MemoryError Unit
  | [] => .ok ()
  | s :: rest =>
    match check s with
    | .error e => .error e
    | .ok () => checkAll check rest

/-- The slices of `range`, or the error `check` gives for the first slice it rejects. -/
def checkedSlices (m : MemoryMap) (range : AddressRange FlashSpace)
    (check : BlockSlice → Except MemoryError Unit) : Except MemoryError (List BlockSlice) :=
  match checkAll check (m.slices range) with
  | .error e => .error e
  | .ok () => .ok (m.slices range)

/-- Where `slice` starts within `range`. -/
def offsetIn (range : AddressRange FlashSpace) (s : BlockSlice) : ℕ :=
  s.range.start.value - range.start.value

/-! ### Images -/

/-- A contiguous copy of one address range. -/
structure MemoryView where
  /-- The addresses. -/
  range : AddressRange FlashSpace
  /-- Their bytes. -/
  data : Bytes
  /-- One byte for each address. -/
  length_data : data.length = range.size.value

/-- A ROM file's bytes placed at ECU addresses by a memory map. -/
structure MemoryImage where
  /-- The map. -/
  map : MemoryMap
  /-- The ROM file bytes, in file layout. -/
  file : Bytes
  /-- The file is exactly the size the map places. -/
  length_file : file.length = map.fileSize.value

/-- The bytes of one slice: file bytes, or the fill byte of a block without file bytes. -/
def sliceBytes (file : Bytes) (s : BlockSlice) : Bytes :=
  match s.fileStart with
  | some o => (file.drop o.value).take s.range.size.value
  | none =>
    match s.block with
    | some ⟨_, .fill value, _⟩ => List.replicate s.range.size.value value
    | _ => []

/-- The bytes of `range`, copied slice by slice into a cleared buffer. -/
def renderSlices (file : Bytes) (range : AddressRange FlashSpace) (slices : List BlockSlice) :
    Bytes :=
  overwriteAll (List.replicate range.size.value 0)
    (slices.map fun s => (offsetIn range s, sliceBytes file s))

/-- The part of `data` that goes into one slice, and where.  A writable file-backed block always
has a file start. -/
def sliceWrite (range : AddressRange FlashSpace) (data : Bytes) (s : BlockSlice) : ℕ × Bytes :=
  ((s.fileStart.map (·.value)).getD 0, (data.drop (offsetIn range s)).take s.range.size.value)

/-! ### The checks, by addresses -/

namespace MemoryMap

variable {m : MemoryMap}

/-- Why the byte at `a` cannot be stored, if it cannot. -/
def refusal (m : MemoryMap) (a : FlashAddress) : Option MemoryError :=
  match m.blockAt a with
  | none => some (unmappedError a)
  | some b =>
    if b.isFill then some (fillBlockError a)
    else if b.writability ≠ .writable then some (notWritableError a)
    else none

/-- Why the byte at `a` cannot be read, if it cannot. -/
def absence (m : MemoryMap) (a : FlashAddress) : Option MemoryError :=
  match m.blockAt a with
  | none => some (unmappedError a)
  | some _ => none

/-- `check` decides for a slice what `reason` decides for each of its addresses. -/
def Decides (m : MemoryMap) (check : BlockSlice → Except MemoryError Unit)
    (reason : FlashAddress → Option MemoryError) : Prop :=
  ∀ r, ∀ s ∈ m.slices r,
    (∀ e, check s = .error e → reason s.range.start = some e) ∧
    (check s = .ok () → ∀ a, s.range.contains a = true → reason a = none)

theorem decides_heldByABlock (m : MemoryMap) : m.Decides heldByABlock m.absence := by
  intro r s hs
  have hpos := s.range.size_pos
  have hself : s.range.contains s.range.start = true :=
    AddressRange.contains_iff.2 ⟨le_rfl, by omega⟩
  refine ⟨fun e he => ?_, fun hok a ha => ?_⟩
  · rw [absence, blockAt_of_mem_slices hs hself]
    unfold heldByABlock at he
    cases hb : s.block with
    | none => rw [hb] at he; cases he; rfl
    | some b => rw [hb] at he; cases he
  · rw [absence, blockAt_of_mem_slices hs ha]
    unfold heldByABlock at hok
    cases hb : s.block with
    | none => rw [hb] at hok; cases hok
    | some b => rfl

theorem decides_writableFileBlock (m : MemoryMap) : m.Decides writableFileBlock m.refusal := by
  intro r s hs
  have hpos := s.range.size_pos
  have hself : s.range.contains s.range.start = true :=
    AddressRange.contains_iff.2 ⟨le_rfl, by omega⟩
  refine ⟨fun e he => ?_, fun hok a ha => ?_⟩
  · rw [refusal, blockAt_of_mem_slices hs hself]
    unfold writableFileBlock at he
    cases hb : s.block with
    | none => rw [hb] at he; cases he; rfl
    | some b =>
      rw [hb] at he
      simp only at he ⊢
      split_ifs at he ⊢ <;> cases he <;> rfl
  · rw [refusal, blockAt_of_mem_slices hs ha]
    unfold writableFileBlock at hok
    cases hb : s.block with
    | none => rw [hb] at hok; cases hok
    | some b =>
      rw [hb] at hok
      simp only at hok ⊢
      split_ifs at hok ⊢
      rfl

theorem checkAll_eq_ok {check : BlockSlice → Except MemoryError Unit} {l : List BlockSlice}
    (h : ∀ s ∈ l, check s = .ok ()) : checkAll check l = .ok () := by
  induction l with
  | nil => rfl
  | cons s rest ih =>
    rw [checkAll, h s List.mem_cons_self]
    exact ih fun t ht => h t (List.mem_cons_of_mem _ ht)

theorem checkAll_append {check : BlockSlice → Except MemoryError Unit} {l l' : List BlockSlice}
    (h : ∀ s ∈ l, check s = .ok ()) : checkAll check (l ++ l') = checkAll check l' := by
  induction l with
  | nil => rfl
  | cons s rest ih =>
    rw [List.cons_append, checkAll, h s List.mem_cons_self]
    exact ih fun t ht => h t (List.mem_cons_of_mem _ ht)

theorem mem_range_of_mem_slices {r : AddressRange FlashSpace} {s : BlockSlice}
    (hs : s ∈ m.slices r) {a : FlashAddress} (ha : s.range.contains a = true) :
    r.contains a = true := by
  have hwithin := (m.contiguous_slices r).within _ (List.mem_map_of_mem hs)
  obtain ⟨h1, h2⟩ := AddressRange.contains_iff.1 ha
  simp only [AddressRange.segment, AddressRange.stop_value] at hwithin
  exact AddressRange.contains_iff.2 ⟨by omega, by omega⟩

theorem exists_slice_of_mem_range {r : AddressRange FlashSpace} {a : FlashAddress}
    (ha : r.contains a = true) : ∃ s ∈ m.slices r, s.range.contains a = true := by
  obtain ⟨h1, h2⟩ := AddressRange.contains_iff.1 ha
  obtain ⟨t, ht, hta⟩ := (m.contiguous_slices r).cover a.value h1 h2
  obtain ⟨s, hs, rfl⟩ := List.mem_map.1 ht
  exact ⟨s, hs, AddressRange.contains_iff_has.2 hta⟩

variable {check : BlockSlice → Except MemoryError Unit}
  {reason : FlashAddress → Option MemoryError} {r : AddressRange FlashSpace}

/-- A slice all of whose addresses are fine passes. -/
theorem Decides.check_eq_ok (hd : m.Decides check reason) {s : BlockSlice} (hs : s ∈ m.slices r)
    (hfine : reason s.range.start = none) : check s = .ok () := by
  cases hc : check s with
  | ok u => rfl
  | error e =>
    rw [(hd r s hs).1 e hc] at hfine
    cases hfine

/-- A range without a bad address passes the check. -/
theorem Decides.checkedSlices_eq_ok (hd : m.Decides check reason)
    (hall : ∀ a, r.contains a = true → reason a = none) :
    checkedSlices m r check = .ok (m.slices r) := by
  have hok : checkAll check (m.slices r) = .ok () := by
    refine checkAll_eq_ok fun s hs => hd.check_eq_ok hs (hall _ (mem_range_of_mem_slices hs ?_))
    exact AddressRange.contains_iff.2 ⟨le_rfl, by have := s.range.size_pos; omega⟩
  rw [checkedSlices, hok]

/-- A range with a bad address fails with the reason of the first one. -/
theorem Decides.checkedSlices_eq_error (hd : m.Decides check reason) {a : FlashAddress}
    {e : MemoryError} (ha : r.contains a = true) (hbad : reason a = some e)
    (hfirst : ∀ c, r.contains c = true → c.value < a.value → reason c = none) :
    checkedSlices m r check = .error e := by
  obtain ⟨s, hs, hsa⟩ := exists_slice_of_mem_range (m := m) ha
  obtain ⟨h1, h2⟩ := AddressRange.contains_iff.1 hsa
  have hself : s.range.contains s.range.start = true :=
    AddressRange.contains_iff.2 ⟨le_rfl, by omega⟩
  obtain ⟨before, after, hl⟩ := List.append_of_mem hs
  -- every slice before `s` ends before `a`, so it passes
  have hbefore : ∀ t ∈ before, check t = .ok () := by
    intro t ht
    have htm : t ∈ m.slices r := by rw [hl]; exact List.mem_append_left _ ht
    have htpos := t.range.size_pos
    have htself : t.range.contains t.range.start = true :=
      AddressRange.contains_iff.2 ⟨le_rfl, by omega⟩
    have hc := m.contiguous_slices r
    rw [hl, List.map_append, contiguous_append] at hc
    obtain ⟨c, hc1, hc2, -⟩ := hc
    have := (hc1.within _ (List.mem_map_of_mem ht)).2
    simp only [AddressRange.segment] at this hc2
    exact hd.check_eq_ok htm
      (hfirst _ (mem_range_of_mem_slices htm htself) (by omega))
  -- `s` starts at `a`: its first address is bad as well
  have hbad' : ∃ e', check s = .error e' := by
    cases hc : check s with
    | error e' => exact ⟨e', rfl⟩
    | ok u =>
      rw [(hd r s hs).2 hc a hsa] at hbad
      cases hbad
  obtain ⟨e', he'⟩ := hbad'
  have hstart : s.range.start = a := by
    by_contra hne
    have hlt : s.range.start.value < a.value :=
      lt_of_le_of_ne h1 fun h => hne (TaggedPosition.ext h)
    have := hfirst _ (mem_range_of_mem_slices hs hself) hlt
    rw [(hd r s hs).1 e' he'] at this
    cases this
  have hee : e' = e := by
    have := (hd r s hs).1 e' he'
    rw [hstart, hbad] at this
    exact (Option.some.inj this).symm
  rw [checkedSlices, hl, checkAll_append hbefore, checkAll, he', hee]

/-- A range has no bad address, or a first one. -/
theorem forall_or_exists_first (reason : FlashAddress → Option MemoryError)
    (r : AddressRange FlashSpace) :
    (∀ a, r.contains a = true → reason a = none) ∨
      ∃ a e, r.contains a = true ∧ reason a = some e ∧
        ∀ c, r.contains c = true → c.value < a.value → reason c = none := by
  classical
  by_cases h : ∃ n, ∃ a : FlashAddress, a.value = n ∧ r.contains a = true ∧ reason a ≠ none
  · obtain ⟨a, hn, ha, hbad⟩ := Nat.find_spec h
    obtain ⟨e, he⟩ := Option.ne_none_iff_exists'.1 hbad
    refine Or.inr ⟨a, e, ha, he, fun c hc hlt => ?_⟩
    by_contra hcbad
    exact Nat.find_min h (hn ▸ hlt) ⟨c, rfl, hc, hcbad⟩
  · refine Or.inl fun a ha => ?_
    by_contra hbad
    exact h ⟨a.value, a, rfl, ha, hbad⟩

/-- The check passes exactly on a range without a bad address. -/
theorem Decides.checkedSlices_eq_ok_iff (hd : m.Decides check reason) {l : List BlockSlice} :
    checkedSlices m r check = .ok l ↔
      l = m.slices r ∧ ∀ a, r.contains a = true → reason a = none := by
  rcases forall_or_exists_first reason r with hall | ⟨a, e, ha, he, hfirst⟩
  · rw [hd.checkedSlices_eq_ok hall, Except.ok.injEq, eq_comm]
    exact ⟨fun h => ⟨h, hall⟩, fun h => h.1⟩
  · rw [hd.checkedSlices_eq_error ha he hfirst]
    simp only [reduceCtorEq, false_iff, not_and]
    intro _ hall
    rw [hall a ha] at he
    cases he

/-- The file range of a slice lies in the file. -/
theorem fileStart_add_size_le {r : AddressRange FlashSpace} {s : BlockSlice} {o : FileOffset}
    (hs : s ∈ m.slices r) (ho : s.fileStart = some o) :
    o.value + s.range.size.value ≤ m.fileSize.value := by
  have hpos := s.range.size_pos
  have hfits := s.range.fits
  have hlast : s.range.contains
      ⟨s.range.start.value + (s.range.size.value - 1), by omega⟩ = true :=
    AddressRange.contains_iff.2 ⟨by simp only; omega, by simp only; omega⟩
  have hplace := place_of_mem_slices hs hlast
  rw [ho, Option.map_some] at hplace
  have := place_lt hplace
  simp only at this
  omega

end MemoryMap

/-! ### Reading -/

namespace MemoryImage

variable {img : MemoryImage}

/-- The byte at an address, if a block holds it. -/
def byteAt (img : MemoryImage) (a : FlashAddress) : Option Byte :=
  match img.map.blockAt a with
  | none => none
  | some b =>
    match b.backing with
    | .fill value => some value
    | .file _ => (img.map.place a).bind (img.file[·]?)

/-- Every byte of a slice of held addresses is the byte at its address. -/
theorem getElem?_sliceBytes {r : AddressRange FlashSpace} {s : BlockSlice}
    (hs : s ∈ img.map.slices r) {a : FlashAddress} (ha : s.range.contains a = true) :
    (sliceBytes img.file s)[a.value - s.range.start.value]? = img.byteAt a := by
  obtain ⟨h1, h2⟩ := AddressRange.contains_iff.1 ha
  have hplace := MemoryMap.place_of_mem_slices hs ha
  have hblock := MemoryMap.blockAt_of_mem_slices hs ha
  unfold sliceBytes byteAt
  rw [hblock]
  cases hf : s.fileStart with
  | some o =>
    have hb : ∃ b offset, s.block = some b ∧ b.backing = .file offset := by
      unfold BlockSlice.fileStart at hf
      cases hb : s.block with
      | none => rw [hb] at hf; cases hf
      | some b =>
        cases hfile : b.backing with
        | fill value => rw [hb] at hf; simp only [hfile] at hf; cases hf
        | file offset => exact ⟨b, offset, rfl, hfile⟩
    obtain ⟨b, offset, hb, hfile⟩ := hb
    rw [hf] at hplace
    simp only [hb, hfile, hplace, Option.map_some, Option.bind_some]
    rw [List.getElem?_take_of_lt (by omega), List.getElem?_drop]
  | none =>
    rw [hf, Option.map_none] at hplace
    cases hb : s.block with
    | none => simp
    | some b =>
      obtain ⟨range, backing, writability⟩ := b
      cases backing with
      | fill value =>
        simp only
        rw [List.getElem?_replicate, if_pos (by omega)]
      | file offset => simp [hplace]

theorem length_sliceBytes {r : AddressRange FlashSpace} {s : BlockSlice}
    (hs : s ∈ img.map.slices r) (hheld : s.block ≠ none) :
    (sliceBytes img.file s).length = s.range.size.value := by
  have hstart := MemoryMap.fileStart_of_mem_slices hs
  unfold sliceBytes
  cases hf : s.fileStart with
  | some o =>
    have := MemoryMap.fileStart_add_size_le hs hf
    simp only [List.length_take, List.length_drop, img.length_file]
    omega
  | none =>
    obtain ⟨b, hb⟩ := Option.ne_none_iff_exists'.1 hheld
    rw [hf, Option.map_none, MemoryMap.place, MemoryMap.blockAt_of_mem_slices hs
      (AddressRange.contains_iff.2 ⟨le_rfl, by have := s.range.size_pos; omega⟩), hb] at hstart
    obtain ⟨range, backing, writability⟩ := b
    cases backing with
    | fill value => simp [hb]
    | file offset => simp [MemoryBlock.fileOffsetAt] at hstart

/-- Every address of the range is held by a block. -/
def Held (img : MemoryImage) (r : AddressRange FlashSpace) : Prop :=
  ∀ a, r.contains a = true → img.map.absence a = none

theorem Held.block_ne_none {r : AddressRange FlashSpace} (hheld : img.Held r) {s : BlockSlice}
    (hs : s ∈ img.map.slices r) : s.block ≠ none := by
  have hself : s.range.contains s.range.start = true :=
    AddressRange.contains_iff.2 ⟨le_rfl, by have := s.range.size_pos; omega⟩
  have h := hheld _ (MemoryMap.mem_range_of_mem_slices hs hself)
  rw [MemoryMap.absence, MemoryMap.blockAt_of_mem_slices hs hself] at h
  intro hnone
  rw [hnone] at h
  cases h

/-- The copies of `render` fit its buffer. -/
theorem fits_renderSlices {r : AddressRange FlashSpace} (hheld : img.Held r) :
    Fits r.size.value
      ((img.map.slices r).map fun s => (offsetIn r s, sliceBytes img.file s)) := by
  intro w hw
  obtain ⟨s, hs, rfl⟩ := List.mem_map.1 hw
  have hwithin := (img.map.contiguous_slices r).within _ (List.mem_map_of_mem hs)
  simp only [AddressRange.segment, AddressRange.stop_value] at hwithin
  simp only [length_sliceBytes hs (hheld.block_ne_none hs), offsetIn]
  omega

theorem length_renderSlices {r : AddressRange FlashSpace} (hheld : img.Held r) :
    (renderSlices img.file r (img.map.slices r)).length = r.size.value := by
  rw [renderSlices, length_overwriteAll, List.length_replicate]
  rw [List.length_replicate]
  exact fits_renderSlices hheld

/-- Every byte of a rendered range is the byte at its address. -/
theorem getElem?_renderSlices {r : AddressRange FlashSpace} (hheld : img.Held r)
    {a : FlashAddress} (ha : r.contains a = true) :
    (renderSlices img.file r (img.map.slices r))[a.value - r.start.value]? = img.byteAt a := by
  obtain ⟨h1, h2⟩ := AddressRange.contains_iff.1 ha
  have hfits := r.fits
  have hagree : Agrees (fun i => TaggedPosition.extend img.byteAt (r.start.value + i))
      ((img.map.slices r).map fun s => (offsetIn r s, sliceBytes img.file s)) := by
    intro w hw i hi
    obtain ⟨s, hs, rfl⟩ := List.mem_map.1 hw
    have hwithin := (img.map.contiguous_slices r).within _ (List.mem_map_of_mem hs)
    simp only [AddressRange.segment, AddressRange.stop_value] at hwithin
    simp only [length_sliceBytes hs (hheld.block_ne_none hs)] at hi
    let c : FlashAddress := ⟨s.range.start.value + i, by omega⟩
    have hc : s.range.contains c = true :=
      AddressRange.contains_iff.2 ⟨Nat.le_add_right _ _, Nat.add_lt_add_left hi _⟩
    have hcv : r.start.value + (offsetIn r s + i) = c.value := by
      simp only [offsetIn, c]
      omega
    have hread := getElem?_sliceBytes hs hc
    rw [Nat.add_sub_cancel_left] at hread
    simp only [hcv, TaggedPosition.extend_value]
    exact hread
  obtain ⟨s, hs, hsa⟩ := MemoryMap.exists_slice_of_mem_range (m := img.map) ha
  obtain ⟨h3, h4⟩ := AddressRange.contains_iff.1 hsa
  have hcov : Covered ((img.map.slices r).map fun s => (offsetIn r s, sliceBytes img.file s))
      (a.value - r.start.value) := by
    refine ⟨_, List.mem_map_of_mem hs, ?_⟩
    have hwithin := (img.map.contiguous_slices r).within _ (List.mem_map_of_mem hs)
    simp only [AddressRange.segment] at hwithin
    simp only [length_sliceBytes hs (hheld.block_ne_none hs), offsetIn]
    omega
  have hread := getElem?_overwriteAll_of_covered
    (l := List.replicate r.size.value 0) (by simpa using fits_renderSlices hheld) hagree hcov
  rw [renderSlices, hread, Nat.add_sub_cancel' h1, TaggedPosition.extend_value]

theorem held_of_checkedSlices {r : AddressRange FlashSpace} {l : List BlockSlice}
    (h : checkedSlices img.map r heldByABlock = .ok l) : l = img.map.slices r ∧ img.Held r :=
  (img.map.decides_heldByABlock.checkedSlices_eq_ok_iff).1 h

/-- `MemoryImage::Create`. -/
def create (map : MemoryMap) (file : Bytes) : Except MemoryError MemoryImage :=
  if h : file.length = map.fileSize.value then .ok ⟨map, file, h⟩
  else .error ⟨.fileSizeMismatch,
    s!"the ROM file is {file.length} bytes; its memory map places {map.fileSize.value}"⟩

/-- The bytes of `range`, if a block holds every address. -/
def render (img : MemoryImage) (range : AddressRange FlashSpace) :
    Except MemoryError MemoryView :=
  match h : checkedSlices img.map range heldByABlock with
  | .error e => .error e
  | .ok slices => .ok ⟨range, renderSlices img.file range slices, by
      obtain ⟨rfl, hheld⟩ := held_of_checkedSlices h
      exact length_renderSlices hheld⟩

theorem render_eq_ok {r : AddressRange FlashSpace} (hheld : img.Held r) :
    img.render r = .ok ⟨r, renderSlices img.file r (img.map.slices r),
      length_renderSlices hheld⟩ := by
  have hok := img.map.decides_heldByABlock.checkedSlices_eq_ok hheld
  unfold render
  split
  · rename_i h
    rw [hok] at h
    cases h
  · rename_i h
    rw [hok] at h
    cases h
    rfl

theorem render_eq_error {r : AddressRange FlashSpace} {a : FlashAddress} {e : MemoryError}
    (ha : r.contains a = true) (hbad : img.map.absence a = some e)
    (hfirst : ∀ c, r.contains c = true → c.value < a.value → img.map.absence c = none) :
    img.render r = .error e := by
  have herr := img.map.decides_heldByABlock.checkedSlices_eq_error ha hbad hfirst
  unfold render
  split
  · rename_i h
    rw [herr] at h
    cases h
    rfl
  · rename_i h
    rw [herr] at h
    cases h

/-- `render` succeeds exactly on ranges of held addresses. -/
theorem render_eq_ok_iff {r : AddressRange FlashSpace} :
    (∃ v, img.render r = .ok v) ↔ img.Held r := by
  constructor
  · rintro ⟨v, hv⟩
    rcases MemoryMap.forall_or_exists_first img.map.absence r with hall | ⟨a, e, ha, he, hfirst⟩
    · exact hall
    · rw [render_eq_error ha he hfirst] at hv
      cases hv
  · exact fun h => ⟨_, render_eq_ok h⟩

/-- A rendered range lists the bytes at its addresses. -/
theorem render_data {r : AddressRange FlashSpace} {v : MemoryView} (hv : img.render r = .ok v) :
    v.range = r ∧ ∀ a, r.contains a = true → v.data[a.value - r.start.value]? = img.byteAt a := by
  have hheld := render_eq_ok_iff.1 ⟨v, hv⟩
  rw [render_eq_ok hheld] at hv
  cases hv
  exact ⟨rfl, fun a ha => getElem?_renderSlices hheld ha⟩

/-- Two byte lists over one range are equal if they agree at every address. -/
theorem eq_of_forall_mem_range {r : AddressRange FlashSpace} {l l' : Bytes}
    (hl : l.length = r.size.value) (hl' : l'.length = r.size.value)
    (h : ∀ a, r.contains a = true → l[a.value - r.start.value]? = l'[a.value - r.start.value]?) :
    l = l' := by
  apply List.ext_getElem?
  intro i
  by_cases hi : i < r.size.value
  · have hfits := r.fits
    have := h ⟨r.start.value + i, by omega⟩
      (AddressRange.contains_iff.2 ⟨Nat.le_add_right _ _, Nat.add_lt_add_left hi _⟩)
    simpa using this
  · rw [List.getElem?_eq_none (by omega), List.getElem?_eq_none (by omega)]

/-- `render` depends only on the map and on the bytes at the addresses of the range. -/
theorem render_congr {img img' : MemoryImage} {r : AddressRange FlashSpace}
    (hmap : img'.map = img.map) (hbytes : ∀ a, r.contains a = true → img'.byteAt a = img.byteAt a) :
    img'.render r = img.render r := by
  rcases MemoryMap.forall_or_exists_first img.map.absence r with hall | ⟨a, e, ha, he, hfirst⟩
  · have hheld : img.Held r := hall
    have hheld' : img'.Held r := by unfold Held; rw [hmap]; exact hall
    rw [render_eq_ok hheld, render_eq_ok hheld']
    congr 2
    refine eq_of_forall_mem_range (length_renderSlices hheld') (length_renderSlices hheld) ?_
    intro a ha
    rw [getElem?_renderSlices hheld ha, getElem?_renderSlices hheld' ha, hbytes a ha]
  · have hbad : img'.render r = .error e :=
      render_eq_error ha (by rw [hmap]; exact he) (by rw [hmap]; exact hfirst)
    rw [hbad, render_eq_error ha he hfirst]

/-! ### Writing -/

/-- Every address of the range can be stored. -/
def Storable (img : MemoryImage) (r : AddressRange FlashSpace) : Prop :=
  ∀ a, r.contains a = true → img.map.refusal a = none

theorem exists_place_of_refusal_eq_none {m : MemoryMap} {a : FlashAddress}
    (h : m.refusal a = none) : ∃ o, m.place a = some o := by
  unfold MemoryMap.refusal at h
  cases hb : m.blockAt a with
  | none => rw [hb] at h; cases h
  | some b =>
    simp only [hb] at h
    split_ifs at h with hfill _
    exact MemoryMap.fileBacked_iff.1 ⟨b, hb, by simpa using hfill⟩

theorem Storable.exists_fileStart {r : AddressRange FlashSpace} (hst : img.Storable r)
    {s : BlockSlice} (hs : s ∈ img.map.slices r) : ∃ o, s.fileStart = some o := by
  have hself : s.range.contains s.range.start = true :=
    AddressRange.contains_iff.2 ⟨le_rfl, by have := s.range.size_pos; omega⟩
  obtain ⟨o, ho⟩ := exists_place_of_refusal_eq_none
    (hst _ (MemoryMap.mem_range_of_mem_slices hs hself))
  have hstart := MemoryMap.fileStart_of_mem_slices hs
  rw [ho] at hstart
  obtain ⟨k, hk, -⟩ := Option.map_eq_some_iff.1 hstart
  exact ⟨k, hk⟩

theorem fits_sliceWrite {r : AddressRange FlashSpace} (hst : img.Storable r) (data : Bytes) :
    Fits img.file.length ((img.map.slices r).map (sliceWrite r data)) := by
  intro w hw
  obtain ⟨s, hs, rfl⟩ := List.mem_map.1 hw
  obtain ⟨o, ho⟩ := hst.exists_fileStart hs
  have := MemoryMap.fileStart_add_size_le hs ho
  simp only [sliceWrite, ho, Option.map_some, Option.getD_some, List.length_take, List.length_drop,
    img.length_file]
  omega

theorem storable_of_checkedSlices {r : AddressRange FlashSpace} {l : List BlockSlice}
    (h : checkedSlices img.map r writableFileBlock = .ok l) :
    l = img.map.slices r ∧ img.Storable r :=
  (img.map.decides_writableFileBlock.checkedSlices_eq_ok_iff).1 h

/-- Whether a write of `size` bytes from `start` would succeed. -/
def checkWrite (img : MemoryImage) (start : FlashAddress) (size : ByteCount) :
    Except MemoryError Unit :=
  if size.value = 0 then .ok ()
  else
    match AddressRange.make start size with
    | none => .error (pastSpaceError size.value start)
    | some range =>
      match checkedSlices img.map range writableFileBlock with
      | .error e => .error e
      | .ok _ => .ok ()

/-- Write `data` from `start` into the ROM file bytes.  Every slice is checked before any byte
changes. -/
def write (img : MemoryImage) (start : FlashAddress) (data : Bytes) :
    Except MemoryError Unit × MemoryImage :=
  if data.isEmpty then (.ok (), img)
  else
    match (ByteCount.fromSize data.length).bind (AddressRange.make start) with
    | none => (.error (pastSpaceError data.length start), img)
    | some range =>
      match h : checkedSlices img.map range writableFileBlock with
      | .error e => (.error e, img)
      | .ok slices =>
        (.ok (), ⟨img.map, overwriteAll img.file (slices.map (sliceWrite range data)), by
          obtain ⟨rfl, hst⟩ := storable_of_checkedSlices h
          rw [length_overwriteAll (fits_sliceWrite hst data), img.length_file]⟩)

variable {r : AddressRange FlashSpace} {data : Bytes}

theorem fromSize_bind_make (hlen : data.length = r.size.value) :
    (ByteCount.fromSize data.length).bind (AddressRange.make r.start) = some r := by
  have hsize : ByteCount.fromSize data.length = some r.size := by
    rw [hlen, ByteCount.fromSize, dif_pos r.size.lt]
  rw [hsize, Option.bind_some, AddressRange.make_eq_some_iff]
  exact ⟨rfl, rfl⟩

theorem isEmpty_eq_false (hlen : data.length = r.size.value) : data.isEmpty = false := by
  have hpos := r.size_pos
  cases data with
  | nil => simp only [List.length_nil] at hlen; omega
  | cons x xs => rfl

/-- A write of storable addresses succeeds. -/
theorem write_eq_of_storable (hlen : data.length = r.size.value) (hst : img.Storable r) :
    (img.write r.start data).1 = .ok () ∧ (img.write r.start data).2.map = img.map ∧
      (img.write r.start data).2.file =
        overwriteAll img.file ((img.map.slices r).map (sliceWrite r data)) := by
  have hok := img.map.decides_writableFileBlock.checkedSlices_eq_ok hst
  unfold write
  rw [isEmpty_eq_false hlen, fromSize_bind_make hlen]
  simp only [Bool.false_eq_true, ↓reduceIte]
  split
  · rename_i h
    rw [hok] at h
    cases h
  · rename_i h
    rw [hok] at h
    cases h
    exact ⟨rfl, rfl, rfl⟩

/-- Any other write fails with the refusal of the first address that is not storable, and leaves
the image alone. -/
theorem write_eq_of_refusal (hlen : data.length = r.size.value) {a : FlashAddress}
    {e : MemoryError} (ha : r.contains a = true) (hbad : img.map.refusal a = some e)
    (hfirst : ∀ c, r.contains c = true → c.value < a.value → img.map.refusal c = none) :
    img.write r.start data = (.error e, img) := by
  have herr := img.map.decides_writableFileBlock.checkedSlices_eq_error ha hbad hfirst
  unfold write
  rw [isEmpty_eq_false hlen, fromSize_bind_make hlen]
  simp only [Bool.false_eq_true, ↓reduceIte]
  split
  · rename_i h
    rw [herr] at h
    cases h
    rfl
  · rename_i h
    rw [herr] at h
    cases h

theorem write_eq_of_past {start : FlashAddress} (hne : data ≠ [])
    (hpast : u32Size ≤ start.value + data.length) :
    img.write start data = (.error (pastSpaceError data.length start), img) := by
  have hnone : (ByteCount.fromSize data.length).bind (AddressRange.make start) = none := by
    unfold ByteCount.fromSize
    split_ifs with h
    · exact AddressRange.make_eq_none_iff.2 (Or.inr hpast)
    · rfl
  unfold write
  rw [hnone, if_neg (by simpa using hne)]

/-- The three ways a write can go. -/
theorem write_cases (img : MemoryImage) (start : FlashAddress) (data : Bytes) :
    data = [] ∨ (data ≠ [] ∧ u32Size ≤ start.value + data.length) ∨
      ∃ r : AddressRange FlashSpace, r.start = start ∧ data.length = r.size.value ∧
        (img.Storable r ∨ ∃ a e, r.contains a = true ∧ img.map.refusal a = some e ∧
          ∀ c, r.contains c = true → c.value < a.value → img.map.refusal c = none) := by
  by_cases hne : data = []
  · exact Or.inl hne
  · by_cases hpast : u32Size ≤ start.value + data.length
    · exact Or.inr (Or.inl ⟨hne, hpast⟩)
    · have hpos := List.length_pos_iff.2 hne
      refine Or.inr (Or.inr ⟨⟨start, ⟨data.length, by omega⟩, hpos, by simp only; omega⟩, rfl, rfl,
        MemoryMap.forall_or_exists_first _ _⟩)

theorem checkWrite_eq_write {start : FlashAddress} {size : ByteCount}
    (hlen : data.length = size.value) : (img.write start data).1 = img.checkWrite start size := by
  have hsize : ByteCount.fromSize data.length = some size := by
    rw [hlen, ByteCount.fromSize, dif_pos size.lt]
  unfold write checkWrite
  cases data with
  | nil =>
    have hzero : size.value = 0 := hlen.symm
    rw [if_pos (by rfl : ([] : Bytes).isEmpty = true), if_pos hzero]
  | cons x xs =>
    rw [if_neg (by simp), if_neg (by rw [← hlen]; simp), hsize, Option.bind_some]
    cases AddressRange.make start size with
    | none => simp only [hlen]
    | some range =>
      simp only
      split
      · rename_i h; rw [h]
      · rename_i h; simp only [h]

theorem length_sliceWrite (hlen : data.length = r.size.value) {s : BlockSlice}
    (hs : s ∈ img.map.slices r) : (sliceWrite r data s).2.length = s.range.size.value := by
  have hwithin := (img.map.contiguous_slices r).within _ (List.mem_map_of_mem hs)
  simp only [AddressRange.segment, AddressRange.stop_value] at hwithin
  simp only [sliceWrite, List.length_take, List.length_drop, offsetIn, hlen]
  omega

/-- The positions a write covers are the placements of the addresses of its range. -/
theorem covered_sliceWrite_iff (hlen : data.length = r.size.value) (hst : img.Storable r) {o : ℕ} :
    Covered ((img.map.slices r).map (sliceWrite r data)) o ↔
      ∃ a, r.contains a = true ∧ img.map.place a = some o := by
  constructor
  · rintro ⟨w, hw, h1, h2⟩
    obtain ⟨s, hs, rfl⟩ := List.mem_map.1 hw
    obtain ⟨k, hk⟩ := hst.exists_fileStart hs
    rw [length_sliceWrite hlen hs] at h2
    simp only [sliceWrite, hk, Option.map_some, Option.getD_some] at h1 h2
    have hfits := s.range.fits
    let a : FlashAddress := ⟨s.range.start.value + (o - k.value), by omega⟩
    have ha : s.range.contains a = true :=
      AddressRange.contains_iff.2 ⟨Nat.le_add_right _ _, Nat.add_lt_add_left (by omega) _⟩
    refine ⟨a, MemoryMap.mem_range_of_mem_slices hs ha, ?_⟩
    rw [MemoryMap.place_of_mem_slices hs ha, hk, Option.map_some]
    simp only [a, Option.some.injEq]
    omega
  · rintro ⟨a, ha, ho⟩
    obtain ⟨s, hs, hsa⟩ := MemoryMap.exists_slice_of_mem_range (m := img.map) ha
    obtain ⟨k, hk⟩ := hst.exists_fileStart hs
    obtain ⟨h1, h2⟩ := AddressRange.contains_iff.1 hsa
    rw [MemoryMap.place_of_mem_slices hs hsa, hk, Option.map_some, Option.some.injEq] at ho
    refine ⟨_, List.mem_map_of_mem hs, ?_⟩
    rw [length_sliceWrite hlen hs]
    simp only [sliceWrite, hk, Option.map_some, Option.getD_some]
    omega

/-- The file byte that backs an address of the range holds the address's byte of `data`. -/
theorem getElem?_write_of_place (hlen : data.length = r.size.value) (hst : img.Storable r)
    {a : FlashAddress} {o : ℕ} (ha : r.contains a = true) (ho : img.map.place a = some o) :
    (img.write r.start data).2.file[o]? = data[a.value - r.start.value]? := by
  classical
  -- what the slices agree on: each file byte gets the byte of the one address it backs
  let f : ℕ → Option Byte := fun o =>
    if h : ∃ a, r.contains a = true ∧ img.map.place a = some o then
      data[h.choose.value - r.start.value]? else none
  have hf : ∀ (c : FlashAddress) (k : ℕ), r.contains c = true → img.map.place c = some k →
      f k = data[c.value - r.start.value]? := by
    intro c k hc hk
    have hex : ∃ a, r.contains a = true ∧ img.map.place a = some k := ⟨c, hc, hk⟩
    simp only [f, dif_pos hex]
    rw [MemoryMap.place_inj hex.choose_spec.2 hk]
  have hagree : Agrees f ((img.map.slices r).map (sliceWrite r data)) := by
    intro w hw i hi
    obtain ⟨s, hs, rfl⟩ := List.mem_map.1 hw
    obtain ⟨k, hk⟩ := hst.exists_fileStart hs
    rw [length_sliceWrite hlen hs] at hi
    have hwithin := (img.map.contiguous_slices r).within _ (List.mem_map_of_mem hs)
    simp only [AddressRange.segment] at hwithin
    have hfits := s.range.fits
    let c : FlashAddress := ⟨s.range.start.value + i, by omega⟩
    have hc : s.range.contains c = true :=
      AddressRange.contains_iff.2 ⟨Nat.le_add_right _ _, Nat.add_lt_add_left hi _⟩
    have hplace : img.map.place c = some (k.value + i) := by
      rw [MemoryMap.place_of_mem_slices hs hc, hk, Option.map_some]
      simp [c]
    simp only [sliceWrite, hk, Option.map_some, Option.getD_some]
    rw [hf c _ (MemoryMap.mem_range_of_mem_slices hs hc) hplace, List.getElem?_take_of_lt hi,
      List.getElem?_drop]
    congr 1
    simp only [offsetIn, c]
    omega
  rw [(write_eq_of_storable hlen hst).2.2, getElem?_overwriteAll_of_covered
    (fits_sliceWrite hst data) hagree ((covered_sliceWrite_iff hlen hst).2 ⟨a, ha, ho⟩)]
  exact hf a o ha ho

/-- The frame of a write: a file byte that backs no address of the range is unchanged. -/
theorem getElem?_write_of_not_place (hlen : data.length = r.size.value) (hst : img.Storable r)
    {o : ℕ} (ho : ∀ a, r.contains a = true → img.map.place a ≠ some o) :
    (img.write r.start data).2.file[o]? = img.file[o]? := by
  rw [(write_eq_of_storable hlen hst).2.2]
  refine getElem?_overwriteAll_of_not_covered (fits_sliceWrite hst data) ?_
  rw [covered_sliceWrite_iff hlen hst]
  rintro ⟨a, ha, hao⟩
  exact ho a ha hao

theorem byteAt_eq_of_place {a : FlashAddress} {o : ℕ} (ho : img.map.place a = some o) :
    img.byteAt a = img.file[o]? := by
  obtain ⟨b, hb, hbo⟩ := Option.bind_eq_some_iff.1 ho
  obtain ⟨offset, hfile, -⟩ := MemoryMap.fileOffsetAt_eq_some_iff.1 hbo
  unfold byteAt
  simp only [hb, hfile, ho, Option.bind_some]

/-- A write replaces the bytes at its addresses. -/
theorem byteAt_write_of_mem (hlen : data.length = r.size.value) (hst : img.Storable r)
    {a : FlashAddress} (ha : r.contains a = true) :
    (img.write r.start data).2.byteAt a = data[a.value - r.start.value]? := by
  obtain ⟨o, ho⟩ := exists_place_of_refusal_eq_none (hst a ha)
  have hmap := (write_eq_of_storable hlen hst).2.1
  rw [byteAt_eq_of_place (by rw [hmap]; exact ho), getElem?_write_of_place hlen hst ha ho]

/-- A write leaves every other address alone. -/
theorem byteAt_write_of_notMem (hlen : data.length = r.size.value) (hst : img.Storable r)
    {a : FlashAddress} (ha : r.contains a = false) :
    (img.write r.start data).2.byteAt a = img.byteAt a := by
  have hmap := (write_eq_of_storable hlen hst).2.1
  unfold byteAt
  rw [hmap]
  cases hb : img.map.blockAt a with
  | none => rfl
  | some b =>
    cases hfile : b.backing with
    | fill value => simp only [hfile]
    | file offset =>
      simp only [hfile]
      cases ho : img.map.place a with
      | none => rfl
      | some o =>
        refine getElem?_write_of_not_place hlen hst fun c hc hco => ?_
        rw [MemoryMap.place_inj hco ho, ha] at hc
        cases hc

/-- The address is one of the `size` addresses from `start` on. -/
def InSpan (start : FlashAddress) (size : ℕ) (a : FlashAddress) : Prop :=
  start.value ≤ a.value ∧ a.value < start.value + size

/-- `e` is the refusal of the first address of the span that cannot be stored. -/
def IsFirstRefusal (m : MemoryMap) (start : FlashAddress) (size : ℕ) (e : MemoryError) : Prop :=
  ∃ a, InSpan start size a ∧ m.refusal a = some e ∧
    ∀ c, InSpan start size c → c.value < a.value → m.refusal c = none

theorem contains_iff_inSpan (hlen : data.length = r.size.value) {a : FlashAddress} :
    r.contains a = true ↔ InSpan r.start data.length a := by
  rw [AddressRange.contains_iff, InSpan, hlen]

/-- A failed write names the first address that cannot be stored, or runs past the address
space. -/
theorem write_error (img : MemoryImage) (start : FlashAddress) (data : Bytes) {e : MemoryError}
    (he : (img.write start data).1 = .error e) :
    (img.write start data).2 = img ∧
      ((u32Size ≤ start.value + data.length ∧ e = pastSpaceError data.length start) ∨
        (start.value + data.length < u32Size ∧
          IsFirstRefusal img.map start data.length e)) := by
  rcases img.write_cases start data with rfl | ⟨hne, hpast⟩ | ⟨r, rfl, hlen, hst | hbad⟩
  · cases he
  · rw [write_eq_of_past hne hpast] at he ⊢
    cases he
    exact ⟨rfl, Or.inl ⟨hpast, rfl⟩⟩
  · rw [(write_eq_of_storable hlen hst).1] at he
    cases he
  · obtain ⟨a, e', ha, he', hfirst⟩ := hbad
    rw [write_eq_of_refusal hlen ha he' hfirst] at he ⊢
    cases he
    refine ⟨rfl, Or.inr ⟨by rw [hlen]; exact r.fits, a, (contains_iff_inSpan hlen).1 ha, he', ?_⟩⟩
    exact fun c hc hlt => hfirst c ((contains_iff_inSpan hlen).2 hc) hlt

/-- What a successful write does to the image. -/
structure Stores (img img' : MemoryImage) (start : FlashAddress) (data : Bytes) : Prop where
  /-- The map is the same. -/
  map_eq : img'.map = img.map
  /-- The file keeps its size. -/
  length_eq : img'.file.length = img.file.length
  /-- Rendering the written range gives back the data. -/
  render_written : ∀ r : AddressRange FlashSpace, r.start = start → r.size.value = data.length →
    ∃ v, img'.render r = .ok v ∧ v.data = data
  /-- Addresses outside the range render as before. -/
  render_other : ∀ r : AddressRange FlashSpace,
    (∀ a, r.contains a = true → ¬ InSpan start data.length a) → img'.render r = img.render r
  /-- File bytes that back no address of the range are unchanged. -/
  file_other : ∀ o, (∀ a, InSpan start data.length a → img.map.place a ≠ some o) →
    img'.file[o]? = img.file[o]?

theorem write_ok (img : MemoryImage) (start : FlashAddress) (data : Bytes)
    (hok : (img.write start data).1 = .ok ()) :
    Stores img (img.write start data).2 start data := by
  rcases img.write_cases start data with rfl | ⟨hne, hpast⟩ | ⟨r, rfl, hlen, hst | hbad⟩
  · refine ⟨rfl, rfl, fun r _ hsize => ?_, fun _ _ => rfl, fun _ _ => rfl⟩
    have := r.size_pos
    simp only [List.length_nil] at hsize
    omega
  · rw [write_eq_of_past hne hpast] at hok
    cases hok
  · have hmap := (write_eq_of_storable hlen hst).2.1
    refine ⟨hmap, ?_, fun r' hstart hsize => ?_, fun r' hr' => ?_, fun o ho => ?_⟩
    · rw [(write_eq_of_storable hlen hst).2.2, length_overwriteAll (fits_sliceWrite hst data)]
    · have hrr : r' = r := by
        refine AddressRange.ext hstart ?_
        cases hs : r'.size
        cases hs' : r.size
        simp only [ByteCount.mk.injEq]
        simp only [hs, hs'] at hsize hlen
        omega
      subst hrr
      have hheld : (img.write r'.start data).2.Held r' := by
        intro a ha
        rw [hmap]
        obtain ⟨o, ho⟩ := exists_place_of_refusal_eq_none (hst a ha)
        obtain ⟨b, hb, -⟩ := Option.bind_eq_some_iff.1 ho
        simp only [MemoryMap.absence, hb]
      refine ⟨_, render_eq_ok hheld, eq_of_forall_mem_range (length_renderSlices hheld) hlen ?_⟩
      intro a ha
      rw [getElem?_renderSlices hheld ha, byteAt_write_of_mem hlen hst ha]
    · refine render_congr hmap fun a ha => byteAt_write_of_notMem hlen hst ?_
      rw [Bool.eq_false_iff, ne_eq, contains_iff_inSpan hlen]
      exact hr' a ha
    · exact getElem?_write_of_not_place hlen hst fun a ha =>
        ho a ((contains_iff_inSpan hlen).1 ha)
  · obtain ⟨a, e', ha, he', hfirst⟩ := hbad
    rw [write_eq_of_refusal hlen ha he' hfirst] at hok
    cases hok

/-- **Writes are checked, atomic and framed.**  A write succeeds exactly when `checkWrite` for the
same start and size does, and fails with the same error otherwise; that error is the refusal of
the first address that cannot be stored, unless the write runs past the address space; a failed
write leaves the image as it was; a successful one stores the data and nothing else. -/
theorem write_checked_atomic_framed (img : MemoryImage) (start : FlashAddress) (data : Bytes) :
    (∀ size, ByteCount.fromSize data.length = some size →
      (img.write start data).1 = img.checkWrite start size) ∧
    (ByteCount.fromSize data.length = none →
      (img.write start data).1 = .error (pastSpaceError data.length start)) ∧
    (∀ e, (img.write start data).1 = .error e →
      (img.write start data).2.file = img.file ∧
      ((u32Size ≤ start.value + data.length ∧ e = pastSpaceError data.length start) ∨
        (start.value + data.length < u32Size ∧
          IsFirstRefusal img.map start data.length e))) ∧
    ((img.write start data).1 = .ok () → Stores img (img.write start data).2 start data) := by
  refine ⟨fun size hsize => ?_, fun hnone => ?_, fun e he => ?_, img.write_ok start data⟩
  · refine checkWrite_eq_write ?_
    unfold ByteCount.fromSize at hsize
    split_ifs at hsize
    rw [← Option.some.inj hsize]
  · unfold ByteCount.fromSize at hnone
    split_ifs at hnone with h
    have hne : data ≠ [] := by
      rintro rfl
      exact h (by decide)
    rw [write_eq_of_past hne (by omega)]
  · obtain ⟨himg, herr⟩ := img.write_error start data he
    exact ⟨by rw [himg], herr⟩

/-- One writable byte at the last address a block can hold. -/
def topImage : MemoryImage :=
  ⟨.whole (.single ⟨0xFFFFFFFE, by decide⟩ (by decide)) .writable, [0], rfl⟩

/-- A two-byte write at the top of the address space: its first address is storable, its second
is not, and the error names neither as refused. -/
theorem write_past_space_not_first_refusal :
    (topImage.write ⟨0xFFFFFFFE, by decide⟩ [1, 2]).1 = .error ⟨.unmapped,
      "a 2-byte write at 0xfffffffe runs past the address space"⟩ ∧
    topImage.map.refusal ⟨0xFFFFFFFE, by decide⟩ = none ∧
    ¬ IsFirstRefusal topImage.map ⟨0xFFFFFFFE, by decide⟩ 2 ⟨.unmapped,
      "a 2-byte write at 0xfffffffe runs past the address space"⟩ := by
  refine ⟨?_, by decide, ?_⟩
  · rw [write_eq_of_past (by simp) (by decide)]
    decide
  · rintro ⟨a, ⟨h1, h2⟩, hbad, -⟩
    have ha : a = ⟨0xFFFFFFFE, by decide⟩ ∨ a = ⟨0xFFFFFFFF, by decide⟩ := by
      simp only at h1 h2
      rcases Nat.lt_or_ge a.value 0xFFFFFFFF with h | h
      · exact Or.inl (TaggedPosition.ext (by simp only; omega))
      · exact Or.inr (TaggedPosition.ext (by simp only; omega))
    rcases ha with rfl | rfl
    · revert hbad; decide
    · revert hbad; decide

end MemoryImage

end FastEcu.Memory
