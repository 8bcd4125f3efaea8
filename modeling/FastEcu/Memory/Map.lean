import FastEcu.Bytes.Words
import FastEcu.Memory.Address
import Mathlib.Data.List.Pairwise
import Mathlib.Data.List.TakeWhile
import Mathlib.Data.Set.Function

/-!
# Memory maps

`MemoryMap` (`src/algorithms/memory/memory_map.cpp`) places the bytes of one ROM file at ECU
addresses: a list of blocks, each an address range backed by file bytes or by a fill byte.

* `MemoryMap.create` is the only way to build a map; the record keeps the proof that its checks
  passed, as the private constructor of the source does.
* `Layout` says what the checks are for, in terms of sets of addresses and file offsets;
  `checkLayout_iff_layout` : the checks decide it.
* `MemoryMap.blockAt`, `MemoryMap.slices` and `MemoryMap.fileOffsetOf` are the queries of the
  source.  `MemoryMap.blockAt_eq_some_iff`, `MemoryMap.contiguous_slices` and
  `MemoryMap.blockAt_of_mem_slices` specify them by addresses, and nothing later unfolds them.
* `MemoryMap.byteOffset` is the mapping from addresses to file offsets that they give, and
  `MemoryMap.bijOn_byteOffset` : on the file-backed addresses it is a bijection onto the file.
-/

namespace FastEcu.Memory

/-- What went wrong in the memory component. -/
inductive MemoryErrorKind
  | invalidLayout
  | fileSizeMismatch
  | unmapped
  | fillBlock
  | notWritable
deriving DecidableEq, Repr

/-- An error and its text. -/
structure MemoryError where
  /-- The kind of error. -/
  kind : MemoryErrorKind
  /-- The text for the user. -/
  detail : String
deriving DecidableEq, Repr

/-- Lower-case hexadecimal digits, as `{:x}` formats them. -/
def hex (n : ℕ) : String := String.ofList (Nat.toDigits 16 n)

/-- What the bytes of a block are. -/
inductive Backing
  /-- ROM file bytes, the first of them at `offset`. -/
  | file (offset : FileOffset)
  /-- No ROM file bytes; every address reads as `value`. -/
  | fill (value : Byte)
deriving DecidableEq

/-- Whether the protocol can write a block to the ECU. -/
inductive Writability
  | readOnly
  | writable
deriving DecidableEq

/-- One contiguous range of ECU addresses. -/
structure MemoryBlock where
  /-- Its addresses. -/
  range : AddressRange FlashSpace
  /-- Its bytes. -/
  backing : Backing
  /-- Whether it can be written. -/
  writability : Writability := .readOnly
deriving DecidableEq

namespace MemoryBlock

/-- The block has no file bytes. -/
def isFill (b : MemoryBlock) : Bool :=
  match b.backing with
  | .file _ => false
  | .fill _ => true

/-- The file range of a file-backed block. -/
def fileRange (b : MemoryBlock) : Option (FileOffset × ByteCount) :=
  match b.backing with
  | .file offset => some (offset, b.range.size)
  | .fill _ => none

/-- Where the block keeps the byte of address `a`, if it holds file bytes. -/
def fileOffsetAt (b : MemoryBlock) (a : ℕ) : Option ℕ :=
  match b.backing with
  | .file offset => some (offset.value + (a - b.range.start.value))
  | .fill _ => none

end MemoryBlock

/-! ### The checks of `Create` -/

/-- An invalid-layout error. -/
def invalidLayout (detail : String) : MemoryError := ⟨.invalidLayout, detail⟩

/-- The file ranges of the file-backed blocks, in block order. -/
def fileRanges (blocks : List MemoryBlock) : List (FileOffset × ByteCount) :=
  blocks.filterMap MemoryBlock.fileRange

/-- The order of pairs: by offset, then by size. -/
def fileRangeLe (s t : FileOffset × ByteCount) : Bool :=
  decide (s.1 < t.1) || (decide (s.1 = t.1) && decide (s.2.value ≤ t.2.value))

/-- The walk over the sorted file ranges: where the last one ends. -/
def placeFileRanges : FileOffset → List (FileOffset × ByteCount) → Except MemoryError FileOffset
  | next, [] => .ok next
  | next, (offset, size) :: rest =>
    if offset < next then
      .error (invalidLayout s!"ROM file byte 0x{hex offset.value} is placed by two blocks")
    else if next < offset then
      .error (invalidLayout
        s!"ROM file bytes 0x{hex next.value}-0x{hex (offset.value - 1)} are not placed")
    else
      match offset.advance size with
      | none => .error (invalidLayout "a file-backed block runs past the 32-bit file range")
      | some stop => placeFileRanges stop rest

/-- Sorted by file offset, the file-backed blocks' file ranges must tile `[0, fileSize)`. -/
def checkFilePlacement (blocks : List MemoryBlock) (fileSize : ByteCount) :
    Except MemoryError Unit :=
  match placeFileRanges ⟨0, u32Size_pos⟩ ((fileRanges blocks).mergeSort fileRangeLe) with
  | .error e => .error e
  | .ok next =>
    if next.value < fileSize.value then
      .error (invalidLayout s!"ROM file bytes from 0x{hex next.value} are not placed")
    else if fileSize.value < next.value then
      .error (invalidLayout s!"file-backed blocks run past the {fileSize.value}-byte ROM file")
    else .ok ()

/-- The second of the first two neighbours that `p` relates. -/
def adjacentFind {α : Type*} (p : α → α → Bool) : List α → Option α
  | [] => none
  | [_] => none
  | a :: b :: rest => if p a b then some b else adjacentFind p (b :: rest)

/-- Everything `Create` checks, in its order. -/
def checkLayout (blocks : List MemoryBlock) (fileSize : ByteCount) : Except MemoryError Unit :=
  if blocks.isEmpty then .error (invalidLayout "a memory map needs at least one block")
  else if fileSize.value = 0 then
    .error (invalidLayout "a memory map needs a non-empty ROM file")
  else
    match blocks.find? fun b => b.isFill && decide (b.writability = .writable) with
    | some b => .error (invalidLayout
        s!"the fill block at 0x{hex b.range.start.value} is marked writable")
    | none =>
      match adjacentFind (fun before after => decide (after.range.start < before.range.stop))
          blocks with
      | some after => .error (invalidLayout
          s!"the block at 0x{hex after.range.start.value} overlaps or precedes the block before it")
      | none => checkFilePlacement blocks fileSize

/-- The ordered memory blocks that place one ROM file layout at ECU addresses. -/
structure MemoryMap where
  /-- The blocks, in address order. -/
  blocks : List MemoryBlock
  /-- The size of the ROM file. -/
  fileSize : ByteCount
  /-- The ECU address that definition address 0 stands for. -/
  definitionBase : FlashAddress
  /-- The blocks passed the checks. -/
  checked : checkLayout blocks fileSize = .ok ()

/-- One part of an address range: what one block holds of it, or a gap (`block = none`). -/
structure BlockSlice where
  /-- The block that holds it. -/
  block : Option MemoryBlock
  /-- Its addresses. -/
  range : AddressRange FlashSpace

/-- Where the slice starts in the ROM file; `none` for a gap or a fill block. -/
def BlockSlice.fileStart (s : BlockSlice) : Option FileOffset :=
  match s.block with
  | none => none
  | some b =>
    match b.backing with
    | .fill _ => none
    | .file offset => (s.range.start.distanceFrom b.range.start).bind offset.advance

/-- The gap from `cursor` to `stop`, if there is one. -/
def gapSlice (cursor stop : FlashAddress) : List BlockSlice :=
  if h : cursor < stop then [⟨none, .between cursor stop h⟩] else []

/-- The slices from `cursor` to `stop`, for the blocks that end after `cursor`.  One step is the
loop's gap iteration before a block, if there is one, and its iteration for that block. -/
def slicesFrom (stop : FlashAddress) : FlashAddress → List MemoryBlock → List BlockSlice
  | cursor, [] => gapSlice cursor stop
  | cursor, b :: rest =>
    let gapEnd := min b.range.start stop
    let blockStart := max cursor gapEnd
    let blockEnd := min b.range.stop stop
    gapSlice cursor gapEnd ++
      if h : blockStart < blockEnd then
        ⟨some b, .between blockStart blockEnd h⟩ :: slicesFrom stop blockEnd rest
      else []

namespace MemoryMap

/-- `MemoryMap::Create`. -/
def create (blocks : List MemoryBlock) (fileSize : ByteCount)
    (definitionBase : FlashAddress := ⟨0, u32Size_pos⟩) : Except MemoryError MemoryMap :=
  match h : checkLayout blocks fileSize with
  | .error e => .error e
  | .ok () => .ok ⟨blocks, fileSize, definitionBase, h⟩

/-- One writable block holding the whole ROM file at address 0. -/
def identity (fileSize : ByteCount) : Except MemoryError MemoryMap :=
  match AddressRange.make ⟨0, u32Size_pos⟩ fileSize with
  | none => .error (invalidLayout "an identity memory map needs a non-empty ROM file")
  | some range => create [⟨range, .file ⟨0, u32Size_pos⟩, .writable⟩] fileSize

/-- From the start of the first block to the end of the last one.  A map always has one
(`span_eq_some`). -/
def span (m : MemoryMap) : Option (AddressRange FlashSpace) :=
  m.blocks.head?.bind fun first => m.blocks.getLast?.bind fun last =>
    (last.range.stop.distanceFrom first.range.start).bind (AddressRange.make first.range.start)

/-- The block holding `address`.  The binary search of the source finds the end of the blocks
that start at or before `address`, which a sorted list lets it do. -/
def blockAt (m : MemoryMap) (address : FlashAddress) : Option MemoryBlock :=
  match (m.blocks.takeWhile fun b => decide (b.range.start ≤ address)).getLast? with
  | none => none
  | some candidate => if candidate.range.contains address then some candidate else none

/-- `range` split at block boundaries, in address order, starting the walk at the first block
that ends after the range starts. -/
def slices (m : MemoryMap) (range : AddressRange FlashSpace) : List BlockSlice :=
  slicesFrom range.stop range.start
    (m.blocks.dropWhile fun b => decide (b.range.stop ≤ range.start))

/-- The ECU address a definition address stands for. -/
def toFlashAddress (m : MemoryMap) (address : DefinitionAddress) : Option FlashAddress :=
  m.definitionBase.advance ⟨address.value, address.lt⟩

/-- Where `range` starts in the ROM file, when one file-backed block holds all of it. -/
def fileOffsetOf (m : MemoryMap) (range : AddressRange FlashSpace) : Option FileOffset :=
  match m.slices range with
  | [s] => s.fileStart
  | _ => none

/-- The file offset of the byte at `address`, as `blockAt` gives it. -/
def place (m : MemoryMap) (address : FlashAddress) : Option ℕ :=
  (m.blockAt address).bind fun b => b.fileOffsetAt address.value

end MemoryMap

/-! ### What the checks decide -/

/-- The file ranges of the file-backed blocks, as segments of the file. -/
def fileSegments (blocks : List MemoryBlock) : List Segment :=
  (fileRanges blocks).map fun r => (r.1.value, r.2.value)

/-- A list of blocks that places every byte of a ROM file of `fileSize` bytes exactly once. -/
structure Layout (blocks : List MemoryBlock) (fileSize : ByteCount) : Prop where
  /-- There is a block. -/
  blocks_ne_nil : blocks ≠ []
  /-- There is a file byte. -/
  file_pos : 0 < fileSize.value
  /-- No fill block is writable. -/
  fill_readOnly : ∀ b ∈ blocks, b.isFill = true → b.writability ≠ .writable
  /-- The blocks are in increasing address order and pairwise disjoint. -/
  ordered : blocks.Pairwise fun b c => b.range.stop.value ≤ c.range.start.value
  /-- The file ranges tile the file. -/
  tiles : Tiles (fileSegments blocks) 0 fileSize.value

theorem fileRange_eq_some_iff {b : MemoryBlock} {r : FileOffset × ByteCount} :
    b.fileRange = some r ↔ b.backing = .file r.1 ∧ b.range.size = r.2 := by
  unfold MemoryBlock.fileRange
  cases hb : b.backing with
  | file offset =>
    simp only [Option.some.injEq, Backing.file.injEq]
    constructor
    · rintro rfl; exact ⟨rfl, rfl⟩
    · rintro ⟨ho, hs⟩; exact Prod.ext ho hs
  | fill value => simp

theorem fileSegments_pos {blocks : List MemoryBlock} : ∀ s ∈ fileSegments blocks, 0 < s.2 := by
  intro s hs
  obtain ⟨r, hr, rfl⟩ := List.mem_map.1 hs
  obtain ⟨b, -, hb⟩ := List.mem_filterMap.1 hr
  rw [← (fileRange_eq_some_iff.1 hb).2]
  exact b.range.size_pos

theorem fileRangeLe_trans (r s t : FileOffset × ByteCount) (h : fileRangeLe r s = true)
    (h' : fileRangeLe s t = true) : fileRangeLe r t = true := by
  simp only [fileRangeLe, TaggedPosition.lt_iff, TaggedPosition.ext_iff, Bool.or_eq_true,
    Bool.and_eq_true, decide_eq_true_eq] at *
  omega

theorem fileRangeLe_total (r s : FileOffset × ByteCount) :
    (fileRangeLe r s || fileRangeLe s r) = true := by
  simp only [fileRangeLe, TaggedPosition.lt_iff, TaggedPosition.ext_iff, Bool.or_eq_true,
    Bool.and_eq_true, decide_eq_true_eq]
  omega

/-- The walk succeeds exactly on file ranges that follow each other. -/
theorem placeFileRanges_eq_ok_iff {next stop : FileOffset} {rs : List (FileOffset × ByteCount)} :
    placeFileRanges next rs = .ok stop ↔
      Contiguous next.value (rs.map fun r => (r.1.value, r.2.value)) stop.value := by
  induction rs generalizing next with
  | nil =>
    simp only [placeFileRanges, List.map_nil, Contiguous, Except.ok.injEq]
    exact TaggedPosition.ext_iff
  | cons r rs ih =>
    obtain ⟨offset, size⟩ := r
    simp only [placeFileRanges, List.map_cons, Contiguous, TaggedPosition.lt_iff]
    by_cases heq : offset.value = next.value
    · rw [if_neg (by omega), if_neg (by omega)]
      cases hadv : offset.advance size with
      | none =>
        -- an end past the 32-bit file range cannot come before `stop`
        simp only [reduceCtorEq, false_iff, not_and]
        intro _ hc
        have hle := hc.le
        have := TaggedPosition.advance_eq_none_iff.1 hadv
        have := stop.lt
        omega
      | some e =>
        have he := TaggedPosition.advance_eq_some_iff.1 hadv
        simp only [heq, true_and]
        rw [ih, he, heq]
    · simp only [heq, false_and, iff_false]
      rcases Nat.lt_or_gt_of_ne heq with h | h
      · rw [if_pos h]
        intro h
        cases h
      · rw [if_neg (by omega), if_pos h]
        intro h
        cases h

/-- The placement check decides the tiling of the file. -/
theorem checkFilePlacement_iff {blocks : List MemoryBlock} {fileSize : ByteCount} :
    checkFilePlacement blocks fileSize = .ok () ↔
      Tiles (fileSegments blocks) 0 fileSize.value := by
  set sorted := (fileRanges blocks).mergeSort fileRangeLe with hsorted
  have hperm : (sorted.map fun r => (r.1.value, r.2.value)).Perm (fileSegments blocks) :=
    (List.mergeSort_perm _ _).map _
  have hpair : (sorted.map fun r => ((r.1.value, r.2.value) : Segment)).Pairwise
      fun s t => s.1 ≤ t.1 := by
    rw [List.pairwise_map]
    refine (List.pairwise_mergeSort fileRangeLe_trans fileRangeLe_total _).imp ?_
    intro r s h
    simp only [fileRangeLe, TaggedPosition.lt_iff, TaggedPosition.ext_iff, Bool.or_eq_true,
      Bool.and_eq_true, decide_eq_true_eq] at h
    omega
  rw [← Tiles.perm hperm, ← contiguous_iff_tiles (Nat.zero_le _)
    (fun s hs => fileSegments_pos s (hperm.mem_iff.1 hs)) hpair]
  have hend : (⟨fileSize.value, fileSize.lt⟩ : FileOffset).value = fileSize.value := rfl
  rw [← hend, show (0 : ℕ) = (⟨0, u32Size_pos⟩ : FileOffset).value from rfl,
    ← placeFileRanges_eq_ok_iff]
  unfold checkFilePlacement
  rw [← hsorted]
  cases hplace : placeFileRanges ⟨0, u32Size_pos⟩ sorted with
  | error e => simp
  | ok next =>
    simp only [Except.ok.injEq, TaggedPosition.ext_iff]
    split_ifs with h1 h2
    · simp only [false_iff]; omega
    · simp only [false_iff]; omega
    · simp only [true_iff]; omega

theorem adjacentFind_eq_none_iff {α : Type*} {p : α → α → Bool} {l : List α} :
    adjacentFind p l = none ↔ l.IsChain fun a b => p a b = false := by
  induction l with
  | nil => simp [adjacentFind]
  | cons a l ih =>
    cases l with
    | nil => simp [adjacentFind]
    | cons b l =>
      simp only [adjacentFind, List.isChain_cons_cons]
      cases hp : p a b
      · simp only [Bool.false_eq_true, ↓reduceIte, true_and]; exact ih
      · simp

/-- Neighbours in order are enough, since no block is empty. -/
theorem ordered_iff_isChain {blocks : List MemoryBlock} :
    (blocks.Pairwise fun b c => b.range.stop.value ≤ c.range.start.value) ↔
      blocks.IsChain fun b c => b.range.stop.value ≤ c.range.start.value := by
  have : IsTrans MemoryBlock fun b c => b.range.stop.value ≤ c.range.start.value :=
    ⟨fun b c d hbc hcd => hbc.trans ((c.range.start_lt_stop.le).trans hcd)⟩
  exact List.isChain_iff_pairwise.symm

/-- **The checks of `Create` decide the layout.** -/
theorem checkLayout_iff_layout {blocks : List MemoryBlock} {fileSize : ByteCount} :
    checkLayout blocks fileSize = .ok () ↔ Layout blocks fileSize := by
  have hchain : adjacentFind (fun before after : MemoryBlock =>
      decide (after.range.start < before.range.stop)) blocks = none ↔
      blocks.Pairwise fun b c => b.range.stop.value ≤ c.range.start.value := by
    rw [adjacentFind_eq_none_iff, ordered_iff_isChain]
    simp only [decide_eq_false_iff_not, TaggedPosition.lt_iff, not_lt]
  have hfill : (blocks.find? fun b => b.isFill && decide (b.writability = .writable)) = none ↔
      ∀ b ∈ blocks, b.isFill = true → b.writability ≠ .writable := by
    simp only [List.find?_eq_none, Bool.and_eq_true, decide_eq_true_eq, not_and, ne_eq]
  unfold checkLayout
  constructor
  · intro h
    split_ifs at h with h1 h2
    split at h
    · cases h
    · rename_i hf
      split at h
      · cases h
      · rename_i ha
        exact ⟨by simpa using h1, by omega, hfill.1 hf, hchain.1 ha, checkFilePlacement_iff.1 h⟩
  · intro h
    have hpos := h.file_pos
    rw [if_neg (by simpa using h.blocks_ne_nil), if_neg (by omega),
      hfill.2 h.fill_readOnly, hchain.2 h.ordered]
    exact checkFilePlacement_iff.2 h.tiles

namespace MemoryMap

variable {m : MemoryMap}

theorem layout (m : MemoryMap) : Layout m.blocks m.fileSize := checkLayout_iff_layout.1 m.checked

/-- Every map has a span. -/
theorem span_eq_some (m : MemoryMap) : ∃ r, m.span = some r := by
  obtain ⟨first, rest, hblocks⟩ := List.exists_cons_of_ne_nil m.layout.blocks_ne_nil
  have hne : first :: rest ≠ [] := by simp
  have hlast : first.range.start.value < ((first :: rest).getLast hne).range.stop.value := by
    have hfirst := first.range.start_lt_stop
    obtain heq | hmem := List.mem_cons.1 (List.getLast_mem hne)
    · rw [heq]
      exact hfirst
    · have hordered := m.layout.ordered
      rw [hblocks] at hordered
      have hle := List.rel_of_pairwise_cons hordered hmem
      have := ((first :: rest).getLast hne).range.start_lt_stop
      omega
  obtain ⟨d, hd⟩ : ∃ d, ((first :: rest).getLast hne).range.stop.distanceFrom
      first.range.start = some d := by
    unfold TaggedPosition.distanceFrom
    rw [if_neg (by omega)]
    exact ⟨_, rfl⟩
  have hsum := TaggedPosition.distanceFrom_eq_some_iff.1 hd
  have hlt := ((first :: rest).getLast hne).range.stop.lt
  refine ⟨⟨first.range.start, d, by omega, by omega⟩, ?_⟩
  unfold span
  rw [hblocks, List.head?_cons, List.getLast?_eq_some_getLast hne, Option.bind_some,
    Option.bind_some, hd, Option.bind_some]
  exact AddressRange.make_eq_some_iff.2 ⟨rfl, rfl⟩

theorem create_eq_ok_iff {blocks : List MemoryBlock} {fileSize : ByteCount} {base : FlashAddress} :
    create blocks fileSize base = .ok m ↔
      m.blocks = blocks ∧ m.fileSize = fileSize ∧ m.definitionBase = base := by
  unfold create
  constructor
  · intro h
    split at h
    · cases h
    · cases h; exact ⟨rfl, rfl, rfl⟩
  · rintro ⟨rfl, rfl, rfl⟩
    split
    · rename_i h
      rw [m.checked] at h
      cases h
    · rfl

/-! ### The queries, by addresses -/

/-- `blockAt` finds the block that holds the address. -/
theorem blockAt_eq_some_iff {a : FlashAddress} {b : MemoryBlock} :
    m.blockAt a = some b ↔ b ∈ m.blocks ∧ b.range.contains a = true := by
  constructor
  · intro h
    unfold blockAt at h
    split at h
    · cases h
    · rename_i c hc
      split_ifs at h with hca
      cases h
      exact ⟨List.takeWhile_subset _ (List.mem_of_getLast? hc), hca⟩
  · rintro ⟨hb, hba⟩
    obtain ⟨before, after, hblocks⟩ := List.append_of_mem hb
    have hord := m.layout.ordered
    rw [hblocks, List.pairwise_append, List.pairwise_cons] at hord
    obtain ⟨-, ⟨hafter, -⟩, hbefore⟩ := hord
    obtain ⟨h1, h2⟩ := AddressRange.contains_iff.1 hba
    -- the blocks before `b` start before it, the blocks after it start after the address
    have hpre : ∀ c ∈ before, decide (c.range.start ≤ a) = true := by
      intro c hc
      have hcb := hbefore c hc b List.mem_cons_self
      have hcs := c.range.start_lt_stop
      exact decide_eq_true (TaggedPosition.le_iff.2 (by omega))
    have hpost : after.takeWhile (fun c => decide (c.range.start ≤ a)) = [] := by
      cases after with
      | nil => rfl
      | cons c rest =>
        have hc := hafter c List.mem_cons_self
        simp only [AddressRange.stop_value] at hc
        refine List.takeWhile_cons_of_neg ?_
        simp only [decide_eq_true_eq, TaggedPosition.le_iff]
        omega
    have hlast : m.blocks.takeWhile (fun c => decide (c.range.start ≤ a)) = before ++ [b] := by
      have hb' : decide (b.range.start ≤ a) = true := decide_eq_true (TaggedPosition.le_iff.2 h1)
      rw [hblocks, List.takeWhile_append_of_pos hpre, List.takeWhile_cons, if_pos hb', hpost]
    unfold blockAt
    rw [hlast, List.getLast?_concat]
    simp only [hba, ↓reduceIte]

theorem blockAt_eq_none_iff {a : FlashAddress} :
    m.blockAt a = none ↔ ∀ b ∈ m.blocks, b.range.contains a = false := by
  constructor
  · intro h b hb
    by_contra hc
    rw [blockAt_eq_some_iff.2 ⟨hb, by simpa using hc⟩] at h
    cases h
  · intro h
    cases ha : m.blockAt a with
    | none => rfl
    | some b =>
      obtain ⟨hb, hba⟩ := blockAt_eq_some_iff.1 ha
      rw [h b hb] at hba
      cases hba

end MemoryMap

theorem gapSlice_segments (cursor stop : FlashAddress) {b : ℕ} {rest : List BlockSlice}
    (h : Contiguous (max cursor.value stop.value) (rest.map fun s => s.range.segment) b) :
    Contiguous cursor.value ((gapSlice cursor stop ++ rest).map fun s => s.range.segment) b := by
  unfold gapSlice
  split_ifs with hlt
  · have hlt' : cursor.value < stop.value := hlt
    rw [Nat.max_eq_right hlt'.le] at h
    refine ⟨rfl, ?_⟩
    simpa [AddressRange.segment, Nat.add_sub_cancel' hlt'.le] using h
  · have hle : stop.value ≤ cursor.value := not_lt.1 hlt
    rw [Nat.max_eq_left hle] at h
    simpa using h

theorem lt_stop_of_ordered {stop : FlashAddress} {b : MemoryBlock} {rest : List MemoryBlock}
    (hord : (b :: rest).Pairwise fun b c => b.range.stop.value ≤ c.range.start.value) :
    ∀ c ∈ rest, (min b.range.stop stop).value < c.range.stop.value := by
  intro c hc
  have := (List.pairwise_cons.1 hord).1 c hc
  have := c.range.start_lt_stop
  simp only [TaggedPosition.min_value]
  omega

/-- The slices follow each other from `cursor` to `stop`. -/
theorem contiguous_slicesFrom {stop cursor : FlashAddress} {blocks : List MemoryBlock}
    (hcs : cursor.value ≤ stop.value)
    (hord : blocks.Pairwise fun b c => b.range.stop.value ≤ c.range.start.value)
    (hafter : ∀ b ∈ blocks, cursor.value < b.range.stop.value) :
    Contiguous cursor.value ((slicesFrom stop cursor blocks).map fun s => s.range.segment)
      stop.value := by
  induction blocks generalizing cursor with
  | nil =>
    rw [slicesFrom, ← List.append_nil (gapSlice cursor stop)]
    exact gapSlice_segments cursor stop (Nat.max_eq_right hcs)
  | cons b rest ih =>
    obtain ⟨hb, hrest⟩ := List.pairwise_cons.1 hord
    have hbs := hafter b List.mem_cons_self
    have hlen := b.range.start_lt_stop
    rw [slicesFrom]
    refine gapSlice_segments cursor _ ?_
    rw [← TaggedPosition.max_value]
    split_ifs with h
    · have hnext := @ih (min b.range.stop stop) (by simp) hrest (lt_stop_of_ordered hord)
      have hle : (max cursor (min b.range.start stop)).value ≤ (min b.range.stop stop).value :=
        le_of_lt h
      refine ⟨rfl, ?_⟩
      change Contiguous (_ + ((min b.range.stop stop).value - _)) _ _
      rwa [Nat.add_sub_cancel' hle]
    · simp only [TaggedPosition.lt_iff, TaggedPosition.max_value, TaggedPosition.min_value] at h
      simp only [List.map_nil, Contiguous, TaggedPosition.max_value, TaggedPosition.min_value]
      omega

/-- What one slice of the walk says: a block slice lies in a block of the list, a gap meets none
of them. -/
theorem slicesFrom_block {stop cursor : FlashAddress} {blocks : List MemoryBlock}
    (hcs : cursor.value ≤ stop.value)
    (hord : blocks.Pairwise fun b c => b.range.stop.value ≤ c.range.start.value)
    (hafter : ∀ b ∈ blocks, cursor.value < b.range.stop.value) :
    ∀ s ∈ slicesFrom stop cursor blocks,
      (∀ b, s.block = some b → b ∈ blocks ∧ b.range.start.value ≤ s.range.start.value ∧
        s.range.stop.value ≤ b.range.stop.value) ∧
      (s.block = none → ∀ b ∈ blocks, b.range.segment.Apart s.range.segment) := by
  induction blocks generalizing cursor with
  | nil =>
    intro s hs
    simp only [slicesFrom, gapSlice] at hs
    split_ifs at hs
    · cases List.mem_singleton.1 hs
      exact ⟨nofun, nofun⟩
    · cases hs
  | cons b rest ih =>
    intro s hs
    obtain ⟨hb, hrest⟩ := List.pairwise_cons.1 hord
    have hbs := hafter b List.mem_cons_self
    have hlen := b.range.start_lt_stop
    rw [slicesFrom, List.mem_append] at hs
    rcases hs with hs | hs
    · -- the gap ends where `b` starts, and the other blocks start later
      unfold gapSlice at hs
      split_ifs at hs with hlt
      · cases List.mem_singleton.1 hs
        refine ⟨nofun, fun _ c hc => Or.inr ?_⟩
        have hbc : b.range.start.value ≤ c.range.start.value := by
          rcases List.mem_cons.1 hc with rfl | hc
          · exact le_rfl
          · exact hlen.le.trans (hb c hc)
        have hstop := AddressRange.between_stop_value hlt
        simp only [AddressRange.stop_value, TaggedPosition.min_value] at hstop
        simp only [AddressRange.segment]
        omega
      · cases hs
    · split_ifs at hs with hlt
      · rcases List.mem_cons.1 hs with rfl | hs
        · refine ⟨fun c hc => ?_, nofun⟩
          cases hc
          refine ⟨List.mem_cons_self, ?_, ?_⟩
          · simp only [TaggedPosition.lt_iff, TaggedPosition.max_value,
              TaggedPosition.min_value] at hlt
            simp only [AddressRange.between_start, TaggedPosition.max_value,
              TaggedPosition.min_value]
            omega
          · rw [AddressRange.between_stop_value, TaggedPosition.min_value]
            exact min_le_left _ _
        · -- a later slice starts after `b` ends
          have hlater : ∀ c ∈ rest, (min b.range.stop stop).value < c.range.stop.value :=
            lt_stop_of_ordered hord
          have hle : (min b.range.stop stop).value ≤ stop.value := by simp
          have hnext := ih hle hrest hlater s hs
          have hwithin := (contiguous_slicesFrom hle hrest hlater).within _
            (List.mem_map_of_mem hs)
          have hpos := s.range.size_pos
          refine ⟨fun c hc => ?_, fun hnone c hc => ?_⟩
          · obtain ⟨h1, h2⟩ := hnext.1 c hc
            exact ⟨List.mem_cons_of_mem _ h1, h2⟩
          · rcases List.mem_cons.1 hc with rfl | hc
            · simp only [AddressRange.segment, TaggedPosition.min_value,
                AddressRange.stop_value] at hwithin
              refine Or.inl ?_
              simp only [AddressRange.segment]
              omega
            · exact hnext.2 hnone c hc
      · cases hs

namespace MemoryMap

variable {m : MemoryMap}

theorem lt_stop_of_mem_dropWhile {blocks : List MemoryBlock} {a : FlashAddress}
    (hord : blocks.Pairwise fun b c => b.range.stop.value ≤ c.range.start.value) :
    ∀ b ∈ blocks.dropWhile (fun b => decide (b.range.stop ≤ a)),
      a.value < b.range.stop.value := by
  induction blocks with
  | nil => simp
  | cons c rest ih =>
    obtain ⟨hc, hrest⟩ := List.pairwise_cons.1 hord
    rw [List.dropWhile_cons]
    split_ifs with h
    · exact ih hrest
    · have hca : a.value < c.range.stop.value := by
        simpa [TaggedPosition.le_iff] using h
      intro b hb
      rcases List.mem_cons.1 hb with rfl | hb
      · exact hca
      · have := hc b hb
        have := b.range.start_lt_stop
        omega

theorem ordered_dropWhile (p : MemoryBlock → Bool) :
    (m.blocks.dropWhile p).Pairwise fun b c => b.range.stop.value ≤ c.range.start.value :=
  m.layout.ordered.sublist (List.dropWhile_sublist p)

/-- The slices of a range follow each other over exactly that range. -/
theorem contiguous_slices (m : MemoryMap) (r : AddressRange FlashSpace) :
    Contiguous r.start.value ((m.slices r).map fun s => s.range.segment) r.stop.value :=
  contiguous_slicesFrom r.start_lt_stop.le (ordered_dropWhile _)
    (lt_stop_of_mem_dropWhile m.layout.ordered)

/-- All of a slice is held by the slice's block, or by no block if it is a gap. -/
theorem blockAt_of_mem_slices {r : AddressRange FlashSpace} {s : BlockSlice}
    (hs : s ∈ m.slices r) {a : FlashAddress} (ha : s.range.contains a = true) :
    m.blockAt a = s.block := by
  obtain ⟨hsome, hnone⟩ := slicesFrom_block r.start_lt_stop.le (ordered_dropWhile _)
    (lt_stop_of_mem_dropWhile m.layout.ordered) s hs
  have hwithin := (m.contiguous_slices r).within _ (List.mem_map_of_mem hs)
  obtain ⟨ha1, ha2⟩ := AddressRange.contains_iff.1 ha
  cases hblock : s.block with
  | some b =>
    obtain ⟨hb, h1, h2⟩ := hsome b hblock
    simp only [AddressRange.stop_value] at h2
    exact blockAt_eq_some_iff.2 ⟨(List.dropWhile_sublist _).subset hb,
      AddressRange.contains_iff.2 ⟨by omega, by omega⟩⟩
  | none =>
    rw [blockAt_eq_none_iff]
    intro b hb
    rw [Bool.eq_false_iff, ne_eq, AddressRange.contains_iff]
    rw [← List.takeWhile_append_dropWhile (p := fun b => decide (b.range.stop ≤ r.start))
      (l := m.blocks), List.mem_append] at hb
    rcases hb with hb | hb
    · -- the blocks before the walk end before the range
      have hle := List.mem_takeWhile_imp hb
      simp only [decide_eq_true_eq, TaggedPosition.le_iff, AddressRange.stop_value] at hle
      simp only [AddressRange.segment] at hwithin
      omega
    · have := hnone hblock b hb
      simp only [Segment.Apart, AddressRange.segment] at this
      omega

/-! ### The placement of addresses in the file -/

theorem mem_fileSegments {blocks : List MemoryBlock} {b : MemoryBlock} {offset : FileOffset}
    (hb : b ∈ blocks) (hfile : b.backing = .file offset) :
    ((offset.value, b.range.size.value) : Segment) ∈ fileSegments blocks :=
  List.mem_map.2 ⟨(offset, b.range.size),
    List.mem_filterMap.2 ⟨b, hb, fileRange_eq_some_iff.2 ⟨hfile, rfl⟩⟩, rfl⟩

theorem fileOffsetAt_eq_some_iff {b : MemoryBlock} {a o : ℕ} :
    b.fileOffsetAt a = some o ↔
      ∃ offset, b.backing = .file offset ∧ offset.value + (a - b.range.start.value) = o := by
  unfold MemoryBlock.fileOffsetAt
  cases b.backing with
  | file offset => simp
  | fill value => simp

theorem place_eq_some_iff {a : FlashAddress} {o : ℕ} :
    m.place a = some o ↔
      ∃ b ∈ m.blocks, b.range.contains a = true ∧ b.fileOffsetAt a.value = some o := by
  simp only [place, Option.bind_eq_some_iff, blockAt_eq_some_iff, and_assoc]

/-- A placed address is in a block, and its offset in that block's file range. -/
theorem exists_of_place {a : FlashAddress} {o : ℕ} (h : m.place a = some o) :
    ∃ b ∈ m.blocks, ∃ offset, b.backing = .file offset ∧
      b.range.start.value ≤ a.value ∧ a.value < b.range.start.value + b.range.size.value ∧
      o = offset.value + (a.value - b.range.start.value) := by
  obtain ⟨b, hb, hba, hbo⟩ := place_eq_some_iff.1 h
  obtain ⟨offset, hfile, rfl⟩ := fileOffsetAt_eq_some_iff.1 hbo
  obtain ⟨h1, h2⟩ := AddressRange.contains_iff.1 hba
  exact ⟨b, hb, offset, hfile, h1, h2, rfl⟩

theorem place_lt {a : FlashAddress} {o : ℕ} (h : m.place a = some o) : o < m.fileSize.value := by
  obtain ⟨b, hb, offset, hfile, h1, h2, rfl⟩ := exists_of_place h
  have := (m.layout.tiles.within _ (mem_fileSegments hb hfile)).2
  simp only at this
  omega

/-- If both blocks are file-backed, their file ranges are disjoint. -/
def FilesApart (b c : MemoryBlock) : Prop :=
  ∀ o o', b.backing = .file o → c.backing = .file o' →
    Segment.Apart (o.value, b.range.size.value) (o'.value, c.range.size.value)

instance : Std.Symm FilesApart := ⟨fun _ _ h o o' ho ho' => (h o' o ho' ho).symm⟩

theorem pairwise_filesApart (m : MemoryMap) : m.blocks.Pairwise FilesApart := by
  have h := m.layout.tiles.apart
  rw [fileSegments, List.pairwise_map, fileRanges, List.pairwise_filterMap] at h
  refine h.imp fun {b c} hbc o o' hb hc => ?_
  exact hbc (o, b.range.size) (fileRange_eq_some_iff.2 ⟨hb, rfl⟩) (o', c.range.size)
    (fileRange_eq_some_iff.2 ⟨hc, rfl⟩)

/-- **No file byte backs two addresses.** -/
theorem place_inj {a a' : FlashAddress} {o : ℕ} (h : m.place a = some o)
    (h' : m.place a' = some o) : a = a' := by
  obtain ⟨b, hb, offset, hfile, h1, h2, rfl⟩ := exists_of_place h
  obtain ⟨c, hc, offset', hfile', h1', h2', he⟩ := exists_of_place h'
  have hbc : b = c := by
    by_contra hne
    have := m.pairwise_filesApart.forall hb hc hne offset offset' hfile hfile'
    simp only [Segment.Apart] at this
    omega
  subst hbc
  rw [hfile] at hfile'
  cases hfile'
  exact TaggedPosition.ext (by omega)

/-- **Every file byte backs an address.** -/
theorem exists_place_eq {o : ℕ} (h : o < m.fileSize.value) : ∃ a, m.place a = some o := by
  obtain ⟨s, hs, hso⟩ := m.layout.tiles.cover o (Nat.zero_le _) h
  obtain ⟨r, hr, rfl⟩ := List.mem_map.1 hs
  obtain ⟨b, hb, hbr⟩ := List.mem_filterMap.1 hr
  obtain ⟨hfile, hsize⟩ := fileRange_eq_some_iff.1 hbr
  obtain ⟨h1, h2⟩ := hso
  have hfits := b.range.fits
  rw [← hsize] at h2
  simp only at h1 h2
  refine ⟨⟨b.range.start.value + (o - r.1.value), by omega⟩, place_eq_some_iff.2
    ⟨b, hb, AddressRange.contains_iff.2 ⟨by simp only; omega, by simp only; omega⟩,
      fileOffsetAt_eq_some_iff.2 ⟨r.1, hfile, by simp only; omega⟩⟩⟩

/-- The file start of a slice is the placement of its first address. -/
theorem fileStart_of_mem_slices {r : AddressRange FlashSpace} {s : BlockSlice}
    (hs : s ∈ m.slices r) : s.fileStart.map (·.value) = m.place s.range.start := by
  have hpos := s.range.size_pos
  have hself : s.range.contains s.range.start = true :=
    AddressRange.contains_iff.2 ⟨le_rfl, by omega⟩
  have hblock := blockAt_of_mem_slices hs hself
  unfold BlockSlice.fileStart place
  rw [hblock]
  cases hb : s.block with
  | none => rfl
  | some b =>
    obtain ⟨hmem, hcont⟩ := blockAt_eq_some_iff.1 (hblock.trans hb)
    obtain ⟨h1, h2⟩ := AddressRange.contains_iff.1 hcont
    cases hfile : b.backing with
    | fill value => simp [MemoryBlock.fileOffsetAt, hfile]
    | file offset =>
      -- the slice lies inside its block, so the distance exists and the offset fits
      have hdist : s.range.start.distanceFrom b.range.start =
          some ⟨s.range.start.value - b.range.start.value,
            lt_of_le_of_lt (Nat.sub_le _ _) s.range.start.lt⟩ :=
        TaggedPosition.distanceFrom_eq_some_iff.2 (Nat.add_sub_cancel' h1)
      have hin := (m.layout.tiles.within _ (mem_fileSegments hmem hfile)).2
      have hsz := m.fileSize.lt
      simp only at hin
      have hadv : offset.advance ⟨s.range.start.value - b.range.start.value,
          lt_of_le_of_lt (Nat.sub_le _ _) s.range.start.lt⟩ =
          some ⟨offset.value + (s.range.start.value - b.range.start.value), by omega⟩ :=
        TaggedPosition.advance_eq_some_iff.2 rfl
      simp [hdist, hadv, MemoryBlock.fileOffsetAt, hfile]

/-- Within a slice, addresses and file offsets advance together. -/
theorem place_of_mem_slices {r : AddressRange FlashSpace} {s : BlockSlice}
    (hs : s ∈ m.slices r) {a : FlashAddress} (ha : s.range.contains a = true) :
    m.place a = s.fileStart.map fun o => o.value + (a.value - s.range.start.value) := by
  have hpos := s.range.size_pos
  have hself : s.range.contains s.range.start = true :=
    AddressRange.contains_iff.2 ⟨le_rfl, by omega⟩
  have h0 := fileStart_of_mem_slices hs
  have hmap : (s.fileStart.map fun o => o.value + (a.value - s.range.start.value)) =
      (s.fileStart.map (·.value)).map (· + (a.value - s.range.start.value)) := by
    simp [Option.map_map, Function.comp_def]
  rw [hmap, h0]
  unfold place
  rw [blockAt_of_mem_slices hs ha, blockAt_of_mem_slices hs hself]
  cases hb : s.block with
  | none => rfl
  | some b =>
    have hcont := (blockAt_eq_some_iff.1 ((blockAt_of_mem_slices hs hself).trans hb)).2
    obtain ⟨h1, -⟩ := AddressRange.contains_iff.1 hcont
    obtain ⟨h2, -⟩ := AddressRange.contains_iff.1 ha
    cases hfile : b.backing with
    | fill value => simp [MemoryBlock.fileOffsetAt, hfile]
    | file offset =>
      simp only [Option.bind_some, MemoryBlock.fileOffsetAt, hfile, Option.map_some,
        Option.some.injEq]
      omega

/-- A range of one address has one slice. -/
theorem slices_single (m : MemoryMap) (a : FlashAddress) (h : a.value + 1 < u32Size) :
    ∃ s, m.slices (.single a h) = [s] ∧ s.range.start = a := by
  have hc := m.contiguous_slices (.single a h)
  cases hs : m.slices (.single a h) with
  | nil =>
    rw [hs] at hc
    exact absurd hc (by simp [Contiguous, AddressRange.single])
  | cons s rest =>
    rw [hs] at hc
    obtain ⟨h1, h2⟩ := hc
    have hpos := s.range.size_pos
    have hrest : rest = [] := by
      -- a second slice would start past the end of the range
      cases rest with
      | nil => rfl
      | cons t rest =>
        have hle := h2.2.le
        have ht := t.range.size_pos
        simp only [AddressRange.segment, AddressRange.single, AddressRange.stop_value] at hle h1
        omega
    exact ⟨s, by rw [hrest], TaggedPosition.ext h1⟩

theorem fileOffsetOf_single (m : MemoryMap) (a : FlashAddress) (h : a.value + 1 < u32Size) :
    (m.fileOffsetOf (.single a h)).map (·.value) = m.place a := by
  obtain ⟨s, hs, ha⟩ := m.slices_single a h
  rw [fileOffsetOf, hs]
  simp only
  rw [fileStart_of_mem_slices (m := m) (r := .single a h) (by rw [hs]; exact List.mem_cons_self),
    ha]

/-- `blockAt` finds a file-backed block for the address. -/
def FileBacked (m : MemoryMap) (a : FlashAddress) : Prop :=
  ∃ b, m.blockAt a = some b ∧ b.isFill = false

/-- The file offset of one address, as `fileOffsetOf` gives it. -/
def byteOffset (m : MemoryMap) (a : FlashAddress) : Option FileOffset :=
  (AddressRange.make a ⟨1, one_lt_u32Size⟩).bind m.fileOffsetOf

theorem fileBacked_iff {a : FlashAddress} : m.FileBacked a ↔ ∃ o, m.place a = some o := by
  have key : ∀ b : MemoryBlock, b.isFill = false ↔ ∃ o, b.fileOffsetAt a.value = some o := by
    intro b
    unfold MemoryBlock.isFill MemoryBlock.fileOffsetAt
    cases b.backing <;> simp
  unfold FileBacked place
  constructor
  · rintro ⟨b, hb, hf⟩
    rw [hb]
    exact (key b).1 hf
  · rintro ⟨o, ho⟩
    obtain ⟨b, hb, hbo⟩ := Option.bind_eq_some_iff.1 ho
    exact ⟨b, hb, (key b).2 ⟨o, hbo⟩⟩

theorem byteOffset_eq_some_iff {a : FlashAddress} {o : FileOffset} :
    m.byteOffset a = some o ↔ m.place a = some o.value := by
  by_cases h : a.value + 1 < u32Size
  · have hmake : AddressRange.make a ⟨1, one_lt_u32Size⟩ = some (.single a h) :=
      AddressRange.make_eq_some_iff.2 ⟨rfl, rfl⟩
    rw [byteOffset, hmake, Option.bind_some, ← m.fileOffsetOf_single a h, Option.map_eq_some_iff]
    constructor
    · exact fun ho => ⟨o, ho, rfl⟩
    · rintro ⟨o', ho', he⟩
      rw [ho', TaggedPosition.ext he]
  · -- the last address of the space is in no range, so in no block
    have hmake : AddressRange.make a ⟨1, one_lt_u32Size⟩ = none :=
      AddressRange.make_eq_none_iff.2 (Or.inr (by simp only; omega))
    rw [byteOffset, hmake]
    simp only [Option.bind_none, reduceCtorEq, false_iff]
    intro ho
    obtain ⟨b, -, -, -, -, h2, -⟩ := exists_of_place ho
    have := b.range.fits
    omega

/-- **The file-backed addresses and the file bytes correspond one to one.** -/
theorem bijOn_byteOffset (m : MemoryMap) :
    Set.BijOn m.byteOffset {a | m.FileBacked a}
      {o | ∃ k : FileOffset, o = some k ∧ k.value < m.fileSize.value} := by
  have hsz := m.fileSize.lt
  have hdef : ∀ a, m.FileBacked a → ∃ k : FileOffset, m.byteOffset a = some k := by
    intro a ha
    obtain ⟨o, ho⟩ := fileBacked_iff.1 ha
    exact ⟨⟨o, (place_lt ho).trans hsz⟩, byteOffset_eq_some_iff.2 ho⟩
  refine ⟨fun a ha => ?_, fun a ha a' ha' h => ?_, fun o ho => ?_⟩
  · obtain ⟨k, hk⟩ := hdef a ha
    exact ⟨k, hk, place_lt (byteOffset_eq_some_iff.1 hk)⟩
  · obtain ⟨k, hk⟩ := hdef a ha
    exact place_inj (byteOffset_eq_some_iff.1 hk) (byteOffset_eq_some_iff.1 (h ▸ hk))
  · obtain ⟨k, rfl, hk⟩ := ho
    obtain ⟨a, ha⟩ := exists_place_eq hk
    exact ⟨a, fileBacked_iff.2 ⟨_, ha⟩, byteOffset_eq_some_iff.2 ha⟩

theorem exists_create_eq_ok_iff {blocks : List MemoryBlock} {fileSize : ByteCount}
    {base : FlashAddress} :
    (∃ m, create blocks fileSize base = .ok m) ↔ Layout blocks fileSize := by
  constructor
  · rintro ⟨m, hm⟩
    obtain ⟨rfl, rfl, rfl⟩ := create_eq_ok_iff.1 hm
    exact m.layout
  · intro h
    exact ⟨⟨blocks, fileSize, base, checkLayout_iff_layout.2 h⟩,
      create_eq_ok_iff.2 ⟨rfl, rfl, rfl⟩⟩

/-- One file-backed block that holds the whole file is a layout. -/
theorem layout_whole (r : AddressRange FlashSpace) (w : Writability) :
    Layout [⟨r, .file ⟨0, u32Size_pos⟩, w⟩] r.size where
  blocks_ne_nil := by simp
  file_pos := r.size_pos
  fill_readOnly := by simp [MemoryBlock.isFill]
  ordered := by simp
  tiles := Contiguous.tiles (by
    simp [fileSegments, fileRanges, MemoryBlock.fileRange, Contiguous])

/-- The map of one file-backed block. -/
def whole (r : AddressRange FlashSpace) (w : Writability)
    (base : FlashAddress := ⟨0, u32Size_pos⟩) : MemoryMap :=
  ⟨_, r.size, base, checkLayout_iff_layout.2 (layout_whole r w)⟩

/-- **`Create` accepts exactly the layouts that place every file byte once**, and the map it
returns relates file-backed addresses and file bytes one to one. -/
theorem create_accepts_exactly_layouts (blocks : List MemoryBlock) (fileSize : ByteCount)
    (base : FlashAddress) :
    ((∃ m, create blocks fileSize base = .ok m) ↔ Layout blocks fileSize) ∧
      ∀ m, create blocks fileSize base = .ok m →
        m.blocks = blocks ∧ m.fileSize = fileSize ∧
        Set.BijOn m.byteOffset {a | m.FileBacked a}
          {o | ∃ k : FileOffset, o = some k ∧ k.value < fileSize.value} := by
  refine ⟨exists_create_eq_ok_iff, fun m hm => ?_⟩
  obtain ⟨rfl, rfl, rfl⟩ := create_eq_ok_iff.1 hm
  exact ⟨rfl, rfl, m.bijOn_byteOffset⟩

end MemoryMap

end FastEcu.Memory
