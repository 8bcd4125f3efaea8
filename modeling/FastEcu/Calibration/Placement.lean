import FastEcu.Calibration.Definition
import FastEcu.Memory.Image

/-!
# Placing a map in memory

`CheckMapPlacement` (`src/backend/calibration/map_placement.cpp`) checks that the body and the axes
of a map lie in ROM file bytes, and gives the extent of definition addresses that they cover.

* `Placed` : every address of a span of definition addresses has a file byte.
* `problemWith_eq_none` : what is accepted is placed.
* `checkMapPlacement_covers` : each checked run lies in the extent.
* `checkMapPlacement_le` : and the extent ends inside the memory that the blocks hold.
-/

namespace FastEcu.Calibration

open Memory Expression

/-- `MapExtent`: the definition addresses from `start` up to `stop`. -/
structure MapExtent where
  start : ℕ
  stop : ℕ
deriving DecidableEq, Repr

/-- The addresses are outside of every block. -/
def kOutside : String := "outside the ROM's memory map"

/-- The loop of `ProblemWith` over the slices, with the writability of the ones before. -/
def sliceProblem : Option Writability → List BlockSlice → Option String
  | _, [] => none
  | writability, slice :: rest =>
    match slice.block with
    | none => some kOutside
    | some block =>
      if block.isFill then some "in a fill block, which holds no ROM file bytes"
      else if writability.any (· ≠ block.writability) then
        some "across writable and read-only memory"
      else sliceProblem (some block.writability) rest

/-- `ProblemWith`. -/
def problemWith (start : DefinitionAddress) (stop : ℕ) (memoryMap : MemoryMap) : Option String :=
  match memoryMap.toFlashAddress start with
  | none => some kOutside
  | some first =>
    if stop ≤ start.value then none
    else
      -- a size of more than 32 bits is outside, as is a range past the address space
      match (ByteCount.fromSize (stop - start.value)).bind (AddressRange.make first) with
      | none => some kOutside
      | some range => sliceProblem none (memoryMap.slices range)

/-- `CheckRun`. -/
def checkRun (mapName subject : String) (address : Option DefinitionAddress) (count : ℕ)
    (startPosition interval : UInt32) (width : ℕ) (memoryMap : MemoryMap) :
    Except Error (Option MapExtent) :=
  match address with
  | none => .ok none
  | some address =>
    if count = 0 ∨ u32Max < count then .ok none
    else
      let stop := elementRunEnd address.value startPosition interval width (u32 count)
      match problemWith address stop memoryMap with
      | some problem => invalidConfig s!"map '{mapName}' {subject} {problem}"
      | none => .ok (some ⟨address.value, stop⟩)

/-- `Cover`. -/
def cover : Option MapExtent → Option MapExtent → Option MapExtent
  | extent, none => extent
  | none, some run => some run
  | some extent, some run => some ⟨min extent.start run.start, max extent.stop run.stop⟩

variable {α : Type}

/-- The check of the cells: a blob is read whole at its address. -/
def checkBody (mapName : String) (body : MapElement α) (memoryMap : MemoryMap) :
    Except Error (Option MapExtent) :=
  if body.storageType = some .bloblist then
    checkRun mapName "cells lie" body.address 1 1 1 body.byteWidth memoryMap
  else
    checkRun mapName "cells lie" body.address body.count body.startPosition body.interval
      body.byteWidth memoryMap

/-- The check of one axis. -/
def checkAxis (mapName subject : String) (axis : MapElement α) (memoryMap : MemoryMap) :
    Except Error (Option MapExtent) :=
  checkRun mapName subject axis.address axis.count axis.startPosition axis.interval axis.byteWidth
    memoryMap

/-- The check of the run that a target names. -/
def checkTarget (N : Numbers α) (definition : RomDefinition) (map : CalibrationMap)
    (memoryMap : MemoryMap) (target : NumericTarget) : Except Error (Option MapExtent) :=
  let element := resolveMapElement N definition map target
  match target with
  | .mapBody => checkBody map.name element memoryMap
  | .xAxis => checkAxis map.name "X axis lies" element memoryMap
  | .yAxis => checkAxis map.name "Y axis lies" element memoryMap

/-- `CheckMapPlacement`. -/
def checkMapPlacement (N : Numbers α) (definition : RomDefinition) (map : CalibrationMap)
    (memoryMap : MemoryMap) : Except Error MapExtent :=
  match checkTarget N definition map memoryMap .mapBody with
  | .error e => .error e
  | .ok cells =>
    match checkTarget N definition map memoryMap .xAxis with
    | .error e => .error e
    | .ok xAxis =>
      match checkTarget N definition map memoryMap .yAxis with
      | .error e => .error e
      | .ok yAxis => .ok ((cover (cover cells xAxis) yAxis).getD ⟨0, 0⟩)

/-- `DefinitionSize` of the session: one past the highest definition address that a block holds. -/
def definitionSize (memoryMap : MemoryMap) : ℕ :=
  let base := memoryMap.definitionBase.value
  (memoryMap.blocks.foldl (fun stop block => max stop block.range.stop.value) base) - base

/-! ### What is accepted is placed -/

/-- Every definition address from `start` up to `stop` has a file byte, and none of them is past
the address space. -/
structure Placed (memoryMap : MemoryMap) (start stop : ℕ) : Prop where
  /-- The last address exists. -/
  fits : memoryMap.definitionBase.value + stop < u32Size
  /-- Each address has a file byte. -/
  place : ∀ a : FlashAddress, memoryMap.definitionBase.value + start ≤ a.value →
    a.value < memoryMap.definitionBase.value + stop → ∃ o, memoryMap.place a = some o

variable {memoryMap : MemoryMap}

theorem sliceProblem_eq_none {writability : Option Writability} {slices : List BlockSlice}
    (h : sliceProblem writability slices = none) :
    ∀ slice ∈ slices, ∃ block, slice.block = some block ∧ block.isFill = false := by
  induction slices generalizing writability with
  | nil => exact fun _ hs => nomatch hs
  | cons slice rest ih =>
    simp only [sliceProblem] at h
    split at h
    · cases h
    · rename_i block hblock
      split at h
      · cases h
      · rename_i hfill
        split at h
        · cases h
        · intro s hs
          obtain rfl | hs := List.mem_cons.1 hs
          · exact ⟨block, hblock, by simpa using hfill⟩
          · exact ih h s hs

/-- **A run without a problem has a file byte at every address.** -/
theorem problemWith_eq_none {start : DefinitionAddress} {stop : ℕ} (hlt : start.value < stop)
    (h : problemWith start stop memoryMap = none) : Placed memoryMap start.value stop := by
  simp only [problemWith] at h
  split at h
  · cases h
  · rename_i first hfirst
    rw [if_neg (by omega)] at h
    split at h
    · cases h
    · rename_i range hrange
      obtain ⟨size, hsize, hmake⟩ := Option.bind_eq_some_iff.1 hrange
      obtain ⟨hstart, hcount⟩ := AddressRange.make_eq_some_iff.1 hmake
      have hfirst' : first.value = memoryMap.definitionBase.value + start.value :=
        (TaggedPosition.advance_eq_some_iff.1 hfirst)
      have hsize' : size.value = stop - start.value := by
        simp only [ByteCount.fromSize] at hsize
        split at hsize
        · exact congrArg ByteCount.value (Option.some.inj hsize).symm
        · cases hsize
      have hfits := range.fits
      rw [hstart, hcount, hfirst', hsize'] at hfits
      refine ⟨by omega, fun a h₁ h₂ => ?_⟩
      have ha : range.contains a = true := by
        rw [AddressRange.contains_iff, hstart, hcount, hfirst', hsize']
        omega
      obtain ⟨slice, hs, hsa⟩ := MemoryMap.exists_slice_of_mem_range ha
      obtain ⟨block, hblock, hfill⟩ := sliceProblem_eq_none h slice hs
      refine MemoryMap.fileBacked_iff.1 ⟨block, ?_, hfill⟩
      rw [MemoryMap.blockAt_of_mem_slices hs hsa, hblock]

/-! ### The memory that a definition can address -/

theorem le_foldl_max (blocks : List MemoryBlock) (n : ℕ) :
    n ≤ blocks.foldl (fun stop block => max stop block.range.stop.value) n := by
  induction blocks generalizing n with
  | nil => exact le_rfl
  | cons b rest ih => exact (le_max_left _ _).trans (ih _)

theorem stop_le_foldl_max {blocks : List MemoryBlock} {b : MemoryBlock} (hb : b ∈ blocks) (n : ℕ) :
    b.range.stop.value ≤ blocks.foldl (fun stop block => max stop block.range.stop.value) n := by
  induction blocks generalizing n with
  | nil => cases hb
  | cons c rest ih =>
    obtain rfl | hb := List.mem_cons.1 hb
    · exact (le_max_right _ _).trans (le_foldl_max rest _)
    · exact ih hb _

theorem foldl_max_lt (blocks : List MemoryBlock) {n : ℕ} (hn : n < u32Size) :
    blocks.foldl (fun stop block => max stop block.range.stop.value) n < u32Size := by
  induction blocks generalizing n with
  | nil => exact hn
  | cons b rest ih => exact ih (max_lt hn b.range.stop.lt)

/-- No definition address of the memory is past the address space. -/
theorem base_add_definitionSize_lt (memoryMap : MemoryMap) :
    memoryMap.definitionBase.value + definitionSize memoryMap < u32Size := by
  have hle := le_foldl_max memoryMap.blocks memoryMap.definitionBase.value
  have hlt := foldl_max_lt memoryMap.blocks memoryMap.definitionBase.lt
  simp only [definitionSize]
  omega

theorem u32_of_le_definitionSize {n : ℕ} (h : n ≤ definitionSize memoryMap) : u32 n = n := by
  have hlt := base_add_definitionSize_lt memoryMap
  exact Nat.mod_eq_of_lt (h.trans_lt ((Nat.le_add_left _ _).trans_lt hlt))

/-- What is placed is inside the memory. -/
theorem Placed.le_definitionSize {start stop : ℕ} (h : Placed memoryMap start stop)
    (hlt : start < stop) : stop ≤ definitionSize memoryMap := by
  have hfits := h.fits
  obtain ⟨o, ho⟩ := h.place ⟨memoryMap.definitionBase.value + (stop - 1), by omega⟩
    (by simp only; omega) (by simp only; omega)
  obtain ⟨b, hb, -⟩ := Option.bind_eq_some_iff.1 ho
  obtain ⟨hmem, hcontains⟩ := MemoryMap.blockAt_eq_some_iff.1 hb
  have hstop : b.range.start.value + b.range.size.value ≤ _ :=
    stop_le_foldl_max hmem memoryMap.definitionBase.value
  have hlast : memoryMap.definitionBase.value + (stop - 1) < _ :=
    (AddressRange.contains_iff.1 hcontains).2
  simp only [definitionSize]
  omega

/-! ### Runs and extents -/

/-- The extent lies in the memory that a definition can address. -/
structure MapExtent.Inside (memoryMap : MemoryMap) (extent : MapExtent) : Prop where
  start_le : extent.start ≤ extent.stop
  stop_le : extent.stop ≤ definitionSize memoryMap

/-- `run` lies in `extent`. -/
structure MapExtent.Covers (extent run : MapExtent) : Prop where
  start_le : extent.start ≤ run.start
  stop_le : run.stop ≤ extent.stop

theorem elementRunEnd_zero {address count : ℕ} {startPosition interval : UInt32}
    (h : address ≤ u64Max) : elementRunEnd address startPosition interval 0 count = address := by
  simp only [elementRunEnd]
  split
  · rfl
  · have hle : ¬ u64Max < address := not_lt.2 h
    simp [checkedMultiply, checkedAdd, hle]

/-- **An accepted run**: it ends where the layout says, and it is placed, unless its elements have no
bytes. -/
theorem checkRun_eq_some {mapName subject : String} {address : Option DefinitionAddress}
    {count width : ℕ} {startPosition interval : UInt32} {run : MapExtent}
    (h : checkRun mapName subject address count startPosition interval width memoryMap =
      .ok (some run)) :
    ∃ a, address = some a ∧ count ≠ 0 ∧ count ≤ u32Max ∧ run.start = a.value ∧
      run.stop = elementRunEnd a.value startPosition interval width (u32 count) ∧
      run.stop = a.value + elementOffset startPosition interval width (count - 1) + width ∧
      (0 < width → Placed memoryMap run.start run.stop) := by
  simp only [checkRun] at h
  split at h
  · cases h
  · rename_i a
    split at h
    · cases h
    · rename_i hcount
      rw [not_or, not_lt] at hcount
      split at h
      · cases h
      · rename_i hproblem
        cases h
        rw [u32_of_le hcount.2] at hproblem ⊢
        have hone : 1 ≤ count := Nat.pos_of_ne_zero hcount.1
        obtain rfl | hwidth := Nat.eq_zero_or_pos width
        · have hle : a.value ≤ u64Max := a.lt.le.trans (by decide)
          refine ⟨a, rfl, hcount.1, hcount.2, rfl, rfl, ?_, fun h => absurd h (lt_irrefl _)⟩
          simp [elementRunEnd_zero hle, elementOffset]
        · -- past the largest value nothing is placed, so the sums did not overflow
          have hplaced : Placed memoryMap a.value
              (elementRunEnd a.value startPosition interval width count) := by
            refine problemWith_eq_none ?_ hproblem
            by_cases hlt : elementRunEnd a.value startPosition interval width count < u64Max
            · rw [elementRunEnd_of_lt hcount.1 hlt]
              omega
            · exact a.lt.trans_le ((by decide : u32Size ≤ u64Max).trans (not_lt.1 hlt))
          have hlt : elementRunEnd a.value startPosition interval width count < u64Max :=
            (Nat.le_add_left _ _).trans_lt (hplaced.fits.trans (by decide))
          exact ⟨a, rfl, hcount.1, hcount.2, rfl, rfl, elementRunEnd_of_lt hcount.1 hlt,
            fun _ => hplaced⟩

theorem checkRun_inside {mapName subject : String} {address : Option DefinitionAddress}
    {count width : ℕ} {startPosition interval : UInt32} {run : MapExtent}
    (hzero : width = 0 → ∀ a, address = some a → a.value ≤ definitionSize memoryMap)
    (h : checkRun mapName subject address count startPosition interval width memoryMap =
      .ok (some run)) : run.Inside memoryMap := by
  obtain ⟨a, ha, hcount, hle, hstart, -, hstop, hplaced⟩ := checkRun_eq_some h
  rcases Nat.eq_zero_or_pos width with rfl | hwidth
  · have hin := hzero rfl a ha
    simp only [elementOffset, Nat.mul_zero, Nat.add_zero] at hstop
    exact ⟨by omega, by omega⟩
  · have hlt : run.start < run.stop := by omega
    exact ⟨hlt.le, (hplaced hwidth).le_definitionSize hlt⟩

/-- A run that has an address and a count is checked. -/
theorem checkRun_ne_none {mapName subject : String} {a : DefinitionAddress}
    {count width : ℕ} {startPosition interval : UInt32} (hcount : count ≠ 0)
    (hle : count ≤ u32Max) :
    checkRun mapName subject (some a) count startPosition interval width memoryMap ≠ .ok none := by
  simp only [checkRun, if_neg (show ¬ (count = 0 ∨ u32Max < count) by omega)]
  split
  · exact fun h => nomatch h
  · exact fun h => nomatch h

/-! ### The extent of a map -/

theorem MapExtent.Covers.trans {e f g : MapExtent} (h : e.Covers f) (h' : f.Covers g) :
    e.Covers g :=
  ⟨h.start_le.trans h'.start_le, h'.stop_le.trans h.stop_le⟩

theorem cover_left (e : MapExtent) (run : Option MapExtent) :
    ∃ f, cover (some e) run = some f ∧ f.Covers e := by
  cases run with
  | none => exact ⟨e, rfl, le_rfl, le_rfl⟩
  | some r => exact ⟨_, rfl, min_le_left _ _, le_max_left _ _⟩

theorem cover_right (e : Option MapExtent) (run : MapExtent) :
    ∃ f, cover e (some run) = some f ∧ f.Covers run := by
  cases e with
  | none => exact ⟨run, rfl, le_rfl, le_rfl⟩
  | some e => exact ⟨_, rfl, min_le_right _ _, le_max_right _ _⟩

theorem cover_inside {e run : Option MapExtent} (he : ∀ f, e = some f → f.Inside memoryMap)
    (hrun : ∀ f, run = some f → f.Inside memoryMap) :
    ∀ f, cover e run = some f → f.Inside memoryMap := by
  intro f hf
  cases run with
  | none => exact he f hf
  | some r =>
    cases e with
    | none => exact hrun f hf
    | some e =>
      cases hf
      have h₁ := he e rfl
      have h₂ := hrun r rfl
      exact ⟨(min_le_left _ _).trans (h₁.start_le.trans (le_max_left _ _)),
        max_le h₁.stop_le h₂.stop_le⟩

variable {N : Numbers α} {definition : RomDefinition} {map : CalibrationMap} {extent : MapExtent}

theorem checkMapPlacement_eq_ok (h : checkMapPlacement N definition map memoryMap = .ok extent) :
    ∃ run : NumericTarget → Option MapExtent,
      (∀ target, checkTarget N definition map memoryMap target = .ok (run target)) ∧
      extent = (cover (cover (run .mapBody) (run .xAxis)) (run .yAxis)).getD ⟨0, 0⟩ := by
  simp only [checkMapPlacement] at h
  split at h
  · cases h
  · rename_i cells hcells
    split at h
    · cases h
    · rename_i x hx
      split at h
      · cases h
      · rename_i y hy
        cases h
        refine ⟨fun | .mapBody => cells | .xAxis => x | .yAxis => y, fun target => ?_, rfl⟩
        cases target with
        | mapBody => exact hcells
        | xAxis => exact hx
        | yAxis => exact hy

/-- **Every run that was checked lies in the extent.** -/
theorem checkMapPlacement_covers (h : checkMapPlacement N definition map memoryMap = .ok extent)
    {target : NumericTarget} {run : MapExtent}
    (hrun : checkTarget N definition map memoryMap target = .ok (some run)) :
    extent.Covers run := by
  obtain ⟨runs, hruns, rfl⟩ := checkMapPlacement_eq_ok h
  have heq : runs target = some run := Except.ok.inj ((hruns target).symm.trans hrun)
  cases target with
  | mapBody =>
    obtain ⟨f, hf, hcover⟩ := cover_left run (runs .xAxis)
    obtain ⟨g, hg, hcover'⟩ := cover_left f (runs .yAxis)
    rw [heq, hf, hg]
    exact hcover'.trans hcover
  | xAxis =>
    obtain ⟨f, hf, hcover⟩ := cover_right (runs .mapBody) run
    obtain ⟨g, hg, hcover'⟩ := cover_left f (runs .yAxis)
    rw [heq, hf, hg]
    exact hcover'.trans hcover
  | yAxis =>
    obtain ⟨f, hf, hcover⟩ := cover_right (cover (runs .mapBody) (runs .xAxis)) run
    rw [heq, hf]
    exact hcover

/-- **The extent is inside the memory**, if each run is. -/
theorem checkMapPlacement_inside (h : checkMapPlacement N definition map memoryMap = .ok extent)
    (hruns : ∀ target run, checkTarget N definition map memoryMap target = .ok (some run) →
      run.Inside memoryMap) : extent.Inside memoryMap := by
  obtain ⟨runs, hok, rfl⟩ := checkMapPlacement_eq_ok h
  have hinside : ∀ target f, runs target = some f → f.Inside memoryMap :=
    fun target f hf => hruns target f (by rw [hok target, hf])
  cases hcover : cover (cover (runs .mapBody) (runs .xAxis)) (runs .yAxis) with
  | none => exact ⟨le_rfl, Nat.zero_le _⟩
  | some f =>
    exact cover_inside (cover_inside (hinside .mapBody) (hinside .xAxis)) (hinside .yAxis) f hcover

/-- The run of a target with an address and a count: the span of its elements, which `width` bytes
each are read from. -/
theorem checkTarget_run {target : NumericTarget} {a : DefinitionAddress}
    (hok : ∃ run, checkTarget N definition map memoryMap target = .ok run)
    (hblob : (resolveMapElement N definition map target).storageType ≠ some .bloblist)
    (ha : (resolveMapElement N definition map target).address = some a)
    (hcount : (resolveMapElement N definition map target).count ≠ 0)
    (hle : (resolveMapElement N definition map target).count ≤ u32Max) :
    ∃ run, checkTarget N definition map memoryMap target = .ok (some run) ∧
      ∃ subject, checkRun map.name subject (some a)
        (resolveMapElement N definition map target).count
        (resolveMapElement N definition map target).startPosition
        (resolveMapElement N definition map target).interval
        (storageByteSize (resolveMapElement N definition map target).storageType) memoryMap =
          .ok (some run) := by
  have hwidth := resolveMapElement_byteWidth N definition map target
  rw [elementByteWidth_of_ne _ hblob] at hwidth
  obtain ⟨run, hrun⟩ := hok
  -- all three checks come down to one of the same run
  have hcheck : ∃ subject, checkTarget N definition map memoryMap target =
      checkRun map.name subject (some a) (resolveMapElement N definition map target).count
        (resolveMapElement N definition map target).startPosition
        (resolveMapElement N definition map target).interval
        (storageByteSize (resolveMapElement N definition map target).storageType) memoryMap := by
    rw [← hwidth, ← ha]
    cases target with
    | mapBody => exact ⟨_, if_neg hblob⟩
    | xAxis => exact ⟨_, rfl⟩
    | yAxis => exact ⟨_, rfl⟩
  obtain ⟨subject, hcheck⟩ := hcheck
  cases run with
  | none => exact absurd (hcheck.symm.trans hrun) (checkRun_ne_none hcount hle)
  | some run => exact ⟨run, hrun, subject, hcheck.symm.trans hrun⟩

end FastEcu.Calibration
