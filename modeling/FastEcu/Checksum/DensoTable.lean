import FastEcu.Bytes.Words
import FastEcu.Memory.Address

/-!
# Denso checksum tables

`CorrectDensoTable` (`src/algorithms/checksum/denso_checksum_table.cpp`).  A table is a list of
twelve-byte records, each with the first and the last ECU address of a block and the word that
brings the block's word sum to the target.  The start and the end come from the ROM itself, so the
range checks must hold for every pair of 32-bit words.

* `blockSum` says in whole numbers what the loop over a block adds up; `sumBlock_eq_ok_iff` joins it
  to the code.
* `correctRecords_eq_ok_iff` : what the loop over the records leaves behind.
* `TableVerifies` : every record is accepted and stores what it should.  `correctDensoTable_cases`
  lists the outcomes of a run by it.
-/

namespace FastEcu.Checksum

open Memory

/-- The state of a checksum correction. -/
inductive Status
  | unchanged
  | corrected
  | disabled
  | invalidSize
  | unsupportedRom
  | parseError
deriving DecidableEq, Repr

/-- What a checksum family reports. -/
structure ChecksumResult where
  /-- What happened. -/
  status : Status := .unchanged
  /-- The ROM afterwards. -/
  romData : Bytes
  /-- What to tell the user. -/
  message : String := ""
deriving DecidableEq

/-- The family succeeded. -/
def ChecksumResult.ok (r : ChecksumResult) : Bool :=
  r.status == .unchanged || r.status == .corrected || r.status == .disabled

/-- A word that counts as `value` in every sum, whatever the ROM holds at `address`. -/
structure DensoWordOverride where
  /-- The ECU address. -/
  address : UInt32
  /-- The word. -/
  value : UInt32
deriving DecidableEq

/-- Where a table lies and how it is read. -/
structure DensoTableSpec where
  /-- The ECU address of the first record. -/
  tableAddress : FlashAddress
  /-- The length in bytes. -/
  tableLength : UInt32 := 0
  /-- The overridden words. -/
  overrides : List DensoWordOverride := []
  /-- A first record `(0, 0, target)` switches the table off. -/
  detectDisabled : Bool := true

/-- The outcome of a correction. -/
inductive DensoTableOutcome
  | unchanged
  | corrected
  | disabled
  | invalidTableRange
  | invalidBlockRange
  | malformedBlockRange
  | invalidRecordLength
deriving DecidableEq, Repr

/-- `kRecordLength`. -/
def recordLength : ℕ := 12

/-- `kChecksumTarget`. -/
def checksumTarget : UInt32 := 0x5AA5A55A

/-- `WordAt`: the word at `offset` in `block`, which starts at ECU address `blockAddress`. -/
def wordAt (block : Bytes) (offset : ℕ) (blockAddress : UInt32)
    (overrides : List DensoWordOverride) : UInt32 :=
  let ecuAddress := blockAddress + UInt32.ofNat offset
  match overrides.find? fun item => item.address == ecuAddress with
  | none => readU32Be block offset
  | some item => item.value

/-- `EcuAcceptsBlock`: the ECU's own check of a record. -/
def ecuAcceptsBlock (start stop : UInt32) : Bool :=
  start % 4 == 0 && decide (start ≤ stop) && (start == stop || stop % 4 == 3)

/-- The offsets `0, 4, 8, …` below `size`. -/
def wordOffsets (size : ℕ) : List ℕ := (List.range ((size + 3) / 4)).map (4 * ·)

/-- The loop of `SumBlock` over the words of a block. -/
def sumWords (block : Bytes) (blockAddress : UInt32) (overrides : List DensoWordOverride) :
    UInt32 :=
  (wordOffsets block.length).foldl
    (fun sum offset => sum + wordAt block offset blockAddress overrides) 0

/-- `SumBlock`: the sum of the words from ECU address `start` through `stop` in `rom`, which starts
at ECU address `base`. -/
def sumBlock (rom : Bytes) (base start stop : UInt32) (overrides : List DensoWordOverride) :
    Except DensoTableOutcome UInt32 :=
  if !ecuAcceptsBlock start stop then .error .malformedBlockRange
  else if start = stop then .ok 0
  else if start < base || decide ((stop - base).toNat ≥ rom.length) then .error .invalidBlockRange
  else .ok (sumWords (subspan rom (start - base).toNat (stop - start + 1).toNat) start overrides)

/-- The three words of a record. -/
structure DensoRecord where
  /-- The first ECU address of the block. -/
  start : UInt32
  /-- The last one. -/
  stop : UInt32
  /-- The word that brings the block's sum to the target. -/
  stored : UInt32
deriving DecidableEq

/-- The record at `position`. -/
def readRecord (rom : Bytes) (position : ℕ) : DensoRecord where
  start := readU32Be rom position
  stop := readU32Be rom (position + 4)
  stored := readU32Be rom (position + 8)

/-- The record with another stored word. -/
def DensoRecord.withStored (r : DensoRecord) (word : UInt32) : DensoRecord :=
  { r with stored := word }

/-- The bytes of a record. -/
def DensoRecord.bytes (r : DensoRecord) : Bytes :=
  appendU32Be (appendU32Be (appendU32Be [] r.start) r.stop) r.stored

/-- The first record that switches a table off. -/
def disabledRecord : DensoRecord := ⟨0, 0, checksumTarget⟩

/-- The position of a record in the ROM. -/
def recordPosition (tablePosition index : ℕ) : ℕ := tablePosition + recordLength * index

/-- What the record should store, or the outcome it ends the loop with. -/
def expectedStored (base : FlashAddress) (rom : Bytes) (spec : DensoTableSpec)
    (tablePosition index : ℕ) : Except DensoTableOutcome UInt32 :=
  let r := readRecord rom (recordPosition tablePosition index)
  if index == 0 && spec.detectDisabled && r == disabledRecord then .error .disabled
  else
    match sumBlock rom (UInt32.ofNat base.value) r.start r.stop spec.overrides with
    | .error outcome => .error outcome
    | .ok sum => .ok (checksumTarget - sum)

/-- One turn of the loop over the records: the corrected table so far, and whether it differs. -/
def correctRecord (base : FlashAddress) (rom : Bytes) (spec : DensoTableSpec) (tablePosition : ℕ)
    (acc : Bytes × Bool) (index : ℕ) : Except DensoTableOutcome (Bytes × Bool) :=
  let r := readRecord rom (recordPosition tablePosition index)
  match expectedStored base rom spec tablePosition index with
  | .error outcome => .error outcome
  | .ok expected =>
    .ok (acc.1 ++ (r.withStored expected).bytes, acc.2 || r.stored != expected)

/-- The loop over the first `count` records. -/
def correctRecords (base : FlashAddress) (rom : Bytes) (spec : DensoTableSpec)
    (tablePosition count : ℕ) : Except DensoTableOutcome (Bytes × Bool) :=
  (List.range count).foldlM (correctRecord base rom spec tablePosition) ([], false)

/-- The number of records of a table. -/
def DensoTableSpec.records (spec : DensoTableSpec) : ℕ := spec.tableLength.toNat / recordLength

/-- Where the table starts in a ROM of `size` bytes from `base` on, if it lies within. -/
def tablePosition (base : FlashAddress) (size : ℕ) (spec : DensoTableSpec) : Option ℕ :=
  match spec.tableAddress.distanceFrom base with
  | none => none
  | some position =>
    if position.value > size || spec.tableLength.toNat > size - position.value then none
    else some position.value

/-- `CorrectDensoTable`: the outcome and the ROM afterwards. -/
def correctDensoTable (base : FlashAddress) (rom : Bytes) (spec : DensoTableSpec) :
    DensoTableOutcome × Bytes :=
  if spec.tableLength.toNat % recordLength ≠ 0 then (.invalidRecordLength, rom)
  else
    match tablePosition base rom.length spec with
    | none => (.invalidTableRange, rom)
    | some position =>
      match correctRecords base rom spec position spec.records with
      | .error outcome => (outcome, rom)
      | .ok (corrected, changed) =>
        if !changed then (.unchanged, rom)
        else (.corrected, overwriteAt rom position corrected)

/-- `FailureOf`: what a family reports for an outcome, `none` for those that are no failures. -/
def failureOf : DensoTableOutcome → Option (Status × String)
  | .unchanged | .corrected | .disabled => none
  | .invalidTableRange =>
    some (.invalidSize, "ROM is too small for the configured checksum area")
  | .invalidBlockRange => some (.invalidSize, "ROM is too small for a checksum block range")
  | .malformedBlockRange =>
    some (.parseError,
      "A checksum block must start on a word and end at or after it, on a word's last byte")
  | .invalidRecordLength =>
    some (.parseError, "Checksum area length must be a multiple of 12 bytes")

/-! ### Blocks -/

/-- The record's block holds the byte at `position` of a ROM that starts at `base`. -/
def DensoRecord.Covers (r : DensoRecord) (base : FlashAddress) (position : ℕ) : Prop :=
  r.start ≠ r.stop ∧ r.start.toNat ≤ base.value + position ∧ base.value + position ≤ r.stop.toNat

/-- The word at an ECU address, overrides included. -/
def blockWord (rom : Bytes) (base : FlashAddress) (overrides : List DensoWordOverride)
    (address : ℕ) : UInt32 :=
  match overrides.find? fun item => item.address.toNat == address with
  | none => readU32Be rom (address - base.value)
  | some item => item.value

/-- The sum modulo `2 ^ 32` of the words of a record's block, an empty block being the one that
starts where it ends. -/
def blockSum (rom : Bytes) (base : FlashAddress) (overrides : List DensoWordOverride)
    (r : DensoRecord) : UInt32 :=
  if r.start = r.stop then 0
  else
    ((List.range ((r.stop.toNat - r.start.toNat + 1) / 4)).map fun k =>
      blockWord rom base overrides (r.start.toNat + 4 * k)).sum

/-- The block is one that the ECU accepts and lies in a ROM of `size` bytes. -/
structure DensoRecord.InRom (r : DensoRecord) (base : FlashAddress) (size : ℕ) : Prop where
  /-- The ECU accepts it. -/
  accepted : ecuAcceptsBlock r.start r.stop = true
  /-- A block that is not empty starts at or after the base. -/
  base_le : r.start ≠ r.stop → base.value ≤ r.start.toNat
  /-- It ends within the ROM. -/
  stop_lt : r.start ≠ r.stop → r.stop.toNat - base.value < size

theorem toNat_base (base : FlashAddress) : (UInt32.ofNat base.value).toNat = base.value :=
  UInt32.toNat_ofNat_of_lt base.lt

theorem ecuAcceptsBlock_iff {start stop : UInt32} : ecuAcceptsBlock start stop = true ↔
    start.toNat % 4 = 0 ∧ start.toNat ≤ stop.toNat ∧ (start = stop ∨ stop.toNat % 4 = 3) := by
  have hmod : ∀ (w r : UInt32), w % 4 = r ↔ w.toNat % 4 = r.toNat := fun w r => by
    rw [← UInt32.toNat_inj, UInt32.toNat_mod]
    rfl
  simp only [ecuAcceptsBlock, Bool.and_eq_true, Bool.or_eq_true, beq_iff_eq, decide_eq_true_eq,
    hmod, UInt32.le_iff_toNat_le, UInt32.reduceToNat, and_assoc]

/-- The block of a record that is not empty, as a stretch of the ROM. -/
theorem DensoRecord.InRom.span {r : DensoRecord} {base : FlashAddress} {size : ℕ}
    (h : r.InRom base size) (hne : r.start ≠ r.stop) :
    (r.start - UInt32.ofNat base.value).toNat = r.start.toNat - base.value ∧
      r.start.toNat < r.stop.toNat ∧ (r.stop.toNat - r.start.toNat + 1) % 4 = 0 ∧
      r.start.toNat - base.value + (r.stop.toNat - r.start.toNat + 1) ≤ size := by
  obtain ⟨hstart, hle, hstop⟩ := ecuAcceptsBlock_iff.1 h.accepted
  have hbase := h.base_le hne
  have hlt := h.stop_lt hne
  have hmod := hstop.resolve_left hne
  refine ⟨?_, by omega, by omega, by omega⟩
  rw [UInt32.toNat_sub_of_le _ _ (UInt32.le_iff_toNat_le.2 (by rwa [toNat_base])), toNat_base]

/-- The number of bytes of a block does not wrap unless the block is the whole address space. -/
theorem toNat_blockSize {start stop : UInt32} (h : start.toNat ≤ stop.toNat)
    (hlt : stop.toNat - start.toNat + 1 < 2 ^ 32) :
    (stop - start + 1).toNat = stop.toNat - start.toNat + 1 := by
  rw [UInt32.toNat_add, UInt32.toNat_sub_of_le _ _ (UInt32.le_iff_toNat_le.2 h),
    show (1 : UInt32).toNat = 1 from rfl, Nat.mod_eq_of_lt hlt]

/-- Exactly the blocks in the ROM pass the checks. -/
theorem sumBlock_eq {rom : Bytes} {base : FlashAddress} {r : DensoRecord}
    {overrides : List DensoWordOverride} (h : r.InRom base rom.length) :
    sumBlock rom (UInt32.ofNat base.value) r.start r.stop overrides =
      if r.start = r.stop then .ok 0
      else .ok (sumWords (subspan rom (r.start - UInt32.ofNat base.value).toNat
        (r.stop - r.start + 1).toNat) r.start overrides) := by
  unfold sumBlock
  rw [h.accepted, if_neg (by decide)]
  split_ifs with hne hrange
  · rfl
  · exfalso
    rw [Bool.or_eq_true, decide_eq_true_eq, decide_eq_true_eq, UInt32.lt_iff_toNat_lt,
      toNat_base] at hrange
    have hbase := h.base_le hne
    have hstop := h.stop_lt hne
    have hle := (h.span hne).2.1
    rw [UInt32.toNat_sub_of_le _ _ (UInt32.le_iff_toNat_le.2 (by rw [toNat_base]; omega)),
      toNat_base] at hrange
    omega
  · rfl

theorem inRom_of_sumBlock_eq_ok {rom : Bytes} {base : FlashAddress} {r : DensoRecord}
    {overrides : List DensoWordOverride} {sum : UInt32}
    (h : sumBlock rom (UInt32.ofNat base.value) r.start r.stop overrides = .ok sum) :
    r.InRom base rom.length := by
  unfold sumBlock at h
  split_ifs at h with hacc hne hrange
  · exact ⟨by simpa using hacc, fun h' => absurd hne h', fun h' => absurd hne h'⟩
  · have hacc' : ecuAcceptsBlock r.start r.stop = true := by simpa using hacc
    have hle := (ecuAcceptsBlock_iff.1 hacc').2.1
    rw [Bool.or_eq_true, decide_eq_true_eq, decide_eq_true_eq, UInt32.lt_iff_toNat_lt,
      toNat_base, not_or, not_lt] at hrange
    have hsub : (r.stop - UInt32.ofNat base.value).toNat = r.stop.toNat - base.value := by
      rw [UInt32.toNat_sub_of_le _ _ (UInt32.le_iff_toNat_le.2 (by rw [toNat_base]; omega)),
        toNat_base]
    exact ⟨hacc', fun _ => hrange.1, fun _ => by omega⟩

/-- Inside a block the address of a word does not wrap. -/
theorem wordAt_subspan {rom : Bytes} {base : FlashAddress} {overrides : List DensoWordOverride}
    {start : UInt32} {count k : ℕ} (hbase : base.value ≤ start.toNat)
    (hfit : start.toNat - base.value + count ≤ rom.length) (haddr : start.toNat + count ≤ 2 ^ 32)
    (hk : 4 * k + 4 ≤ count) :
    wordAt (subspan rom (start.toNat - base.value) count) (4 * k) start overrides =
      blockWord rom base overrides (start.toNat + 4 * k) := by
  have hlt : 4 * k < UInt32.size := by
    rw [UInt32.size]
    omega
  have haddress : (start + UInt32.ofNat (4 * k)).toNat = start.toNat + 4 * k := by
    rw [UInt32.toNat_add, UInt32.toNat_ofNat_of_lt' hlt,
      Nat.mod_eq_of_lt (by omega)]
  have hfind : (fun item : DensoWordOverride => item.address == start + UInt32.ofNat (4 * k)) =
      fun item => item.address.toNat == start.toNat + 4 * k := by
    funext item
    rw [Bool.eq_iff_iff, beq_iff_eq, beq_iff_eq, ← haddress, UInt32.toNat_inj]
  unfold wordAt blockWord
  simp only [hfind]
  rw [readU32Be_subspan hfit hk,
    show start.toNat - base.value + 4 * k = start.toNat + 4 * k - base.value by omega]

/-- **What the loop over a block adds up**, in a ROM of less than `2 ^ 32` bytes. -/
theorem sumBlock_eq_blockSum {rom : Bytes} {base : FlashAddress} {r : DensoRecord}
    {overrides : List DensoWordOverride} (hsize : rom.length < 2 ^ 32)
    (h : r.InRom base rom.length) :
    sumBlock rom (UInt32.ofNat base.value) r.start r.stop overrides =
      .ok (blockSum rom base overrides r) := by
  rw [sumBlock_eq h, blockSum]
  split_ifs with hne
  · rfl
  · obtain ⟨hoff, hlt, hmod, hfit⟩ := h.span hne
    have hstop := r.stop.toNat_lt
    rw [hoff, toNat_blockSize hlt.le (by omega)]
    congr 1
    unfold sumWords wordOffsets
    rw [length_subspan hfit, List.foldl_map, ← List.foldl_map, ← List.sum_eq_foldl,
      show (r.stop.toNat - r.start.toNat + 1 + 3) / 4 = (r.stop.toNat - r.start.toNat + 1) / 4 by
        omega]
    congr 1
    apply List.map_congr_left
    intro k hk
    rw [List.mem_range] at hk
    exact wordAt_subspan (h.base_le hne) hfit (by omega) (by omega)

theorem blockWord_congr {rom rom' : Bytes} {base : FlashAddress}
    {overrides : List DensoWordOverride} {address : ℕ} (hlen : rom.length = rom'.length)
    (hbase : base.value ≤ address)
    (h : ∀ i < 4, rom[address + i - base.value]? = rom'[address + i - base.value]?) :
    blockWord rom base overrides address = blockWord rom' base overrides address := by
  unfold blockWord
  rw [readU32Be_congr hlen fun i hi => ?_]
  rw [show address - base.value + i = address + i - base.value by omega]
  exact h i hi

/-- The sum of a block depends on the bytes it covers only. -/
theorem blockSum_congr {rom rom' : Bytes} {base : FlashAddress}
    {overrides : List DensoWordOverride} {r : DensoRecord} (hlen : rom.length = rom'.length)
    (hr : r.InRom base rom.length) (h : ∀ k, r.Covers base k → rom[k]? = rom'[k]?) :
    blockSum rom base overrides r = blockSum rom' base overrides r := by
  unfold blockSum
  split_ifs with hne
  · rfl
  · have hbase := hr.base_le hne
    obtain ⟨-, hlt, -, -⟩ := hr.span hne
    congr 1
    apply List.map_congr_left
    intro k hk
    rw [List.mem_range] at hk
    exact blockWord_congr hlen (by omega) fun i hi => h _ ⟨hne, by omega, by omega⟩

/-! ### The loop over the records -/

section Loop

variable {base : FlashAddress} {rom : Bytes} {spec : DensoTableSpec} {p n : ℕ}

@[simp] theorem length_bytes (r : DensoRecord) : r.bytes.length = recordLength := rfl

theorem getElem?_bytes_start (r : DensoRecord) {b : ℕ} (hb : b < 4) :
    r.bytes[b]? = (beBytes r.start)[b]? := by
  match b, hb with
  | 0, _ => rfl
  | 1, _ => rfl
  | 2, _ => rfl
  | 3, _ => rfl

theorem getElem?_bytes_stop (r : DensoRecord) {b : ℕ} (hb : b < 4) :
    r.bytes[4 + b]? = (beBytes r.stop)[b]? := by
  match b, hb with
  | 0, _ => rfl
  | 1, _ => rfl
  | 2, _ => rfl
  | 3, _ => rfl

theorem getElem?_bytes_stored (r : DensoRecord) {b : ℕ} (hb : b < 4) :
    r.bytes[8 + b]? = (beBytes r.stored)[b]? := by
  match b, hb with
  | 0, _ => rfl
  | 1, _ => rfl
  | 2, _ => rfl
  | 3, _ => rfl

theorem correctRecords_succ : correctRecords base rom spec p (n + 1) =
    (correctRecords base rom spec p n >>= fun acc => correctRecord base rom spec p acc n) := by
  simp only [correctRecords, List.range_succ, List.foldlM_append, List.foldlM_cons,
    List.foldlM_nil, bind_pure]

/-- What the loop over the records has gathered when it gets to its end. -/
structure Gathered (base : FlashAddress) (rom : Bytes) (spec : DensoTableSpec) (p n : ℕ)
    (acc : Bytes × Bool) : Prop where
  /-- One record for each turn. -/
  length_eq : acc.1.length = recordLength * n
  /-- The records with what they should store. -/
  records : ∀ i < n, ∃ expected, expectedStored base rom spec p i = .ok expected ∧
    ∀ b < recordLength, acc.1[recordLength * i + b]? =
      ((readRecord rom (recordPosition p i)).withStored expected).bytes[b]?
  /-- Nothing changed exactly when every record already stores that. -/
  changed_iff : acc.2 = false ↔ ∀ i < n,
    expectedStored base rom spec p i = .ok (readRecord rom (recordPosition p i)).stored

theorem Gathered.step {acc acc' : Bytes × Bool} (h : Gathered base rom spec p n acc)
    (hstep : correctRecord base rom spec p acc n = .ok acc') :
    Gathered base rom spec p (n + 1) acc' := by
  unfold correctRecord at hstep
  cases he : expectedStored base rom spec p n with
  | error o => rw [he] at hstep; cases hstep
  | ok expected =>
    rw [he] at hstep
    cases hstep
    have hlen := h.length_eq
    refine ⟨?_, ?_, ?_⟩
    · rw [List.length_append, length_bytes, hlen, Nat.mul_succ]
    · intro i hi
      by_cases hin : i < n
      · obtain ⟨e, hok, hbytes⟩ := h.records i hin
        refine ⟨e, hok, fun b hb => ?_⟩
        have : recordLength * i + b < recordLength * n := by
          unfold recordLength at *
          omega
        rw [List.getElem?_append_left (by omega), hbytes b hb]
      · obtain rfl : i = n := by omega
        refine ⟨expected, he, fun b hb => ?_⟩
        rw [List.getElem?_append_right (by omega), hlen, Nat.add_sub_cancel_left]
    · simp only [Bool.or_eq_false_iff, bne_eq_false_iff_eq, h.changed_iff]
      rw [Nat.forall_lt_succ_right, he, Except.ok.injEq, eq_comm (a := expected)]

/-- The loop gets to its end exactly when every record passes its checks. -/
theorem correctRecords_cases (base : FlashAddress) (rom : Bytes) (spec : DensoTableSpec)
    (p n : ℕ) : (∃ acc, correctRecords base rom spec p n = .ok acc ∧
      Gathered base rom spec p n acc) ∨
    ∃ i < n, ∃ o, expectedStored base rom spec p i = .error o ∧
      correctRecords base rom spec p n = .error o := by
  induction n with
  | zero =>
    exact .inl ⟨([], false), rfl, rfl, fun i hi => absurd hi (Nat.not_lt_zero i), by simp⟩
  | succ n ih =>
    rw [correctRecords_succ]
    obtain ⟨acc, hok, hacc⟩ | ⟨i, hi, o, he, herr⟩ := ih
    · rw [hok]
      cases hstep : correctRecord base rom spec p acc n with
      | ok acc' => exact .inl ⟨acc', hstep, hacc.step hstep⟩
      | error o =>
        refine .inr ⟨n, n.lt_succ_self, o, ?_, hstep⟩
        unfold correctRecord at hstep
        cases he : expectedStored base rom spec p n with
        | error o' => rw [he] at hstep; cases hstep; rfl
        | ok e => rw [he] at hstep; cases hstep
    · exact .inr ⟨i, hi.trans n.lt_succ_self, o, he, by rw [herr]; rfl⟩

end Loop

/-! ### Tables -/

/-- Where the table starts in the ROM. -/
def tableStart (base : FlashAddress) (spec : DensoTableSpec) : ℕ :=
  spec.tableAddress.value - base.value

/-- The record of the given index of the table in `rom`. -/
def tableRecord (base : FlashAddress) (rom : Bytes) (spec : DensoTableSpec) (index : ℕ) :
    DensoRecord :=
  readRecord rom (recordPosition (tableStart base spec) index)

/-- The table is a list of records within a ROM of `size` bytes. -/
structure TableInRom (base : FlashAddress) (size : ℕ) (spec : DensoTableSpec) : Prop where
  /-- Whole records. -/
  length_mod : spec.tableLength.toNat % recordLength = 0
  /-- The table starts at or after the base. -/
  base_le : base.value ≤ spec.tableAddress.value
  /-- It ends within the ROM. -/
  fits : tableStart base spec + spec.tableLength.toNat ≤ size

/-- The byte belongs to the stored word of a record. -/
def StoredByte (base : FlashAddress) (spec : DensoTableSpec) (k : ℕ) : Prop :=
  ∃ i < spec.records, recordPosition (tableStart base spec) i + 8 ≤ k ∧
    k < recordPosition (tableStart base spec) i + recordLength

/-- The first record switches the table off. -/
def SwitchedOff (base : FlashAddress) (rom : Bytes) (spec : DensoTableSpec) : Prop :=
  spec.detectDisabled = true ∧ 0 < spec.records ∧ tableRecord base rom spec 0 = disabledRecord

instance (base : FlashAddress) (rom : Bytes) (spec : DensoTableSpec) :
    Decidable (SwitchedOff base rom spec) :=
  inferInstanceAs (Decidable (_ ∧ _ ∧ _))

/-- Every block of the table is one that the ECU accepts and lies in the ROM. -/
def BlocksInRom (base : FlashAddress) (rom : Bytes) (spec : DensoTableSpec) : Prop :=
  ∀ i < spec.records, (tableRecord base rom spec i).InRom base rom.length

/-- What the record should store. -/
def DensoRecord.expected (r : DensoRecord) (base : FlashAddress) (rom : Bytes)
    (overrides : List DensoWordOverride) : UInt32 :=
  checksumTarget - blockSum rom base overrides r

/-- Every record of the table has a block in the ROM and stores what it should. -/
def TableVerifies (base : FlashAddress) (rom : Bytes) (spec : DensoTableSpec) : Prop :=
  ∀ i < spec.records, (tableRecord base rom spec i).InRom base rom.length ∧
    (tableRecord base rom spec i).stored =
      (tableRecord base rom spec i).expected base rom spec.overrides

/-- `rom'` is `rom` with every stored word replaced by what the record should store in `rom`. -/
structure Corrects (base : FlashAddress) (spec : DensoTableSpec) (rom rom' : Bytes) : Prop where
  /-- The length stays. -/
  length_eq : rom'.length = rom.length
  /-- Only stored words differ. -/
  frame : ∀ k, ¬ StoredByte base spec k → rom'[k]? = rom[k]?
  /-- They hold what they should. -/
  stored : ∀ i < spec.records, (tableRecord base rom' spec i).stored =
    (tableRecord base rom spec i).expected base rom spec.overrides

@[simp] theorem withStored_stored (r : DensoRecord) (w : UInt32) : (r.withStored w).stored = w :=
  rfl

@[simp] theorem withStored_covers (r : DensoRecord) (w : UInt32) {base : FlashAddress} {k : ℕ} :
    (r.withStored w).Covers base k ↔ r.Covers base k := Iff.rfl

@[simp] theorem withStored_expected (r : DensoRecord) (w : UInt32) (base : FlashAddress)
    (rom : Bytes) (overrides : List DensoWordOverride) :
    (r.withStored w).expected base rom overrides = r.expected base rom overrides := rfl

section Tables

variable {base : FlashAddress} {rom rom' : Bytes} {spec : DensoTableSpec}

theorem recordPosition_add_le {size : ℕ} (h : TableInRom base size spec) {i : ℕ}
    (hi : i < spec.records) :
    recordPosition (tableStart base spec) i + recordLength ≤
      tableStart base spec + spec.tableLength.toNat ∧
    recordPosition (tableStart base spec) i + recordLength ≤ size := by
  have hfits := h.fits
  have hlt : recordLength * i + recordLength ≤ spec.tableLength.toNat := by
    unfold DensoTableSpec.records recordLength at *
    omega
  unfold recordPosition
  omega

theorem tablePosition_eq_some_iff {size p : ℕ} : tablePosition base size spec = some p ↔
    base.value ≤ spec.tableAddress.value ∧ p = tableStart base spec ∧
      p + spec.tableLength.toNat ≤ size := by
  unfold tablePosition tableStart
  cases hd : spec.tableAddress.distanceFrom base with
  | none =>
    simp only [reduceCtorEq, false_iff]
    rintro ⟨hle, -⟩
    unfold TaggedPosition.distanceFrom at hd
    rw [if_neg (by omega)] at hd
    cases hd
  | some d =>
    have hsum := TaggedPosition.distanceFrom_eq_some_iff.1 hd
    simp only [Bool.or_eq_true, decide_eq_true_eq]
    split_ifs with h
    · simp only [false_iff]
      omega
    · simp only [Option.some.injEq]
      omega

/-- What one record gives, by its block. -/
theorem expectedStored_cases (base : FlashAddress) (hsize : rom.length < 2 ^ 32) {i : ℕ}
    (hi : i < spec.records) :
    (i = 0 ∧ SwitchedOff base rom spec ∧
      expectedStored base rom spec (tableStart base spec) i = .error .disabled) ∨
    ¬ (i = 0 ∧ SwitchedOff base rom spec) ∧
    (((tableRecord base rom spec i).InRom base rom.length ∧
      expectedStored base rom spec (tableStart base spec) i =
        .ok ((tableRecord base rom spec i).expected base rom spec.overrides)) ∨
    (¬ (tableRecord base rom spec i).InRom base rom.length ∧
      ∃ o, failureOf o ≠ none ∧
        expectedStored base rom spec (tableStart base spec) i = .error o)) := by
  unfold expectedStored
  rw [← tableRecord]
  simp only [Bool.and_eq_true, beq_iff_eq, and_assoc]
  split_ifs with hoff
  · obtain ⟨rfl, hdetect, hr⟩ := hoff
    exact .inl ⟨rfl, ⟨hdetect, hi, hr⟩, rfl⟩
  · refine .inr ⟨fun h => hoff ⟨h.1, h.2.1, h.1 ▸ h.2.2.2⟩, ?_⟩
    by_cases hin : (tableRecord base rom spec i).InRom base rom.length
    · refine .inl ⟨hin, ?_⟩
      rw [sumBlock_eq_blockSum hsize hin]
      rfl
    · refine .inr ⟨hin, ?_⟩
      cases hs : sumBlock rom (UInt32.ofNat base.value) (tableRecord base rom spec i).start
          (tableRecord base rom spec i).stop spec.overrides with
      | ok sum => exact absurd (inRom_of_sumBlock_eq_ok hs) hin
      | error o =>
        refine ⟨o, ?_, rfl⟩
        unfold sumBlock at hs
        split_ifs at hs <;> cases hs <;> simp [failureOf]

theorem overwriteAt_eq {out payload : Bytes} {offset : ℕ}
    (h : offset + payload.length ≤ out.length) :
    overwriteAt out offset payload = overwrite out offset payload := by
  unfold overwriteAt
  split_ifs with hge
  · have hnil : payload = [] := List.length_eq_zero_iff.1 (by omega)
    rw [hnil, overwrite_nil]
  · rw [List.take_of_length_le (by omega)]

theorem recordLength_mul_records (h : spec.tableLength.toNat % recordLength = 0) :
    recordLength * spec.records = spec.tableLength.toNat :=
  Nat.mul_div_cancel' (Nat.dvd_of_mod_eq_zero h)

/-- Every byte of the table belongs to a record. -/
theorem exists_recordPosition_add (base : FlashAddress) {k : ℕ}
    (h : spec.tableLength.toNat % recordLength = 0) (hk : tableStart base spec ≤ k)
    (hlt : k < tableStart base spec + spec.tableLength.toNat) :
    ∃ i < spec.records, ∃ b < recordLength, k = recordPosition (tableStart base spec) i + b := by
  refine ⟨(k - tableStart base spec) / recordLength, ?_, (k - tableStart base spec) % recordLength,
    Nat.mod_lt _ (by decide), ?_⟩
  · rw [Nat.div_lt_iff_lt_mul (by decide), Nat.mul_comm, recordLength_mul_records h]
    omega
  · have hdiv := Nat.div_add_mod (k - tableStart base spec) recordLength
    rw [recordPosition, Nat.add_assoc, hdiv]
    omega

/-- The bytes of a corrected table. -/
theorem getElem?_corrected {acc : Bytes × Bool} (hin : TableInRom base rom.length spec)
    (hacc : Gathered base rom spec (tableStart base spec) spec.records acc)
    {i : ℕ} (hi : i < spec.records) {e : UInt32}
    (he : expectedStored base rom spec (tableStart base spec) i = .ok e) {b : ℕ}
    (hb : b < recordLength) :
    (overwrite rom (tableStart base spec) acc.1)[recordPosition (tableStart base spec) i + b]? =
      ((tableRecord base rom spec i).withStored e).bytes[b]? := by
  obtain ⟨e', he', hbytes⟩ := hacc.records i hi
  obtain rfl : e = e' := Except.ok.inj (he.symm.trans he')
  have hlen := hacc.length_eq
  have hmul := recordLength_mul_records hin.length_mod
  have hfits := hin.fits
  have hlt : recordLength * i + b < acc.1.length := by
    rw [hlen]
    unfold recordLength at *
    omega
  rw [recordPosition, Nat.add_assoc, getElem?_overwrite_add (by omega) hlt]
  exact hbytes b hb

/-- The loop's bytes, written over the table, are the corrected table. -/
theorem corrects_overwrite {acc : Bytes × Bool} (hin : TableInRom base rom.length spec)
    (hacc : Gathered base rom spec (tableStart base spec) spec.records acc)
    (hok : ∀ i < spec.records, expectedStored base rom spec (tableStart base spec) i =
      .ok ((tableRecord base rom spec i).expected base rom spec.overrides)) :
    Corrects base spec rom (overwrite rom (tableStart base spec) acc.1) := by
  have haccLen : acc.1.length = spec.tableLength.toNat :=
    hacc.length_eq.trans (recordLength_mul_records hin.length_mod)
  have hfit : tableStart base spec + acc.1.length ≤ rom.length := haccLen ▸ hin.fits
  have hlen := length_overwrite hfit
  refine ⟨hlen, fun k hk => ?_, fun i hi => ?_⟩
  · by_cases hout : k < tableStart base spec ∨ tableStart base spec + acc.1.length ≤ k
    · exact getElem?_overwrite_of_notMem hfit hout
    · -- inside the table: the start and the end of a record are written back as they were read
      obtain ⟨i, hi, b, hb, rfl⟩ := exists_recordPosition_add base (k := k)
        hin.length_mod (by omega) (by omega)
      have hpos := (recordPosition_add_le hin hi).2
      have hb8 : b < 8 := by
        by_contra hge
        exact hk ⟨i, hi, by omega, by omega⟩
      rw [getElem?_corrected hin hacc hi (hok i hi) hb]
      unfold recordLength at *
      by_cases hb4 : b < 4
      · rw [getElem?_bytes_start _ hb4]
        exact beBytes_readU32Be (by omega) b hb4
      · obtain ⟨c, rfl⟩ : ∃ c, b = 4 + c := ⟨b - 4, by omega⟩
        rw [getElem?_bytes_stop _ (by omega), ← Nat.add_assoc]
        exact beBytes_readU32Be (by omega) c (by omega)
  · have hpos := (recordPosition_add_le hin hi).2
    unfold recordLength at hpos
    refine (readU32Be_eq_iff (by omega)).2 fun b hb => ?_
    rw [Nat.add_assoc, getElem?_corrected hin hacc hi (hok i hi) (by unfold recordLength; omega)]
    exact getElem?_bytes_stored _ hb

namespace Corrects

/-- The starts and the ends stay. -/
theorem tableRecord_eq (h : Corrects base spec rom rom') {i : ℕ} (hi : i < spec.records) :
    tableRecord base rom' spec i =
      (tableRecord base rom spec i).withStored
        ((tableRecord base rom spec i).expected base rom spec.overrides) := by
  have hword : ∀ c ≤ 4, ∀ b < 4,
      rom'[recordPosition (tableStart base spec) i + c + b]? =
        rom[recordPosition (tableStart base spec) i + c + b]? := by
    intro c hc b hb
    refine h.frame _ ?_
    rintro ⟨j, hj, hle, hlt⟩
    unfold recordPosition recordLength at hle hlt
    omega
  have hstart : readU32Be rom' (recordPosition (tableStart base spec) i) =
      readU32Be rom (recordPosition (tableStart base spec) i) :=
    readU32Be_congr h.length_eq (hword 0 (by decide))
  have hstop : readU32Be rom' (recordPosition (tableStart base spec) i + 4) =
      readU32Be rom (recordPosition (tableStart base spec) i + 4) :=
    readU32Be_congr h.length_eq (hword 4 le_rfl)
  have hstored := h.stored i hi
  unfold tableRecord readRecord at hstored ⊢
  simp only [DensoRecord.withStored, DensoRecord.mk.injEq]
  exact ⟨hstart, hstop, hstored⟩

/-- A corrected table that was right before is the same table. -/
theorem eq_of_verifies (h : Corrects base spec rom rom') (hin : TableInRom base rom.length spec)
    (hv : TableVerifies base rom spec) : rom' = rom := by
  apply List.ext_getElem?
  intro k
  by_cases hk : StoredByte base spec k
  · obtain ⟨i, hi, hle, hlt⟩ := hk
    have hpos := (recordPosition_add_le hin hi).2
    have hword : readU32Be rom' (recordPosition (tableStart base spec) i + 8) =
        readU32Be rom (recordPosition (tableStart base spec) i + 8) :=
      (h.stored i hi).trans (hv i hi).2.symm
    unfold recordLength at hlt hpos
    obtain ⟨b, rfl⟩ := Nat.exists_eq_add_of_le hle
    have hlen := h.length_eq
    rw [← beBytes_readU32Be (l := rom) (by omega) b (by omega),
      ← beBytes_readU32Be (l := rom') (by omega) b (by omega), hword]
  · exact h.frame k hk

end Corrects

/-- **The outcomes of a run.**  A failure has a reason and changes nothing; a table that is switched
off stays as it is; any other table is corrected, and the outcome says whether that made a
difference. -/
theorem correctDensoTable_cases (base : FlashAddress) (spec : DensoTableSpec)
    (hsize : rom.length < 2 ^ 32) :
    (¬ (TableInRom base rom.length spec ∧ BlocksInRom base rom spec) ∧
      ∃ o, failureOf o ≠ none ∧ correctDensoTable base rom spec = (o, rom)) ∨
    (TableInRom base rom.length spec ∧ SwitchedOff base rom spec ∧
      correctDensoTable base rom spec = (.disabled, rom)) ∨
    (TableInRom base rom.length spec ∧ BlocksInRom base rom spec ∧
      ¬ SwitchedOff base rom spec ∧ ∃ rom', Corrects base spec rom rom' ∧
        correctDensoTable base rom spec = (if rom' = rom then .unchanged else .corrected, rom')) := by
  unfold correctDensoTable
  split_ifs with hmod
  · exact .inl ⟨fun h => hmod h.1.length_mod, _, by simp [failureOf], rfl⟩
  · have hmod' := not_not.1 hmod
    cases hp : tablePosition base rom.length spec with
    | none =>
      refine .inl ⟨fun h => ?_, _, by simp [failureOf], rfl⟩
      have := tablePosition_eq_some_iff.2 ⟨h.1.base_le, rfl, h.1.fits⟩
      rw [hp] at this
      cases this
    | some p =>
      obtain ⟨hle, rfl, hfits⟩ := tablePosition_eq_some_iff.1 hp
      have hin : TableInRom base rom.length spec := ⟨hmod', hle, hfits⟩
      simp only
      obtain ⟨acc, hok, hacc⟩ | ⟨i, hi, o, he, herr⟩ :=
        correctRecords_cases base rom spec (tableStart base spec) spec.records
      · have hall : ∀ i < spec.records, ¬ (i = 0 ∧ SwitchedOff base rom spec) ∧
            (tableRecord base rom spec i).InRom base rom.length ∧
            expectedStored base rom spec (tableStart base spec) i =
              .ok ((tableRecord base rom spec i).expected base rom spec.overrides) := by
          intro i hi
          obtain ⟨e, he, -⟩ := hacc.records i hi
          obtain ⟨-, -, h⟩ | ⟨hoff, ⟨h, hexp⟩ | ⟨-, o, -, h⟩⟩ := expectedStored_cases base hsize hi
          · rw [he] at h; cases h
          · exact ⟨hoff, h, hexp⟩
          · rw [he] at h; cases h
        have hcorr := corrects_overwrite hin hacc fun i hi => (hall i hi).2.2
        refine .inr (.inr ⟨hin, fun i hi => (hall i hi).2.1,
          fun hoff => (hall 0 hoff.2.1).1 ⟨rfl, hoff⟩, ?_⟩)
        have hfit : tableStart base spec + acc.1.length ≤ rom.length := by
          rw [hacc.length_eq, recordLength_mul_records hin.length_mod]
          exact hfits
        have hsame : acc.2 = false ↔ overwrite rom (tableStart base spec) acc.1 = rom := by
          rw [hacc.changed_iff]
          constructor
          · intro h
            refine hcorr.eq_of_verifies hin fun i hi => ⟨(hall i hi).2.1, ?_⟩
            exact Except.ok.inj ((h i hi).symm.trans (hall i hi).2.2)
          · intro h i hi
            rw [(hall i hi).2.2, ← hcorr.stored i hi, h]
            rfl
        refine ⟨_, hcorr, ?_⟩
        rw [hok]
        simp only [← hsame, Bool.not_eq_true', overwriteAt_eq hfit]
        split_ifs with hchanged
        · rw [hsame.1 hchanged]
        · rfl
      · rw [herr]
        obtain ⟨-, hoff, h⟩ | ⟨-, ⟨-, h⟩ | ⟨hnot, o', ho', h⟩⟩ :=
          expectedStored_cases base hsize hi
        · rw [he] at h
          cases h
          exact .inr (.inl ⟨hin, hoff, rfl⟩)
        · rw [he] at h; cases h
        · rw [he] at h
          cases h
          exact .inl ⟨fun hb => hnot (hb.2 i hi), o, ho', rfl⟩

/-- No block of the table covers a byte of a stored word of the table. -/
def StoredUncovered (base : FlashAddress) (rom : Bytes) (spec : DensoTableSpec) : Prop :=
  ∀ i < spec.records, ∀ k, StoredByte base spec k → ¬ (tableRecord base rom spec i).Covers base k

/-- A record verifies on any ROM that agrees on its three words and its block. -/
theorem verifies_congr (hlen : rom.length = rom'.length) {i : ℕ}
    (hr : tableRecord base rom spec i = tableRecord base rom' spec i)
    (hblock : ∀ k, (tableRecord base rom spec i).Covers base k → rom[k]? = rom'[k]?)
    (h : (tableRecord base rom spec i).InRom base rom.length ∧
      (tableRecord base rom spec i).stored =
        (tableRecord base rom spec i).expected base rom spec.overrides) :
    (tableRecord base rom' spec i).InRom base rom'.length ∧
      (tableRecord base rom' spec i).stored =
        (tableRecord base rom' spec i).expected base rom' spec.overrides := by
  rw [← hr, ← hlen]
  refine ⟨h.1, h.2.trans ?_⟩
  unfold DensoRecord.expected
  rw [blockSum_congr hlen h.1 hblock]

/-- A corrected table verifies, when no block covers a word that was corrected. -/
theorem Corrects.verifies (h : Corrects base spec rom rom') (hblocks : BlocksInRom base rom spec)
    (hunc : StoredUncovered base rom spec) : TableVerifies base rom' spec := by
  intro i hi
  have hr := hblocks i hi
  have hsum : blockSum rom base spec.overrides (tableRecord base rom spec i) =
      blockSum rom' base spec.overrides (tableRecord base rom spec i) :=
    blockSum_congr h.length_eq.symm hr fun k hk =>
      (h.frame k fun hs => hunc i hi k hs hk).symm
  rw [h.tableRecord_eq hi, h.length_eq]
  refine ⟨⟨hr.accepted, hr.base_le, hr.stop_lt⟩, ?_⟩
  rw [withStored_stored, withStored_expected, DensoRecord.expected, DensoRecord.expected, hsum]

theorem TableVerifies.blocksInRom (h : TableVerifies base rom spec) : BlocksInRom base rom spec :=
  fun i hi => (h i hi).1

/-- A table that verifies is left alone. -/
theorem correctDensoTable_of_verifies (hsize : rom.length < 2 ^ 32)
    (hin : TableInRom base rom.length spec) (hv : TableVerifies base rom spec) :
    correctDensoTable base rom spec =
      (if SwitchedOff base rom spec then .disabled else .unchanged, rom) := by
  obtain ⟨hnot, -⟩ | ⟨-, hoff, hrun⟩ | ⟨-, -, hoff, rom', hcorr, hrun⟩ :=
    correctDensoTable_cases base spec hsize
  · exact absurd ⟨hin, hv.blocksInRom⟩ hnot
  · rw [hrun, if_pos hoff]
  · obtain rfl := hcorr.eq_of_verifies hin hv
    rw [hrun, if_neg hoff, if_pos rfl]

/-- A block that passes the checks lies in the ROM, and so does every word of it that is read. -/
theorem block_reads_in_rom {start stop : UInt32} (hsize : rom.length < 2 ^ 32)
    (hacc : ecuAcceptsBlock start stop = true) (hne : start ≠ stop)
    (hstart : ¬ start < UInt32.ofNat base.value)
    (hstop : ¬ (stop - UInt32.ofNat base.value).toNat ≥ rom.length) :
    (start - UInt32.ofNat base.value).toNat + (stop - start + 1).toNat ≤ rom.length ∧
      (stop - start + 1).toNat = stop.toNat - start.toNat + 1 ∧
      ∀ offset ∈ wordOffsets (stop - start + 1).toNat, offset + 4 ≤ (stop - start + 1).toNat := by
  have hle := (ecuAcceptsBlock_iff.1 hacc).2.1
  rw [UInt32.lt_iff_toNat_lt, toNat_base, not_lt] at hstart
  rw [UInt32.toNat_sub_of_le _ _ (UInt32.le_iff_toNat_le.2 (by rw [toNat_base]; omega)),
    toNat_base] at hstop
  have hr : DensoRecord.InRom ⟨start, stop, 0⟩ base rom.length :=
    ⟨hacc, fun _ => hstart, fun _ => by simpa using hstop⟩
  obtain ⟨hoff, hlt, hmod, hfit⟩ := hr.span hne
  simp only at hoff hlt hmod hfit
  have hcount := toNat_blockSize hle (by omega)
  rw [hcount]
  refine ⟨?_, rfl, ?_⟩
  · rw [hoff]
    exact hfit
  · intro offset ho
    simp only [wordOffsets, List.mem_map, List.mem_range] at ho
    obtain ⟨k, hk, rfl⟩ := ho
    omega

end Tables

/-- A record whose block is the word of four zero bytes after it, not yet corrected. -/
def shortRom : Bytes := DensoRecord.bytes ⟨12, 15, 0⟩ ++ [0, 0, 0, 1]

/-- The table of one record at the start of the address space. -/
def firstRecord : DensoTableSpec := { tableAddress := ⟨0, u32Size_pos⟩, tableLength := 12 }

/-- A ROM of `2 ^ 32` bytes whose first record names all of them: the number of bytes of that block
is 0 as a 32-bit word. -/
@[irreducible] def fullRom : Bytes :=
  DensoRecord.bytes ⟨0, 0xFFFFFFFF, checksumTarget⟩ ++ List.replicate (2 ^ 32 - 12) 0

theorem length_fullRom : fullRom.length = 2 ^ 32 := by
  rw [fullRom, List.length_append, List.length_replicate, length_bytes]
  rfl

theorem readRecord_fullRom : readRecord fullRom 0 = ⟨0, 0xFFFFFFFF, checksumTarget⟩ := by
  unfold readRecord fullRom
  rw [readU32Be_append_left (by decide), readU32Be_append_left (by decide),
    readU32Be_append_left (by decide)]
  decide +kernel

theorem readU32Be_fullRom_of_le {offset : ℕ} (h : 12 ≤ offset) (hlt : offset + 4 ≤ 2 ^ 32) :
    readU32Be fullRom offset = 0 := by
  rw [readU32Be_eq_iff (by rwa [length_fullRom])]
  intro i hi
  unfold fullRom
  rw [List.getElem?_append_right (by rw [length_bytes, recordLength]; omega), length_bytes,
    List.getElem?_replicate, if_pos (by unfold recordLength; omega)]
  match i, hi with
  | 0, _ => rfl
  | 1, _ => rfl
  | 2, _ => rfl
  | 3, _ => rfl

theorem sum_map_eq_zero {l : List ℕ} {f : ℕ → UInt32} (h : ∀ k ∈ l, f k = 0) :
    (l.map f).sum = 0 := by
  induction l with
  | nil => rfl
  | cons k l ih =>
    rw [List.map_cons, List.sum_cons, h k List.mem_cons_self,
      ih fun j hj => h j (List.mem_cons_of_mem k hj)]
    rfl

/-- Only the first three words of the ROM count. -/
theorem blockSum_fullRom :
    blockSum fullRom ⟨0, by decide⟩ [] ⟨0, 0xFFFFFFFF, checksumTarget⟩ = 0x5AA5A559 := by
  have hword : ∀ k, blockWord fullRom ⟨0, by decide⟩ [] ((0 : UInt32).toNat + 4 * k) =
      readU32Be fullRom (4 * k) := by
    intro k
    simp [blockWord]
  have hr := readRecord_fullRom
  simp only [readRecord, DensoRecord.mk.injEq] at hr
  obtain ⟨h₀, h₁, h₂⟩ := hr
  have hzero : ((List.range (2 ^ 30 - 3)).map fun k => readU32Be fullRom (4 * (3 + k))).sum = 0 :=
    sum_map_eq_zero fun k hk => by
      rw [List.mem_range] at hk
      exact readU32Be_fullRom_of_le (by omega) (by omega)
  rw [blockSum, if_neg (by decide)]
  simp only [hword]
  rw [show ((0xFFFFFFFF : UInt32).toNat - (0 : UInt32).toNat + 1) / 4 = 3 + (2 ^ 30 - 3) from rfl,
    List.range_add, List.map_append, List.sum_append, List.map_map]
  change ((List.range 3).map fun k => readU32Be fullRom (4 * k)).sum +
    ((List.range (2 ^ 30 - 3)).map fun k => readU32Be fullRom (4 * (3 + k))).sum = _
  rw [hzero]
  simp only [show List.range 3 = [0, 1, 2] from rfl, List.map_cons, List.map_nil, List.sum_cons,
    List.sum_nil, Nat.mul_zero, Nat.mul_one, h₀, h₁, h₂, show 4 * 2 = 8 from rfl]
  decide

theorem sumBlock_fullRom : sumBlock fullRom 0 0 0xFFFFFFFF [] = .ok 0 := by
  unfold sumBlock
  rw [if_neg (by decide), if_neg (by decide), if_neg (by rw [length_fullRom]; decide),
    show ((0xFFFFFFFF : UInt32) - 0 + 1).toNat = 0 from rfl, subspan, List.take_zero]
  rfl

theorem expectedStored_fullRom :
    expectedStored ⟨0, by decide⟩ fullRom firstRecord 0 0 = .ok checksumTarget := by
  have hr : readRecord fullRom (recordPosition 0 0) = ⟨0, 0xFFFFFFFF, checksumTarget⟩ :=
    readRecord_fullRom
  have hne : ((⟨0, 0xFFFFFFFF, checksumTarget⟩ : DensoRecord) == disabledRecord) = false := by
    decide
  have hsum : sumBlock fullRom (UInt32.ofNat 0) 0 0xFFFFFFFF firstRecord.overrides = .ok 0 :=
    sumBlock_fullRom
  unfold expectedStored
  simp only [hr, hne, hsum, Bool.and_false, Bool.false_eq_true, if_false]
  rw [UInt32.sub_zero]

/-- A run over a table of one record that is found right. -/
theorem correctDensoTable_of_one_record {base : FlashAddress} {rom : Bytes} {spec : DensoTableSpec}
    {p : ℕ} (hlength : spec.tableLength = 12) (hpos : tablePosition base rom.length spec = some p)
    (hstored : expectedStored base rom spec p 0 =
      .ok (readRecord rom (recordPosition p 0)).stored) :
    correctDensoTable base rom spec = (.unchanged, rom) := by
  have hrecords : spec.records = 1 := by
    rw [DensoTableSpec.records, hlength]
    rfl
  unfold correctDensoTable
  rw [hlength, if_neg (by decide), hpos, hrecords]
  simp only [correctRecords, show List.range 1 = [0] from rfl, List.foldlM_cons, List.foldlM_nil,
    correctRecord, hstored, bne_self_eq_false, Bool.or_false]
  rfl

end FastEcu.Checksum
