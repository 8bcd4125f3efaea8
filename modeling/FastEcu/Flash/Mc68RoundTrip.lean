import FastEcu.Flash.Mc68Kline

/-!
# The round trip of the MC68HC16Y5_02 executor

A ROM file that is written and read back, and the addresses that the requests are about.

* `readMem_readAnswers` : a read of an ECU that answers gives its flash.
* `RoundTrip` : what writes and reads do with a file.
* `mc68_round_trip` : every file of the size of the ROM makes the round trip.
-/

namespace FastEcu.Flash.Beef.Mc68

open Calibration (ErrorKind)
open Data Computation Ports
open DensoKline
open Memory (MemoryImage AddressRange FlashAddress)
open DensoIso15765 (EcuMemory bytesAt length_bytesAt)

/-! ### An ECU that answers -/

section Answers

variable (flash : EcuMemory)

/-- The answer to a call that succeeds and brings nothing. -/
def calm : KlineAnswer := {}

/-- The answers to an exchange that is not disturbed. -/
def exchangeAnswers (request : Bytes) (settle : ℤ) (reply : Option Bytes) : List KlineAnswer :=
  [calm, { written := .ok request.length }, calm] ++ ((if 0 < settle then [calm] else []) ++
    [calm, { frame := .ok reply }, calm])

/-- The reply with a page. -/
def pageReply (address : UInt32) : Bytes :=
  let body := [0xBE, 0xEF, 0x04, 0x01, 0x43] ++ bytesAt flash address readPageSize
  body ++ [Logging.sum8 body]

/-- The answers to one turn of the page loop. -/
def pageAnswers (address : UInt32) : List KlineAnswer :=
  [calm] ++ (exchangeAnswers (klineFrame (readRequest address)) 10 (some (pageReply flash address)) ++
    [calm])

/-- The answers of the ECU to a read. -/
def readAnswers : List KlineAnswer :=
  (readAddresses FlashDevice.mc68hc16y5.fblocks FlashDevice.mc68hc16y5.romsize).flatMap (pageAnswers flash)

variable {flash}

theorem checkCancelled_returns (detail : String) (rest : List KlineAnswer) :
    Returns (Kline.checkCancelled detail) (calm :: rest) () rest :=
  Returns.bind (.ask rfl rest) (.pure () rest)

theorem exchangeOptional_returns (request : Bytes) (settle timeout : ℤ) (reply : Option Bytes)
    (rest : List KlineAnswer) : Returns (exchangeOptional request settle timeout)
      (exchangeAnswers request settle reply ++ rest) reply rest := by
  have hwrite : ∀ rest, Returns (Kline.writeAll request) ({ written := .ok request.length } :: rest) ()
      rest := by
    intro rest
    refine Returns.bind (.ask rfl rest) ?_
    rw [if_neg (not_not.2 rfl)]
    exact .pure () rest
  have hread : ∀ rest, Returns (do
      Kline.checkCancelled "cancelled before read"
      let received ← Kline.read timeout
      Kline.checkCancelled "cancelled after read"
      pure received : KlineCalls (Option Bytes)) (calm :: { frame := .ok reply } :: calm :: rest) reply
      rest :=
    fun rest => (checkCancelled_returns _ _).bind
      (Returns.bind (.ask rfl _) ((checkCancelled_returns _ _).bind (.pure reply rest)))
  refine Returns.bind (checkCancelled_returns _ _) ?_
  refine Returns.bind (hwrite _) ?_
  refine Returns.bind (checkCancelled_returns _ _) ?_
  by_cases hsettle : 0 < settle
  · rw [if_pos hsettle, when, if_pos (decide_eq_true hsettle)]
    exact Returns.bind (.ask rfl _) (hread rest)
  · rw [if_neg hsettle, when, if_neg (by simpa using hsettle)]
    exact Returns.bind (.pure () _) (hread rest)

theorem subspan_middle (before middle after : Bytes) :
    subspan (before ++ middle ++ after) before.length middle.length = middle := by
  rw [subspan, List.append_assoc, List.drop_left, List.take_left]

theorem pageOf_pageReply (address : UInt32) :
    pageOf (some (pageReply flash address)) = .ok (bytesAt flash address readPageSize) := by
  have hlength := length_bytesAt flash address readPageSize
  have hreply : (pageReply flash address).length = readPageSize + 6 := by
    simp only [pageReply, List.length_append, List.length_cons, List.length_nil, hlength]
    omega
  have hmarker : readU16Be (pageReply flash address) 0 = 0xBEEF := by
    have hfits : fitsAt (pageReply flash address) 0 2 = true := by
      rw [fitsAt_iff, hreply]
      decide
    rw [readU16Be, if_pos hfits]
    exact (show wordBe16 0xBE 0xEF = 0xBEEF by decide)
  have hok : responseOk (pageReply flash address) (BeefOp.readArea.byte ||| 0x40) = true := by
    rw [responseOk, hreply, hmarker]
    exact (show (decide (5 < readPageSize + 6) && (0xBEEF : UInt16) == 0xBEEF && (0x43 : Byte) == 0x43) = true
      by decide)
  rw [pageOf, if_neg (by rw [hreply, hok]; simp)]
  have hpage := subspan_middle [0xBE, 0xEF, 0x04, 0x01, 0x43] (bytesAt flash address readPageSize)
    [Logging.sum8 ([0xBE, 0xEF, 0x04, 0x01, 0x43] ++ bytesAt flash address readPageSize)]
  rw [hlength] at hpage
  exact congrArg Except.ok hpage

theorem readPage_yields (address : UInt32) (rest : List KlineAnswer) : ∃ xs,
    Yields (readPage address) (pageAnswers flash address ++ rest) (bytesAt flash address readPageSize) xs
      rest := by
  have hexchange : Returns (do
      let response ← exchangeOptional (klineFrame (readRequest address)) 10 3000
      ofExcept (pageOf response) : KlineCalls Bytes)
      (exchangeAnswers (klineFrame (readRequest address)) 10 (some (pageReply flash address)) ++
        (calm :: rest)) (bytesAt flash address readPageSize) (calm :: rest) := by
    refine Returns.bind (exchangeOptional_returns _ _ _ _ _) ?_
    rw [pageOf_pageReply]
    exact .pure _ _
  rw [pageAnswers, List.append_assoc, List.append_assoc]
  exact ⟨_, Yields.bind (.outside (checkCancelled_returns _ _)) (Yields.bind (.nest hexchange)
    (Yields.bind (.outside (.ask rfl rest)) (.pure _ rest)))⟩

theorem readPages_yields (addresses : List UInt32) (rest : List KlineAnswer) : ∃ xs,
    Yields (readPages addresses) (addresses.flatMap (pageAnswers flash) ++ rest)
      (addresses.flatMap fun address => bytesAt flash address readPageSize) xs rest := by
  induction addresses with
  | nil => exact ⟨[], .pure [] rest⟩
  | cons address addresses ih =>
    obtain ⟨xs, hpage⟩ := @readPage_yields flash address (addresses.flatMap (pageAnswers flash) ++ rest)
    obtain ⟨ys, hpages⟩ := ih
    rw [List.flatMap_cons, List.flatMap_cons, List.append_assoc]
    exact ⟨_, hpage.bind (hpages.bind (.pure _ rest))⟩

theorem readBlocks_yields {blocks : List MemoryRegion} {remaining : ℕ}
    (hpositive : ∀ block ∈ blocks, 0 < block.length.toNat)
    (haligned : ∀ block ∈ blocks, block.length.toNat % readPageSize = 0)
    (h : (blocks.map fun block => block.length.toNat).sum = remaining) (rest : List KlineAnswer) : ∃ xs,
    Yields (readBlocks blocks remaining)
      ((readAddresses blocks remaining).flatMap (pageAnswers flash) ++ rest)
      ((readAddresses blocks remaining).flatMap fun address => bytesAt flash address readPageSize) xs
      rest := by
  induction blocks generalizing remaining with
  | nil => exact ⟨[], .pure [] rest⟩
  | cons block blocks ih =>
    have hblock := hpositive block (List.mem_cons_self ..)
    rw [List.map_cons, List.sum_cons] at h
    have hmin : min block.length.toNat remaining = block.length.toNat := Nat.min_eq_left (by omega)
    obtain ⟨ys, hblocks⟩ := @ih (remaining - block.length.toNat)
      (fun b hb => hpositive b (List.mem_cons_of_mem _ hb))
      (fun b hb => haligned b (List.mem_cons_of_mem _ hb)) (by omega)
    obtain ⟨xs, hpages⟩ := @readPages_yields flash (pageAddresses block.start block.length.toNat)
      ((readAddresses blocks (remaining - block.length.toNat)).flatMap (pageAnswers flash) ++ rest)
    have hne : remaining ≠ 0 := by omega
    rw [readBlocks, readAddresses, if_neg hne, if_neg hne, hmin,
      if_neg (not_not.2 (haligned block (List.mem_cons_self ..))), List.flatMap_append,
      List.flatMap_append, List.append_assoc]
    exact ⟨_, hpages.bind (hblocks.bind (.pure _ rest))⟩

/-- **A read of an ECU that answers gives its flash.** -/
theorem readMem_readAnswers {file : Bytes} (hsize : file.length = 160 * 1024)
    (hflash : ∀ block ∈ FlashDevice.mc68hc16y5.fblocks,
      bytesAt flash block.start block.length.toNat =
        subspan file (fileOffset block) block.length.toNat) :
    (readMem FlashDevice.mc68hc16y5 (readAnswers flash)).result = .ok file := by
  obtain ⟨xs, hblocks⟩ := @readBlocks_yields flash FlashDevice.mc68hc16y5.fblocks
    FlashDevice.mc68hc16y5.romsize FlashDevice.mc68hc16y5_regular.positive (by decide) (by decide) []
  rw [flatMap_readAddresses hsize hflash, List.append_nil] at hblocks
  have hread : Yields (readMem FlashDevice.mc68hc16y5) (readAnswers flash) file (xs ++ []) [] := by
    refine Yields.bind hblocks ?_
    rw [if_neg (show ¬ file.length ≠ FlashDevice.mc68hc16y5.romsize from not_not.2 hsize)]
    exact .pure file []
  exact hread.1.1

end Answers

/-! ### Addresses -/

section Addresses

variable {image : MemoryImage} {addressed : Bytes} {testWrite : Bool} {a : UInt32}

/-- A part of a block has addresses of the block only. -/
theorem has_of_part {block : MemoryRegion} (hlt : block.start.toNat + block.length.toNat < 2 ^ 32)
    {offset : ℕ} {count : UInt32} (h : offset + count.toNat ≤ block.length.toNat)
    (ha : (⟨block.start + UInt32.ofNat offset, count⟩ : MemoryRegion).Has a) : block.Has a := by
  have hstart : (block.start + UInt32.ofNat offset).toNat = block.start.toNat + offset := by
    rw [UInt32.toNat_add, UInt32.toNat_ofNat']
    omega
  have hends : (block.start + UInt32.ofNat offset).toNat + count.toNat ≤ 2 ^ 32 := by
    rw [hstart]
    omega
  have hpart := (MemoryRegion.has_iff hends).1 ha
  rw [hstart] at hpart
  rw [MemoryRegion.has_iff (by omega)]
  simp only at hpart
  omega

theorem covers_chunkRequest {blocks : List MemoryRegion} {address : UInt32} {chunk : Bytes}
    (h : chunk.length = chunkSize) (ha : Covers blocks (chunkRequest address chunk) a) :
    (⟨address, 0x200⟩ : MemoryRegion).Has a := by
  have hregion : (⟨readU32Be (beBytes address ++ chunk) 0,
      UInt32.ofNat ((beBytes address ++ chunk).length - 4)⟩ : MemoryRegion).Has a := ha
  rw [readU32Be_beBytes_append, List.length_append, h] at hregion
  exact hregion

theorem covers_commitRequest {blocks : List MemoryRegion} {address crc : UInt32}
    (ha : Covers blocks (commitRequest testWrite address crc) a) :
    (⟨address, 0x1000⟩ : MemoryRegion).Has a := by
  have hregion : (⟨readU32Be (beBytes address ++ (beBytes16 0x1000 ++ beBytes crc)) 0,
      (readU16Be (beBytes address ++ (beBytes16 0x1000 ++ beBytes crc)) 4).toUInt32⟩ :
      MemoryRegion).Has a := by
    cases testWrite with
    | false => exact ha
    | true => exact ha
  rw [readU32Be_beBytes_append, readU16Be_commit] at hregion
  exact hregion

/-- What is sent for a block is about addresses of the flash. -/
theorem covers_program {block : MemoryRegion} (hmem : block ∈ FlashDevice.mc68hc16y5.fblocks)
    (hlength : addressed.length = 0x30000) {r : BeefRequest} (hr : r ∈ program addressed testWrite block)
    (ha : Covers FlashDevice.mc68hc16y5.fblocks r a) :
    ∃ b ∈ FlashDevice.mc68hc16y5.fblocks, b.Has a := by
  have hshort := FlashDevice.mc68hc16y5_regular.short block hmem
  have hlt : block.start.toNat + block.length.toNat < 2 ^ 32 := hshort.trans (by decide)
  rcases List.mem_cons.1 hr with rfl | hr
  · exact ha.elim
  · by_cases hrepresented : represented addressed block = true
    · rw [if_pos hrepresented] at hr
      rcases List.mem_append.1 hr with hr | hr
      · -- an erase clears a block of the device
        cases testWrite with
        | true => exact absurd hr List.not_mem_nil
        | false =>
          rw [List.mem_singleton.1 hr] at ha
          obtain ⟨b, hb, -, hhas⟩ := ha
          exact ⟨b, hb, hhas⟩
      · refine ⟨block, hmem, ?_⟩
        rcases mem_chunkProgram hr with ⟨offset, hoffset, rfl⟩ | ⟨offset, hoffset, rfl⟩
        · have haddress : (block.start + UInt32.ofNat offset).toNat = block.start.toNat + offset := by
            rw [UInt32.toNat_add, UInt32.toNat_ofNat']
            omega
          have hchunk : (subspan addressed (block.start + UInt32.ofNat offset).toNat chunkSize).length =
              chunkSize := by
            refine length_subspan ?_
            rw [haddress, hlength]
            rcases mc68_block_bounds block hmem with hlow | ⟨-, hhigh⟩ <;> omega
          exact @has_of_part a block hlt offset 0x200 hoffset (covers_chunkRequest hchunk ha)
        · exact @has_of_part a block hlt offset 0x1000 hoffset (covers_commitRequest ha)
    · rw [if_neg hrepresented] at hr
      exact absurd hr List.not_mem_nil

theorem covers_crcRequest {block : MemoryRegion} (hmem : block ∈ FlashDevice.mc68hc16y5.fblocks)
    (ha : Covers FlashDevice.mc68hc16y5.fblocks (crcRequest block) a) : block.Has a := by
  have hregion : (⟨readU32Be (crcRequest block).payload 0, readU24Be (crcRequest block).payload 5⟩ :
      MemoryRegion).Has a := ha
  have hshort := FlashDevice.mc68hc16y5_regular.short block hmem
  rw [readU24Be_crcRequest (by omega), crcRequest, readU32Be_beBytes_append] at hregion
  exact hregion

theorem covers_readRequest {blocks : List MemoryRegion} {address : UInt32}
    (h : address.toNat < 2 ^ 24) (ha : Covers blocks (readRequest address) a) :
    (⟨address, 0x400⟩ : MemoryRegion).Has a := by
  have hcount : readU16Be (readRequest address).payload 4 = 0x400 :=
    (show wordBe16 (byteOf 0x400 8) (byteOf 0x400 0) = 0x400 by decide)
  have hstart : readU24Be (readRequest address).payload 1 = address := wordBe24_byteOf h
  have hregion : (⟨readU24Be (readRequest address).payload 1,
      (readU16Be (readRequest address).payload 4).toUInt32⟩ : MemoryRegion).Has a := ha
  rw [hcount, hstart] at hregion
  exact hregion

/-- A page of a block has addresses of the block only. -/
theorem covers_pageAddresses {block : MemoryRegion} (hmem : block ∈ FlashDevice.mc68hc16y5.fblocks)
    {address : UInt32} (haddress : address ∈ pageAddresses block.start block.length.toNat)
    (ha : Covers FlashDevice.mc68hc16y5.fblocks (readRequest address) a) : block.Has a := by
  have hshort := FlashDevice.mc68hc16y5_regular.short block hmem
  obtain ⟨i, hi, rfl⟩ := List.mem_map.1 haddress
  have hlt := List.mem_range.1 hi
  have hpage : readPageSize * i + readPageSize ≤ block.length.toNat := by
    simp only [readPageSize] at hlt ⊢
    omega
  have hstart : (block.start + UInt32.ofNat (readPageSize * i)).toNat < 2 ^ 24 := by
    rw [UInt32.toNat_add, UInt32.toNat_ofNat']
    omega
  exact @has_of_part a block (by omega) (readPageSize * i) 0x400 hpage (covers_readRequest hstart ha)

/-- **What a write sends is never about the RAM.** -/
theorem writeMem_apart (h : image.map.blocks = Memory.mc68PackedBlocks) (script : List KlineAnswer)
    {r : BeefRequest}
    (hr : r ∈ requests (exchanges (writeMem FlashDevice.mc68hc16y5 image testWrite script).events))
    (ha : Covers FlashDevice.mc68hc16y5.fblocks r a) : ¬ ramBlockMC68HC16Y5.Has a := by
  obtain ⟨addressed, haddressed, hlength, -⟩ := addressedImage_mc68 h
  have hwrites := @writeMem_meets image addressed testWrite FlashDevice.mc68hc16y5 (by decide) haddressed script
  obtain ⟨changed, hsublist, hpart⟩ := hwrites.part
  have hcrc : r ∈ FlashDevice.mc68hc16y5.fblocks.map crcRequest →
      ∃ b ∈ FlashDevice.mc68hc16y5.fblocks, b.Has a := by
    intro hr
    obtain ⟨block, hmem, rfl⟩ := List.mem_map.1 hr
    exact ⟨block, hmem, covers_crcRequest hmem ha⟩
  have hinit : ∀ r ∈ initProgram testWrite, ¬ Covers FlashDevice.mc68hc16y5.fblocks r a := by
    intro r hr hcovers
    simp only [initProgram, List.mem_cons, List.not_mem_nil, or_false] at hr
    cases testWrite <;> rcases hr with rfl | rfl | rfl <;> exact hcovers
  have hblock : ∃ b ∈ FlashDevice.mc68hc16y5.fblocks, b.Has a := by
    rcases List.mem_append.1 (hpart.subset hr) with hr | hr
    · exact hcrc hr
    · rcases List.mem_append.1 hr with hr | hr
      · exact absurd ha (hinit r hr)
      · rcases List.mem_append.1 hr with hr | hr
        · obtain ⟨block, hchanged, hr⟩ := List.mem_flatMap.1 hr
          exact covers_program (hsublist.subset hchanged) hlength hr ha
        · exact hcrc hr
  obtain ⟨b, hb, hhas⟩ := hblock
  exact fun hram => FlashDevice.mc68hc16y5_ram hb a ⟨hhas, hram⟩

/-- **A read never asks for the RAM.** -/
theorem readMem_apart (script : List KlineAnswer) {r : BeefRequest}
    (hr : r ∈ requests (exchanges (readMem FlashDevice.mc68hc16y5 script).events))
    (ha : Covers FlashDevice.mc68hc16y5.fblocks r a) : ¬ ramBlockMC68HC16Y5.Has a := by
  have hpart := (readMem_meets FlashDevice.mc68hc16y5 script).part
  rw [readAddresses_mc68] at hpart
  obtain ⟨address, haddress, rfl⟩ := List.mem_map.1 (hpart.subset hr)
  obtain ⟨block, hmem, haddress⟩ := List.mem_flatMap.1 haddress
  exact fun hram => FlashDevice.mc68hc16y5_ram hmem a ⟨covers_pageAddresses hmem haddress ha, hram⟩

end Addresses

/-! ### The round trip -/

section RoundTrip

variable {file : Bytes} {image : MemoryImage}

/-- What is sent for a block of the device: the part of the file for it. -/
def fileProgram (file : Bytes) (testWrite : Bool) (block : MemoryRegion) : List BeefRequest :=
  blockProgram testWrite (!testWrite) block (subspan file (fileOffset block) block.length.toNat)

/-- **What a write sends: the blocks that differ, with the bytes of the file.** -/
theorem writeMem_sent (h : image.map.blocks = Memory.mc68PackedBlocks) (testWrite : Bool)
    (script : List KlineAnswer) :
    ∃ changed : List MemoryRegion, changed.Sublist FlashDevice.mc68hc16y5.fblocks ∧
      requests (exchanges (writeMem FlashDevice.mc68hc16y5 image testWrite script).events) <+:
        FlashDevice.mc68hc16y5.fblocks.map crcRequest ++ (initProgram testWrite ++
          (changed.flatMap (fileProgram image.file testWrite) ++
            FlashDevice.mc68hc16y5.fblocks.map crcRequest)) := by
  obtain ⟨addressed, haddressed, hlength, hbytes⟩ := addressedImage_mc68 h
  have hregular := FlashDevice.mc68hc16y5_regular
  have hwrites := @writeMem_meets image addressed testWrite FlashDevice.mc68hc16y5 (by decide) haddressed script
  obtain ⟨changed, hsublist, hpart⟩ := hwrites.part
  have hprogram : changed.flatMap (program addressed testWrite) =
      changed.flatMap (fileProgram image.file testWrite) := by
    refine List.flatMap_congr fun block hchanged => ?_
    have hmem := hsublist.subset hchanged
    have hfits : block.start.toNat + block.length.toNat ≤ addressed.length := by
      rw [hlength]
      rcases mc68_block_bounds block hmem with hlow | ⟨-, hhigh⟩
      · omega
      · exact hhigh
    rw [program_eq ((hregular.short block hmem).trans (by decide)) hfits (hregular.aligned block hmem),
      slice_addressedImage h hbytes hmem, fileProgram]
  rw [hprogram] at hpart
  exact ⟨changed, hsublist, hpart⟩

/-- What writes and reads do with a ROM file and its image. -/
structure RoundTrip (file : Bytes) (image : MemoryImage) : Prop where
  /-- The part of the file for a block is what the map places at the addresses of the block. -/
  places : ∀ block ∈ FlashDevice.mc68hc16y5.fblocks, ∀ i < block.length.toNat, ∀ a : FlashAddress,
    a.value = block.start.toNat + i → image.map.place a = some (fileOffset block + i)
  /-- A write sends nothing but the parts of the file for the blocks. -/
  sent : ∀ (testWrite : Bool) (script : List KlineAnswer),
    ∃ changed : List MemoryRegion, changed.Sublist FlashDevice.mc68hc16y5.fblocks ∧
      requests (exchanges (writeMem FlashDevice.mc68hc16y5 image testWrite script).events) <+:
        FlashDevice.mc68hc16y5.fblocks.map crcRequest ++ (initProgram testWrite ++
          (changed.flatMap (fileProgram file testWrite) ++
            FlashDevice.mc68hc16y5.fblocks.map crcRequest))
  /-- No request of a write or a read is about the RAM between the blocks. -/
  hole : ∀ script : List KlineAnswer, ∀ r, (∃ testWrite, r ∈ requests (exchanges
      (writeMem FlashDevice.mc68hc16y5 image testWrite script).events)) ∨
      r ∈ requests (exchanges (readMem FlashDevice.mc68hc16y5 script).events) →
    ∀ a, Covers FlashDevice.mc68hc16y5.fblocks r a → ¬ ramBlockMC68HC16Y5.Has a
  /-- What is read after a write that succeeded is the file, and an ECU that answers is read. -/
  readBack : ∀ (ecu : BeefEcu) (script : List KlineAnswer),
    ecu.blocks = FlashDevice.mc68hc16y5.fblocks → Distinguishes ecu.flash file →
    (writeMem FlashDevice.mc68hc16y5 image false script).result = .ok () →
    AnswersCrc reportedCrc ecu
      (exchanges (writeMem FlashDevice.mc68hc16y5 image false script).events) →
    ∀ flash, flash = (ecu.after (exchanges
      (writeMem FlashDevice.mc68hc16y5 image false script).events)).flash →
    (readMem FlashDevice.mc68hc16y5 (readAnswers flash)).result = .ok file ∧
      ∀ script' bytes, (readMem FlashDevice.mc68hc16y5 script').result = .ok bytes →
        AnswersRead flash (exchanges (readMem FlashDevice.mc68hc16y5 script').events) → bytes = file

/-- An image of the packed map makes the round trip. -/
theorem roundTrip_of_blocks (hsize : image.file.length = 160 * 1024)
    (h : image.map.blocks = Memory.mc68PackedBlocks) : RoundTrip image.file image where
  places := by
    rintro block hmem i hi ⟨value, hlt⟩ rfl
    exact place_mc68 h hmem hi hlt
  sent := writeMem_sent h
  hole := by
    rintro script r (⟨testWrite, hr⟩ | hr) a ha
    · exact writeMem_apart h script hr ha
    · exact readMem_apart script hr ha
  readBack := by
    rintro ecu script hblocks hdistinct hok hanswers flash rfl
    have hflash : ∀ block ∈ FlashDevice.mc68hc16y5.fblocks, bytesAt (ecu.after (exchanges
        (writeMem FlashDevice.mc68hc16y5 image false script).events)).flash block.start
          block.length.toNat = subspan image.file (fileOffset block) block.length.toNat :=
      fun block hmem => writeMem_flash h hblocks hdistinct hok hanswers hmem
    refine ⟨readMem_readAnswers hsize hflash, fun script' bytes hread hhonest => ?_⟩
    rw [(readMem_meets _ script').bytes bytes hread _ hhonest, flatMap_readAddresses hsize hflash]

end RoundTrip

/-! ### Tests -/

section Harmless

theorem expectKernelAlive_harmless : Emits Harmless Unit expectKernelAlive :=
  Emits.compositional.bind (changeBaud_harmless _) fun _ =>
    Emits.compositional.bind requestKernelId_harmless fun _ =>
    Compositional.ite (Emits.compositional.fail _)
      (Compositional.ite (Emits.compositional.fail _) (Emits.compositional.pure ()))

theorem connectBootloader_harmless (wire : WireParams) :
    Emits Harmless Bool (connectBootloader wire) := by
  refine Emits.compositional.bind (checkCancelled_harmless _) fun _ =>
    Emits.compositional.bind (sleep_harmless _) fun _ =>
    Emits.compositional.bind (outside_harmless (guarded_silent (pulseLec2Line_silent _) _)) fun _ =>
    Emits.compositional.bind (sleep_harmless _) fun _ =>
    Emits.compositional.bind (exchangeOptional_harmless (by decide) _ _) fun response =>
    Compositional.ite (Emits.compositional.pure false) ?_
  exact Emits.compositional.bind (sleep_harmless _) fun _ =>
    Emits.compositional.bind (outside_harmless (guarded_silent disableLecLines_silent _)) fun _ =>
    Emits.compositional.bind expectKernelAlive_harmless fun _ => Emits.compositional.pure true

theorem uploadKernel_harmless (wire : WireParams) (kernel : KernelImage) :
    Emits Harmless Unit (uploadKernel wire kernel) := by
  refine Emits.compositional.bind (checkCancelled_harmless _) fun _ =>
    Compositional.ite (Emits.compositional.fail _) ?_
  refine Emits.compositional.bind (changeBaud_harmless _) fun _ =>
    Emits.compositional.bind (exchangeOptional_harmless ?_ _ _) fun _ =>
    Compositional.ite (Emits.compositional.fail _) ?_
  · exact (show (0x53 : Byte) ≠ 0xBE by decide)
  · exact Emits.compositional.bind (sleep_harmless _) fun _ => expectKernelAlive_harmless

theorem readCrcContinuation_silent (response : Bytes) :
    Silent KlineEvent.data? Bytes (readCrcContinuation response) := by
  have hreads : ∀ tries response, Silent KlineEvent.data? Bytes (crcReads tries response) := by
    intro tries
    induction tries with
    | zero => exact fun response => Emits.compositional.pure response
    | succ tries ih =>
      intro response
      unfold crcReads
      refine Compositional.ite (Emits.compositional.pure response) ?_
      exact Emits.compositional.bind (checkCancelled_silent _) fun _ =>
        Emits.compositional.bind (read_silent _) fun _ =>
        Emits.compositional.bind (sleep_silent _) fun _ => ih _
  exact hreads 20 response

theorem writeMem_harmless (device : FlashDevice) (image : MemoryImage) :
    Emits Harmless Unit (writeMem device image true) :=
  Compositional.ite (Emits.compositional.fail _)
    (Emits.compositional.bind (ofExcept_harmless _) fun addressed =>
      writeChangedBlocks_harmless readCrcContinuation_silent (checkAck .crc "CRC check" 9) reportedCrc
        addressed missing device.fblocks 0 3000)

/-- **A session that tests a write never enables, commits or erases the flash.** -/
theorem run_harmless {plan : Plan} (h : plan.operation = .testWrite) :
    Emits Harmless (Option Bytes) (run plan) := by
  unfold run
  rw [h]
  refine Emits.compositional.bind (outside_harmless disableLecLines_silent) fun _ =>
    Emits.compositional.bind (checkCancelled_harmless _) fun _ =>
    Emits.compositional.bind (drain_harmless _ _) fun _ =>
    Emits.compositional.bind (connectBootloader_harmless _) fun connected =>
    Emits.compositional.bind (Emits.compositional.when _ ?_) fun _ => ?_
  · cases plan.kernel with
    | none => exact Emits.compositional.fail _
    | some kernel => exact uploadKernel_harmless _ kernel
  · cases plan.romImage with
    | none => exact Emits.compositional.fail _
    | some image =>
      exact Emits.compositional.bind (writeMem_harmless _ image) fun _ => Emits.compositional.pure _

end Harmless

/-! ### A flash that has the file already -/

section Unchanged

variable {flash : EcuMemory} {file addressed : Bytes} {image : MemoryImage}

/-- The reply with a CRC. -/
def crcReplyOf (crc : UInt32) : Bytes :=
  let body := [0xBE, 0xEF, 0x00, 0x05, 0x42] ++ beBytes crc
  body ++ [Logging.sum8 body]

/-- The reply with the CRC of a block. -/
def crcReply (flash : EcuMemory) (block : MemoryRegion) : Bytes :=
  crcReplyOf (crc32 (bytesAt flash block.start block.length.toNat))

/-- The answers to the comparison of a block. -/
def compareAnswers (flash : EcuMemory) (block : MemoryRegion) : List KlineAnswer :=
  [calm] ++ (exchangeAnswers (klineFrame (crcRequest block)) 0 (some (crcReply flash block)) ++
    [calm, calm, calm])

theorem checkAck_crcReplyOf (crc : UInt32) :
    checkAck .crc "CRC check" 9 (crcReplyOf crc) = .ok (crcReplyOf crc) := by
  have hlength : (crcReplyOf crc).length = 10 := rfl
  have hmarker : readU16Be (crcReplyOf crc) 0 = 0xBEEF :=
    (show wordBe16 0xBE 0xEF = 0xBEEF by decide)
  have hok : responseOk (crcReplyOf crc) (BeefOp.crc.byte ||| 0x40) = true := by
    rw [responseOk, hlength, hmarker]
    exact (show (decide (5 < 10) && (0xBEEF : UInt16) == 0xBEEF && (0x42 : Byte) == 0x42) = true by decide)
  rw [checkAck, if_neg (by rw [hlength, hok]; simp)]

theorem reportedCrc_crcReplyOf (crc : UInt32) : reportedCrc (crcReplyOf crc) = crc := wordBe_byteOf crc

theorem drain_returns (timeout : ℤ) (detail : String) (rest : List KlineAnswer) :
    Returns (Kline.drain timeout detail) (calm :: calm :: calm :: rest) () rest :=
  (checkCancelled_returns _ _).bind (Returns.bind (Returns.bind (.ask rfl _) (.pure () _))
    (checkCancelled_returns _ _))

/-- A block that is as in the image does not differ. -/
theorem compareBlock_yields {block : MemoryRegion}
    (h : bytesAt flash block.start block.length.toNat = slice addressed block)
    (rest : List KlineAnswer) :
    Yields (compareBlock addressed readBlockCrc block) (compareAnswers flash block ++ rest) false
      [⟨crcRequest block, .ok (crcReply flash block)⟩] rest := by
  have hexchange : Returns (do
      let first ← exchangeOptional (klineFrame (crcRequest block)) 0 3000
      let response ← readCrcContinuation (first.getD [])
      ofExcept (checkAck .crc "CRC check" 9 response) : KlineCalls Bytes)
      (exchangeAnswers (klineFrame (crcRequest block)) 0 (some (crcReply flash block)) ++
        (calm :: calm :: calm :: rest)) (crcReply flash block) (calm :: calm :: calm :: rest) := by
    refine Returns.bind (exchangeOptional_returns _ _ _ _ _) (Returns.bind (.pure _ _) ?_)
    exact (checkAck_crcReplyOf _).symm ▸ Returns.pure _ _
  have hdiffers : decide (reportedCrc (crcReply flash block) ≠ crc32 (slice addressed block)) = false := by
    rw [crcReply, reportedCrc_crcReplyOf, h]
    simp
  have hread : Yields (readBlockCrc block)
      (exchangeAnswers (klineFrame (crcRequest block)) 0 (some (crcReply flash block)) ++
        (calm :: calm :: calm :: rest)) (reportedCrc (crcReply flash block))
      [⟨crcRequest block, .ok (crcReply flash block)⟩] rest :=
    Yields.bind (.nest hexchange) (Yields.bind (.outside (drain_returns _ _ _)) (.pure _ rest))
  rw [compareAnswers, List.append_assoc, List.append_assoc]
  have hpure : Yields (pure (decide (reportedCrc (crcReply flash block) ≠ crc32 (slice addressed block))) :
      KlineRun Bool) rest false [] rest := by
    rw [hdiffers]
    exact .pure false rest
  exact Yields.bind (.outside (checkCancelled_returns _ _)) (Yields.bind hread hpure)

theorem compareBlocks_yields {blocks : List MemoryRegion}
    (h : ∀ block ∈ blocks, bytesAt flash block.start block.length.toNat = slice addressed block)
    (rest : List KlineAnswer) :
    Yields (compareBlocks addressed blocks readBlockCrc) (blocks.flatMap (compareAnswers flash) ++ rest)
      [] (blocks.map fun block => ⟨crcRequest block, .ok (crcReply flash block)⟩) rest := by
  induction blocks with
  | nil => exact .pure [] rest
  | cons block blocks ih =>
    have hblocks := ih fun b hb => h b (List.mem_cons_of_mem _ hb)
    have hlast := hblocks.bind (f := fun changed => pure (if false = true then block :: changed else changed))
      (.pure _ rest)
    rw [List.append_nil] at hlast
    rw [List.flatMap_cons, List.append_assoc, List.map_cons, ← List.singleton_append]
    exact (compareBlock_yields (h block (List.mem_cons_self ..)) _).bind hlast

/-- The answers to a write that finds no difference. -/
def unchangedAnswers (flash : EcuMemory) : List KlineAnswer :=
  FlashDevice.mc68hc16y5.fblocks.flatMap (compareAnswers flash) ++ [calm, calm, calm]

/-- **A write to a flash that has the file already succeeds, and only asks for CRCs.** -/
theorem writeMem_unchanged (h : image.map.blocks = Memory.mc68PackedBlocks)
    (hflash : ∀ block ∈ FlashDevice.mc68hc16y5.fblocks,
      bytesAt flash block.start block.length.toNat =
        subspan image.file (fileOffset block) block.length.toNat) :
    Yields (writeMem FlashDevice.mc68hc16y5 image false) (unchangedAnswers flash) ()
      (FlashDevice.mc68hc16y5.fblocks.map fun block => ⟨crcRequest block, .ok (crcReply flash block)⟩)
      [] := by
  obtain ⟨addressed, haddressed, -, hbytes⟩ := addressedImage_mc68 h
  have hslices : ∀ block ∈ FlashDevice.mc68hc16y5.fblocks,
      bytesAt flash block.start block.length.toNat = slice addressed block := by
    intro block hmem
    rw [hflash block hmem, slice_addressedImage h hbytes hmem]
  have hvoltage : Yields enableProgrammingVoltage [calm, calm, calm] () [] [] :=
    .outside ((checkCancelled_returns _ _).bind (Returns.bind (.ask rfl _) (checkCancelled_returns _ _)))
  rw [writeMem, if_neg (by decide), haddressed, ofExcept_ok_bind, ← List.append_nil (List.map _ _)]
  exact (compareBlocks_yields hslices _).bind (hvoltage.bind (.pure () []))

/-- The CRCs that the replies report are those of the flash. -/
theorem answersCrc_unchanged {ecu : BeefEcu} :
    AnswersCrc reportedCrc ecu (FlashDevice.mc68hc16y5.fblocks.map fun block =>
      ⟨crcRequest block, .ok (crcReply ecu.flash block)⟩) := by
  intro before request reply after hsplit _
  have hasked : ∀ x ∈ before, ∃ block, x.request = crcRequest block := by
    intro x hx
    have hmem := List.mem_append_left (⟨request, .ok reply⟩ :: after) hx
    rw [← hsplit] at hmem
    obtain ⟨block, -, rfl⟩ := List.mem_map.1 hmem
    exact ⟨block, rfl⟩
  have hafter : ecu.after before = ecu := by
    clear hsplit
    induction before with
    | nil => rfl
    | cons x before ih =>
      obtain ⟨block, hblock⟩ := hasked x (List.mem_cons_self ..)
      have hreceive : ecu.receive x.request = ecu := by
        rw [hblock]
        rfl
      have hrest := ih fun y hy => hasked y (List.mem_cons_of_mem _ hy)
      show (ecu.receive x.request).after before = ecu
      rw [hreceive, hrest]
  have hmem := List.mem_append_right before (List.mem_cons_self (a := ⟨request, .ok reply⟩) (l := after))
  rw [← hsplit] at hmem
  obtain ⟨block, hblock, heq⟩ := List.mem_map.1 hmem
  obtain ⟨rfl, hreply⟩ := BeefExchange.mk.inj heq
  have hshort := FlashDevice.mc68hc16y5_regular.short block hblock
  have hcrc : ecu.crcOf (crcRequest block).payload =
      crc32 (bytesAt ecu.flash block.start block.length.toNat) := crcOf_crcRequest ecu (by omega)
  rw [hafter, hcrc, ← Except.ok.inj hreply, crcReply, reportedCrc_crcReplyOf]

end Unchanged

end FastEcu.Flash.Beef.Mc68
