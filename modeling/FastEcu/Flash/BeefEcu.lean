import FastEcu.Flash.BeefTrace
import FastEcu.Flash.DensoIso15765

/-!
# A simulated BEEF ECU

What the kernel does with the requests: a chunk goes into a buffer of one window, a commit copies the
window when its CRC is the one of the request, and an erase clears the block that starts at its address,
both only while flashing is enabled.

* `BeefEcu`, `BeefEcu.receive` : the ECU.
* `AnswersCrc` : the CRCs it reports are those of its flash.
* `blockProgram` : what is sent for a block.
* `foldl_blockProgram` : the program of a block puts its data into the flash and changes nothing else.
* `foldl_writeProgram` : the same of all blocks that changed.
-/

namespace FastEcu.Flash

namespace Beef

open Data Computation Ports
open DensoIso15765 (EcuMemory store bytesAt length_bytesAt store_of_lt store_of_le)

/-! ### The ECU -/

/-- The ECU: its flash with the blocks that an erase clears, and the buffer of one window, in which an
address has the place of its last twelve bits. -/
structure BeefEcu where
  blocks : List MemoryRegion
  flash : EcuMemory
  buffer : EcuMemory
  enabled : Bool

/-- The place of an address in the buffer. -/
def slot (a : UInt32) : UInt32 := a % 0x1000

/-- The buffer with a chunk at an address. -/
def fillBuffer (buffer : EcuMemory) (address : UInt32) (chunk : Bytes) : EcuMemory :=
  fun place => chunk.getD (slot (place - address)).toNat (buffer place)

/-- The bytes of the buffer from an address. -/
def buffered (buffer : EcuMemory) (address : UInt32) (count : ℕ) : Bytes :=
  (List.range count).map fun i => buffer (slot (address + UInt32.ofNat i))

/-- The flash with the blocks that start at an address cleared. -/
def eraseAt (blocks : List MemoryRegion) (flash : EcuMemory) (start : UInt32) : EcuMemory :=
  fun a => if ∃ block ∈ blocks, block.start = start ∧ block.Has a then 0xFF else flash a

namespace BeefEcu

variable (ecu : BeefEcu)

/-- What a request does to the ECU. -/
def receive (request : BeefRequest) : BeefEcu :=
  match request.op with
  | .flashEnable => { ecu with enabled := true }
  | .flashDisable => { ecu with enabled := false }
  | .writeFlashBuffer =>
    { ecu with buffer := fillBuffer ecu.buffer (readU32Be request.payload 0) (request.payload.drop 4) }
  | .commitFlashBuffer =>
    let address := readU32Be request.payload 0
    let window := buffered ecu.buffer address (readU16Be request.payload 4).toNat
    if ecu.enabled ∧ crc32 window = readU32Be request.payload 6 then
      { ecu with flash := store ecu.flash address window }
    else ecu
  | .blankPage =>
    if ecu.enabled then
      { ecu with flash := eraseAt ecu.blocks ecu.flash (readU32Be request.payload 0) }
    else ecu
  | _ => ecu

/-- The CRC of the range that a request asks for. -/
def crcOf (payload : Bytes) : UInt32 :=
  crc32 (bytesAt ecu.flash (readU32Be payload 0) (readU24Be payload 5).toNat)

/-- The ECU after the requests of exchanges that it has taken. -/
def after (xs : List BeefExchange) : BeefEcu := (requests xs).foldl receive ecu

end BeefEcu

/-- A request is about an address: its byte is asked for, read, sent, committed or erased. -/
def Covers (blocks : List MemoryRegion) (request : BeefRequest) (a : UInt32) : Prop :=
  match request.op with
  | .crc => (⟨readU32Be request.payload 0, readU24Be request.payload 5⟩ : MemoryRegion).Has a
  | .readArea =>
    (⟨readU24Be request.payload 1, (readU16Be request.payload 4).toUInt32⟩ : MemoryRegion).Has a
  | .writeFlashBuffer =>
    (⟨readU32Be request.payload 0, UInt32.ofNat (request.payload.length - 4)⟩ : MemoryRegion).Has a
  | .validateFlashBuffer =>
    (⟨readU32Be request.payload 0, (readU16Be request.payload 4).toUInt32⟩ : MemoryRegion).Has a
  | .commitFlashBuffer =>
    (⟨readU32Be request.payload 0, (readU16Be request.payload 4).toUInt32⟩ : MemoryRegion).Has a
  | .blankPage => ∃ block ∈ blocks, block.start = readU32Be request.payload 0 ∧ block.Has a
  | _ => False

/-- Each CRC that the ECU reports is the one of its flash at that time. -/
def AnswersCrc (reported : Bytes → UInt32) (ecu : BeefEcu) (xs : List BeefExchange) : Prop :=
  ∀ before request reply after, xs = before ++ ⟨request, .ok reply⟩ :: after → request.op = .crc →
    reported reply = (ecu.after before).crcOf request.payload

/-- What is sent for a block: the programming voltage is queried, the block is erased, and its data are
sent and committed. -/
def blockProgram (testWrite erases : Bool) (block : MemoryRegion) (data : Bytes) : List BeefRequest :=
  ⟨.progVolt, []⟩ :: ((if erases then [eraseRequest block.start] else []) ++
    chunkProgram block.length.toNat
      (fun offset => chunkRequest (block.start + UInt32.ofNat offset) (subspan data offset chunkSize))
      fun offset => commitRequest testWrite (block.start + UInt32.ofNat offset)
        (crc32 (subspan data offset commitSize)))

/-! ### The buffer -/

section Buffer

variable {data : Bytes} {address : UInt32} {offset : ℕ}

/-- The chunks of a window, as they are stored. -/
def fillChunks (buffer : EcuMemory) (address : UInt32) (data : Bytes) (offset n : ℕ) : EcuMemory :=
  (List.range n).foldl (fun buffer j => fillBuffer buffer (address + UInt32.ofNat (chunkSize * j))
    (subspan data (offset + chunkSize * j) chunkSize)) buffer

theorem slot_sub (address : UInt32) {i j : ℕ} (hi : i < 4096) (hj : j < 8) :
    (slot (slot (address + UInt32.ofNat i) - (address + UInt32.ofNat (chunkSize * j)))).toNat =
      if 512 * j ≤ i then i - 512 * j else i + 4096 - 512 * j := by
  have h4096 : (0x1000 : UInt32).toNat = 4096 := rfl
  have haddress := address.toNat_lt
  simp only [slot, chunkSize, UInt32.toNat_mod, UInt32.toNat_sub, UInt32.toNat_add,
    UInt32.toNat_ofNat', h4096]
  split <;> omega

/-- The buffer after the first chunks of a window. -/
theorem fillChunks_slot {n : ℕ} (hn : n ≤ 8) (hfits : offset + chunkSize * n ≤ data.length)
    (buffer : EcuMemory) {i : ℕ} (hi : i < chunkSize * n) :
    fillChunks buffer address data offset n (slot (address + UInt32.ofNat i)) =
      byteAt data (offset + i) := by
  induction n with
  | zero => simp at hi
  | succ n ih =>
    have hchunk : chunkSize = 512 := rfl
    have hlength : (subspan data (offset + chunkSize * n) chunkSize).length = 512 :=
      length_subspan (by rw [Nat.mul_succ] at hfits; omega)
    have hslot := slot_sub address (i := i) (j := n) (by rw [hchunk] at hi; omega) (by omega)
    rw [fillChunks, List.range_succ, List.foldl_append, List.foldl_cons, List.foldl_nil, fillBuffer,
      hslot]
    by_cases hlast : 512 * n ≤ i
    · -- the byte is in the chunk that was stored last
      rw [if_pos hlast, List.getD_eq_getElem _ _ (by rw [hlength]; rw [hchunk] at hi; omega)]
      have hbyte : byteAt (subspan data (offset + chunkSize * n) chunkSize) (i - 512 * n) =
          byteAt data (offset + chunkSize * n + (i - 512 * n)) :=
        byteAt_subspan (by rw [hchunk] at hi ⊢; omega)
      rw [byteAt, List.getD_eq_getElem _ _ (by rw [hlength]; rw [hchunk] at hi; omega)] at hbyte
      rw [hbyte, hchunk]
      congr 1
      omega
    · rw [if_neg hlast, List.getD_eq_default _ _ (by rw [hlength]; omega)]
      exact ih (by omega) (by rw [Nat.mul_succ] at hfits; omega) (by rw [hchunk]; omega)

/-- The buffer holds the window once its chunks are stored. -/
theorem buffered_fillChunks (hfits : offset + commitSize ≤ data.length) (buffer : EcuMemory) :
    buffered (fillChunks buffer address data offset 8) address commitSize =
      subspan data offset commitSize := by
  have hlength := length_subspan hfits
  refine List.ext_getElem (by rw [hlength, buffered, List.length_map, List.length_range]) ?_
  intro i hi hi'
  rw [hlength] at hi'
  have hslot := @fillChunks_slot data address offset 8 (le_refl 8) hfits buffer i hi'
  have hbyte : byteAt (subspan data offset commitSize) i = byteAt data (offset + i) :=
    byteAt_subspan hi'
  rw [byteAt, List.getD_eq_getElem _ _ (by rw [hlength]; exact hi')] at hbyte
  simp only [buffered, List.getElem_map, List.getElem_range]
  rw [hslot, hbyte]

end Buffer

/-! ### Requests -/

section Receive

variable (ecu : BeefEcu)

/-- A request for a CRC changes nothing. -/
theorem foldl_crc {rs : List BeefRequest} (h : ∀ r ∈ rs, r.op = .crc) :
    rs.foldl BeefEcu.receive ecu = ecu := by
  induction rs with
  | nil => rfl
  | cons r rs ih =>
    have hr : ecu.receive r = ecu := by simp only [BeefEcu.receive, h r (List.mem_cons_self ..)]
    rw [List.foldl_cons, hr]
    exact ih fun r hr => h r (List.mem_cons_of_mem _ hr)

theorem crc_of_mem {blocks : List MemoryRegion} {r : BeefRequest} (h : r ∈ blocks.map crcRequest) :
    r.op = .crc := by
  obtain ⟨block, -, rfl⟩ := List.mem_map.1 h
  rfl

theorem foldl_init : (initProgram false).foldl BeefEcu.receive ecu = { ecu with enabled := true } := rfl

theorem receive_erase (start : UInt32) (h : ecu.enabled = true) :
    ecu.receive (eraseRequest start) = { ecu with flash := eraseAt ecu.blocks ecu.flash start } := by
  have hstart := readU32Be_beBytes_append start []
  rw [List.append_nil] at hstart
  simp only [BeefEcu.receive, eraseRequest, h, if_true, hstart]

theorem receive_chunk (address : UInt32) (chunk : Bytes) : ecu.receive (chunkRequest address chunk) =
    { ecu with buffer := fillBuffer ecu.buffer address chunk } := by
  simp only [BeefEcu.receive, chunkRequest, readU32Be_beBytes_append]
  rfl

/-- The length in a commit is the one of a window. -/
theorem readU16Be_commit (address crc : UInt32) :
    readU16Be (beBytes address ++ (beBytes16 0x1000 ++ beBytes crc)) 4 = 0x1000 :=
  (show wordBe16 (byteOf 0x1000 8) (byteOf 0x1000 0) = 0x1000 by decide)

/-- The fields of a commit are read back. -/
theorem receive_commit (address crc : UInt32) (h : ecu.enabled = true)
    (hcrc : crc32 (buffered ecu.buffer address commitSize) = crc) :
    ecu.receive (commitRequest false address crc) =
      { ecu with flash := store ecu.flash address (buffered ecu.buffer address commitSize) } := by
  have hcount : (readU16Be (beBytes address ++ (beBytes16 0x1000 ++ beBytes crc)) 4).toNat =
      commitSize := congrArg UInt16.toNat (readU16Be_commit address crc)
  have hread : readU32Be (beBytes address ++ (beBytes16 0x1000 ++ beBytes crc)) 6 = crc :=
    wordBe_byteOf crc
  simp only [BeefEcu.receive, commitRequest, Bool.false_eq_true, if_false, readU32Be_beBytes_append,
    hcount, hread]
  rw [if_pos ⟨h, hcrc⟩]

/-- The length in a request for a CRC is the one of the block. -/
theorem readU24Be_crcRequest {block : MemoryRegion} (h : block.length.toNat < 2 ^ 24) :
    readU24Be (crcRequest block).payload 5 = block.length :=
  wordBe24_byteOf h

/-- The CRC that a comparison asks for is that of the block. -/
theorem crcOf_crcRequest {block : MemoryRegion} (h : block.length.toNat < 2 ^ 24) :
    ecu.crcOf (crcRequest block).payload =
      crc32 (bytesAt ecu.flash block.start block.length.toNat) := by
  rw [BeefEcu.crcOf, readU24Be_crcRequest h, crcRequest, readU32Be_beBytes_append]

end Receive

/-! ### Windows -/

section Window

variable {data : Bytes} {block : MemoryRegion}

/-- The chunks of a window go into the buffer. -/
theorem foldl_chunks (ecu : BeefEcu) (address : UInt32) (data : Bytes) (offset n : ℕ) :
    ((List.range n).map fun j => chunkRequest (address + UInt32.ofNat (chunkSize * j))
      (subspan data (offset + chunkSize * j) chunkSize)).foldl BeefEcu.receive ecu =
      { ecu with buffer := fillChunks ecu.buffer address data offset n } := by
  induction n with
  | zero => rfl
  | succ n ih =>
    rw [List.range_succ, List.map_append, List.foldl_append, ih, List.map_singleton, List.foldl_cons,
      List.foldl_nil, receive_chunk, fillChunks, fillChunks, List.range_succ, List.foldl_append]
    rfl

/-- A window that was sent and committed is in the flash. -/
theorem foldl_window (ecu : BeefEcu) (henabled : ecu.enabled = true) {k : ℕ}
    (hfits : commitSize * k + commitSize ≤ data.length) : ∃ buffer,
    (windowProgram
      (fun offset => chunkRequest (block.start + UInt32.ofNat offset) (subspan data offset chunkSize))
      (fun offset => commitRequest false (block.start + UInt32.ofNat offset)
        (crc32 (subspan data offset commitSize))) k).foldl BeefEcu.receive ecu =
      { ecu with
        flash := store ecu.flash (block.start + UInt32.ofNat (commitSize * k))
          (subspan data (commitSize * k) commitSize)
        buffer } := by
  have haddress : ∀ j, block.start + UInt32.ofNat (commitSize * k + chunkSize * j) =
      block.start + UInt32.ofNat (commitSize * k) + UInt32.ofNat (chunkSize * j) := by
    intro j
    rw [UInt32.ofNat_add, UInt32.add_assoc]
  have hbuffered := @buffered_fillChunks data (block.start + UInt32.ofNat (commitSize * k)) _ hfits
    ecu.buffer
  refine ⟨fillChunks ecu.buffer (block.start + UInt32.ofNat (commitSize * k)) data (commitSize * k) 8, ?_⟩
  rw [windowProgram, List.foldl_append]
  simp only [haddress]
  rw [foldl_chunks, List.foldl_cons, List.foldl_nil]
  generalize fillChunks ecu.buffer (block.start + UInt32.ofNat (commitSize * k)) data (commitSize * k) 8 =
    buffer at hbuffered ⊢
  have hcommit := receive_commit { ecu with buffer } (block.start + UInt32.ofNat (commitSize * k))
    (crc32 (subspan data (commitSize * k) commitSize)) henabled (congrArg crc32 hbuffered)
  rwa [hbuffered] at hcommit

/-- The flash after the first windows of a block. -/
theorem foldl_windows (ecu : BeefEcu) (henabled : ecu.enabled = true) {n : ℕ}
    (hfits : commitSize * n ≤ data.length) (hn : commitSize * n < 2 ^ 32) : ∃ buffer,
    ((List.range n).flatMap (windowProgram
      (fun offset => chunkRequest (block.start + UInt32.ofNat offset) (subspan data offset chunkSize))
      fun offset => commitRequest false (block.start + UInt32.ofNat offset)
        (crc32 (subspan data offset commitSize)))).foldl BeefEcu.receive ecu =
      { ecu with
        flash := fun a => if (a - block.start).toNat < commitSize * n then
          byteAt data (a - block.start).toNat else ecu.flash a
        buffer } := by
  induction n with
  | zero => exact ⟨ecu.buffer, by simp⟩
  | succ n ih =>
    have hsize : commitSize = 4096 := rfl
    rw [Nat.mul_succ] at hfits hn
    obtain ⟨buffer, hprevious⟩ := ih (by omega) (by omega)
    rw [List.range_succ, List.flatMap_append, List.foldl_append, hprevious, List.flatMap_singleton]
    obtain ⟨buffer', hwindow⟩ := @foldl_window data block
      { ecu with
        flash := fun a => if (a - block.start).toNat < commitSize * n then
          byteAt data (a - block.start).toNat else ecu.flash a
        buffer } henabled n hfits
    refine ⟨buffer', ?_⟩
    rw [hwindow, Nat.mul_succ]
    simp only [BeefEcu.mk.injEq, true_and, and_true]
    funext a
    have hlength := length_subspan hfits
    have hdistance : (a - (block.start + UInt32.ofNat (commitSize * n))).toNat =
        ((a - block.start).toNat + (2 ^ 32 - commitSize * n)) % 2 ^ 32 := by
      have ha := a.toNat_lt
      have hstart := block.start.toNat_lt
      simp only [UInt32.toNat_sub, UInt32.toNat_add, UInt32.toNat_ofNat', hsize] at hn ⊢
      omega
    have hlt := (a - block.start).toNat_lt
    by_cases hlast : (a - (block.start + UInt32.ofNat (commitSize * n))).toNat < commitSize
    · -- the address is in the window that was committed last
      rw [store_of_lt (by rw [hlength]; exact hlast), byteAt_subspan hlast, if_pos (by omega)]
      congr 1
      omega
    · rw [store_of_le (by rw [hlength]; exact Nat.le_of_not_lt hlast)]
      by_cases hbefore : (a - block.start).toNat < commitSize * n
      · rw [if_pos hbefore, if_pos (by omega)]
      · rw [if_neg hbefore, if_neg (by omega)]

end Window

/-! ### Blocks -/

section Blocks

variable {block : MemoryRegion} {blocks changed : List MemoryRegion}

/-- The block that an erase clears is one of blocks that are apart, so nothing else is cleared. -/
theorem eraseAt_of_not_has {flash : EcuMemory} {a : UInt32} (hapart : blocks.Pairwise MemoryRegion.Apart)
    (hmem : block ∈ blocks) (hlength : 0 < block.length.toNat) (ha : ¬ block.Has a) :
    eraseAt blocks flash block.start a = flash a := by
  rw [eraseAt, if_neg]
  rintro ⟨other, hother, hstart, hhas⟩
  have hotherLength : 0 < other.length.toNat := Nat.lt_of_le_of_lt (Nat.zero_le _) hhas
  by_cases heq : other = block
  · exact ha (heq ▸ hhas)
  · -- both regions have their common start
    refine hapart.forall hother hmem heq block.start ⟨?_, MemoryRegion.has_start hlength⟩
    rw [← hstart]
    exact MemoryRegion.has_start hotherLength

/-- The data of a block at an address, and what the memory has elsewhere. -/
def putBlock (flash : EcuMemory) (block : MemoryRegion) (data : Bytes) : EcuMemory :=
  fun a => if block.Has a then byteAt data (a - block.start).toNat else flash a

/-- **The program of a block puts its data into the flash and changes nothing else.** -/
theorem foldl_blockProgram {data : Bytes} (ecu : BeefEcu) (henabled : ecu.enabled = true)
    (hapart : ecu.blocks.Pairwise MemoryRegion.Apart) (hmem : block ∈ ecu.blocks)
    (hpositive : 0 < block.length.toNat) (haligned : block.length.toNat % commitSize = 0)
    (hdata : data.length = block.length.toNat) : ∃ buffer,
    (blockProgram false true block data).foldl BeefEcu.receive ecu =
      { ecu with flash := putBlock ecu.flash block data, buffer } := by
  have hlt := block.length.toNat_lt
  obtain ⟨n, hn⟩ := Nat.dvd_of_mod_eq_zero haligned
  obtain ⟨buffer, hwindows⟩ := @foldl_windows data block
    { ecu with flash := eraseAt ecu.blocks ecu.flash block.start } henabled n
    (by rw [hdata, hn]) (by rw [← hn]; exact hlt)
  refine ⟨buffer, ?_⟩
  rw [blockProgram, if_pos rfl, List.foldl_cons, List.singleton_append, List.foldl_cons,
    chunkProgram_eq hn]
  have hvolt : ecu.receive ⟨.progVolt, []⟩ = ecu := rfl
  rw [hvolt, receive_erase _ _ henabled, hwindows, ← hn]
  simp only [BeefEcu.mk.injEq, true_and, and_true]
  funext a
  rw [putBlock]
  by_cases ha : block.Has a
  · rw [if_pos ha, if_pos (show (a - block.start).toNat < block.length.toNat from ha)]
  · rw [if_neg ha, if_neg (show ¬ (a - block.start).toNat < block.length.toNat from ha)]
    exact eraseAt_of_not_has hapart hmem hpositive ha

/-- The flash with the data of blocks. -/
def putBlocks (flash : EcuMemory) (blocks : List MemoryRegion) (data : MemoryRegion → Bytes) :
    EcuMemory :=
  blocks.foldl (fun flash block => putBlock flash block (data block)) flash

/-- **The programs of the blocks that changed.** -/
theorem foldl_blockPrograms {data : MemoryRegion → Bytes} (ecu : BeefEcu) (henabled : ecu.enabled = true)
    (hapart : ecu.blocks.Pairwise MemoryRegion.Apart)
    (hblocks : ∀ block ∈ changed, block ∈ ecu.blocks ∧ 0 < block.length.toNat ∧
      block.length.toNat % commitSize = 0 ∧ (data block).length = block.length.toNat) : ∃ buffer,
    (changed.flatMap fun block => blockProgram false true block (data block)).foldl BeefEcu.receive ecu =
      { ecu with flash := putBlocks ecu.flash changed data, buffer } := by
  induction changed generalizing ecu with
  | nil => exact ⟨ecu.buffer, rfl⟩
  | cons block changed ih =>
    obtain ⟨hmem, hpositive, haligned, hdata⟩ := hblocks block (List.mem_cons_self ..)
    obtain ⟨buffer, hblock⟩ := foldl_blockProgram ecu henabled hapart hmem hpositive haligned hdata
    rw [List.flatMap_cons, List.foldl_append, hblock]
    exact ih { ecu with flash := putBlock ecu.flash block (data block), buffer } henabled hapart
      fun b hb => hblocks b (List.mem_cons_of_mem _ hb)

/-- An address in none of the blocks keeps its byte. -/
theorem putBlocks_of_not_has {flash : EcuMemory} {data : MemoryRegion → Bytes} {a : UInt32}
    (h : ∀ block ∈ blocks, ¬ block.Has a) : putBlocks flash blocks data a = flash a := by
  induction blocks generalizing flash with
  | nil => rfl
  | cons block blocks ih =>
    rw [putBlocks, List.foldl_cons]
    refine (ih fun b hb => h b (List.mem_cons_of_mem _ hb)).trans ?_
    rw [putBlock, if_neg (h block (List.mem_cons_self ..))]

/-- An address in one of the blocks has the byte of its data. -/
theorem putBlocks_of_has {flash : EcuMemory} {data : MemoryRegion → Bytes} {a : UInt32}
    (hapart : blocks.Pairwise MemoryRegion.Apart) (hmem : block ∈ blocks) (ha : block.Has a) :
    putBlocks flash blocks data a = byteAt (data block) (a - block.start).toNat := by
  induction blocks generalizing flash with
  | nil => simp at hmem
  | cons first blocks ih =>
    obtain ⟨hfirst, hrest⟩ := List.pairwise_cons.1 hapart
    rw [putBlocks, List.foldl_cons]
    rcases List.mem_cons.1 hmem with rfl | hmem
    · -- the blocks after it leave the address alone
      refine (putBlocks_of_not_has fun b hb hhas => hfirst b hb a ⟨ha, hhas⟩).trans ?_
      rw [putBlock, if_pos ha]
    · exact ih hrest hmem

/-- What the flash has at the block is its data. -/
theorem bytesAt_putBlocks {flash : EcuMemory} {data : MemoryRegion → Bytes}
    (hapart : blocks.Pairwise MemoryRegion.Apart) (hmem : block ∈ blocks)
    (hdata : (data block).length = block.length.toNat) :
    bytesAt (putBlocks flash blocks data) block.start block.length.toNat = data block := by
  have hlt := block.length.toNat_lt
  refine List.ext_getElem (by rw [length_bytesAt, hdata]) ?_
  intro i hi hi'
  rw [hdata] at hi'
  have hdistance : (block.start + UInt32.ofNat i - block.start).toNat = i := by
    rw [UInt32.add_comm, UInt32.add_sub_cancel, UInt32.toNat_ofNat']
    omega
  have hhas : block.Has (block.start + UInt32.ofNat i) := by rwa [MemoryRegion.Has, hdistance]
  simp only [bytesAt, List.getElem_map, List.getElem_range]
  rw [putBlocks_of_has hapart hmem hhas, hdistance, byteAt, List.getD_eq_getElem]

end Blocks

/-! ### Writes -/

section Writes

variable {reported : Bytes → UInt32} {data : MemoryRegion → Bytes} {blocks : List MemoryRegion}
  {ecu : BeefEcu} {xs : List BeefExchange}

/-- The reported CRC differs from the one of the data of the block. -/
def crcDiffers (reported : Bytes → UInt32) (data : MemoryRegion → Bytes) (block : MemoryRegion)
    (reply : Bytes) : Bool := decide (reported reply ≠ crc32 (data block))

/-- The blocks of the flash whose CRC differs from the one of their data. -/
def stale (flash : EcuMemory) (data : MemoryRegion → Bytes) (blocks : List MemoryRegion) :
    List MemoryRegion :=
  blocks.filter fun block =>
    decide (crc32 (bytesAt flash block.start block.length.toNat) ≠ crc32 (data block))

theorem BeefEcu.after_append (ecu : BeefEcu) (xs ys : List BeefExchange) :
    ecu.after (xs ++ ys) = (ecu.after xs).after ys := by
  rw [after, requests_append, List.foldl_append]
  rfl

theorem AnswersCrc.left {ys : List BeefExchange} (h : AnswersCrc reported ecu (xs ++ ys)) :
    AnswersCrc reported ecu xs := by
  intro before request reply after hsplit
  exact h before request reply (after ++ ys) (by rw [hsplit, List.append_assoc, List.cons_append])

/-- The blocks that a comparison finds are those whose CRC differs in the flash. -/
theorem Compared.changed_eq {changed : List MemoryRegion} {replies : List Bytes}
    (h : Compared (crcDiffers reported data) blocks changed replies xs)
    (hanswers : AnswersCrc reported ecu xs) (hshort : ∀ block ∈ blocks, block.length.toNat < 2 ^ 24) :
    changed = stale ecu.flash data blocks := by
  have hreported : ∀ p ∈ blocks.zip replies,
      reported p.2 = crc32 (bytesAt ecu.flash p.1.start p.1.length.toNat) := by
    intro p hp
    have hmem : ⟨crcRequest p.1, .ok p.2⟩ ∈ xs := by
      rw [h.exchanges, comparison, ← List.map_uncurry_zip_eq_zipWith]
      exact List.mem_map.2 ⟨p, hp, rfl⟩
    obtain ⟨before, after, hsplit⟩ := List.append_of_mem hmem
    -- only CRCs were asked for before, so the flash is as it was
    have hbefore : ecu.after before = ecu := by
      refine foldl_crc ecu fun r hr => @crc_of_mem blocks r ?_
      rw [← requests_comparison h.length, ← h.exchanges, hsplit, requests_append]
      exact List.mem_append_left _ hr
    rw [hanswers before _ _ after hsplit rfl, hbefore,
      crcOf_crcRequest ecu (hshort p.1 (List.of_mem_zip hp).1)]
  have hfilter : (blocks.zip replies).filter (fun p => crcDiffers reported data p.1 p.2) =
      (blocks.zip replies).filter ((fun block => decide
        (crc32 (bytesAt ecu.flash block.start block.length.toNat) ≠ crc32 (data block))) ∘ Prod.fst) := by
    refine List.filter_congr fun p hp => ?_
    rw [crcDiffers, hreported p hp]
    rfl
  rw [h.changed, changedBlocks, hfilter, ← List.filter_map, List.map_fst_zip h.length.ge]
  rfl

/-- A block that is stale is not empty. -/
theorem pos_of_mem_stale {block : MemoryRegion} (h : block ∈ stale ecu.flash data blocks)
    (hdata : (data block).length = block.length.toNat) : 0 < block.length.toNat := by
  have hne := of_decide_eq_true (List.mem_filter.1 h).2
  rcases Nat.eq_zero_or_pos block.length.toNat with hzero | hpos
  · rw [hzero] at hdata hne
    rw [List.length_eq_zero_iff.1 hdata] at hne
    exact absurd rfl hne
  · exact hpos

/-- If no CRC hides a difference, every block has its data once the stale ones are put. -/
theorem bytesAt_putBlocks_stale {flash : EcuMemory} (hapart : blocks.Pairwise MemoryRegion.Apart)
    (hdata : ∀ block ∈ blocks, (data block).length = block.length.toNat)
    (hcollision : ∀ block ∈ blocks,
      crc32 (bytesAt flash block.start block.length.toNat) = crc32 (data block) →
      bytesAt flash block.start block.length.toNat = data block)
    {block : MemoryRegion} (hmem : block ∈ blocks) :
    bytesAt (putBlocks flash (stale flash data blocks) data) block.start block.length.toNat =
      data block := by
  have hsublist : (stale flash data blocks).Sublist blocks := List.filter_sublist
  by_cases hstale : block ∈ stale flash data blocks
  · exact bytesAt_putBlocks (hapart.sublist hsublist) hstale (hdata block hmem)
  · have hcrc : crc32 (bytesAt flash block.start block.length.toNat) = crc32 (data block) := by
      by_contra hne
      exact hstale (List.mem_filter.2 ⟨hmem, decide_eq_true hne⟩)
    rw [← hcollision block hmem hcrc]
    refine List.map_congr_left fun i hi => ?_
    have hi := List.mem_range.1 hi
    have hlength := block.length.toNat_lt
    have hhas : block.Has (block.start + UInt32.ofNat i) := by
      rw [MemoryRegion.Has, UInt32.add_comm, UInt32.add_sub_cancel, UInt32.toNat_ofNat',
        Nat.mod_eq_of_lt (hi.trans hlength)]
      exact hi
    -- the blocks that are put are other blocks, which have none of its addresses
    refine putBlocks_of_not_has fun other hother hotherHas => ?_
    have hne : other ≠ block := fun heq => hstale (heq ▸ hother)
    exact hapart.forall (hsublist.subset hother) hmem hne _ ⟨hotherHas, hhas⟩

/-- **The flash after a write that succeeded: the blocks whose CRC differed have their data, and nothing
else has changed.** -/
theorem Writes.flash_after {accepted : List MemoryRegion → Prop}
    {program : MemoryRegion → List BeefRequest}
    (h : Writes (crcDiffers reported data) blocks (initProgram false) program accepted (.ok ()) xs)
    (hprogram : ∀ block ∈ blocks, 0 < block.length.toNat →
      program block = blockProgram false true block (data block))
    (hanswers : AnswersCrc reported ecu xs) (hblocks : ecu.blocks = blocks)
    (hapart : blocks.Pairwise MemoryRegion.Apart)
    (hregular : ∀ block ∈ blocks, block.length.toNat % commitSize = 0 ∧ block.length.toNat < 2 ^ 24 ∧
      (data block).length = block.length.toNat) :
    (ecu.after xs).flash = putBlocks ecu.flash (stale ecu.flash data blocks) data := by
  cases h with
  | compare e failed part => cases failed
  | flash changed replies first rest split compared written =>
    subst split
    have hchanged := compared.changed_eq hanswers.left fun block hmem => (hregular block hmem).2.1
    have hfirst : ecu.after first = ecu := by
      refine foldl_crc ecu fun r hr => @crc_of_mem blocks r ?_
      rwa [← requests_comparison compared.length, ← compared.exchanges]
    have hafter : ecu.after (first ++ rest) =
        (writeProgram blocks (initProgram false) program changed).foldl BeefEcu.receive ecu := by
      rw [BeefEcu.after_append, hfirst, BeefEcu.after, written.whole rfl]
    rw [hafter, ← hchanged, writeProgram]
    by_cases hempty : changed = []
    · rw [if_pos hempty, hempty]
      rfl
    · rw [if_neg hempty, List.foldl_append, foldl_init, List.foldl_append]
      have hflashed : ∀ block ∈ changed, block ∈ ecu.blocks ∧ 0 < block.length.toNat ∧
          block.length.toNat % commitSize = 0 ∧ (data block).length = block.length.toNat := by
        intro block hmem
        have hblock := compared.sublist.subset hmem
        obtain ⟨haligned, -, hdata⟩ := hregular block hblock
        refine ⟨hblocks ▸ hblock, ?_, haligned, hdata⟩
        rw [hchanged] at hmem
        exact pos_of_mem_stale hmem hdata
      have hsent : changed.flatMap program =
          changed.flatMap fun block => blockProgram false true block (data block) :=
        List.flatMap_congr fun block hmem =>
          hprogram block (compared.sublist.subset hmem) (hflashed block hmem).2.1
      obtain ⟨buffer, hprograms⟩ := @foldl_blockPrograms changed data { ecu with enabled := true } rfl
        (hblocks ▸ hapart) hflashed
      rw [hsent, hprograms, foldl_crc _ fun r hr => crc_of_mem hr]

end Writes

end Beef

end FastEcu.Flash
