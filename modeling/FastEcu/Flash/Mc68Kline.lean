import FastEcu.Flash.Sh705502Kline
import FastEcu.Memory.Selection

/-!
# The MC68HC16Y5_02 executor

A session of `src/backend/flash/ecu/subaru_denso_mc68hc16y5_02_executor.cpp`.  The ROM file packs the flash
on both sides of the RAM; a write places it at its addresses, and a read packs the blocks again.

* `addressedImage`, `readMem`, `writeMem`, `run` : the session.
* `slice_addressedImage` : what is sent for a block is the part of the file that the map places there.
* `writeMem_flash` : the flash after a write that succeeded has the file.
* `readMem_meets` : what a read asks for, and what it gives.
-/

namespace FastEcu.Flash.Beef.Mc68

open Calibration (ErrorKind)
open Data Computation Ports
open DensoKline
open Memory (MemoryImage AddressRange FlashAddress)
open DensoIso15765 (EcuMemory bytesAt length_bytesAt)

/-! ### Plans -/

/-- The data of `SubaruDensoMc68hc16y5_02Plan` that a session uses. -/
structure WireParams where
  kernelBaud : ℤ
  encryptionXor : Byte
  kernelMagic : UInt16
  bootloaderOk : Bytes

/-- What a session takes from its plan. -/
structure Plan where
  wire : WireParams
  operation : FlashOperation
  kernel : Option KernelImage
  romImage : Option MemoryImage
  device : FlashDevice

/-! ### The bootloader and the kernel -/

/-- `ExpectKernelAlive`. -/
def expectKernelAlive : KlineRun Unit := do
  changeBaud 62500
  let probe ← requestKernelId
  if probe.length ≤ 4 then fail (.of .badResponse "No valid response from ECU")
  else if ¬ responseOk probe (BeefOp.kernelId.byte ||| 0x40) then
    fail (.of .badResponse "Wrong response from ECU")
  else pure ()

/-- `BootloaderAnswered`. -/
def bootloaderAnswered (wire : WireParams) : Option Bytes → Bool
  | none => false
  | some response => response.take wire.bootloaderOk.length == wire.bootloaderOk

/-- `ConnectBootloader`: whether the kernel is alive. -/
def connectBootloader (wire : WireParams) : KlineRun Bool := do
  DensoKline.checkCancelled "cancelled before connect"
  outside (Kline.sleep 200)
  outside (Kline.guarded "LEC pulse" (Kline.pulseLec2Line 200))
  outside (Kline.sleep 200)
  let response ← outside (exchangeOptional [0x4D, 0xFF, 0xB4] 50 200)
  if bootloaderAnswered wire response then pure false
  else do
    outside (Kline.sleep 100)
    outside (Kline.guarded "disabling LEC lines" Kline.disableLecLines)
    expectKernelAlive
    pure true

/-- `KernelUploadRequest`: the address is sent without its low byte. -/
def kernelUploadRequest (wire : WireParams) (kernel : KernelImage) : Bytes :=
  let payload := writeU16Be ((padded 16 kernel.bytes).map fun byte => (byte ^^^ wire.encryptionXor) + 0x10) 2
    wire.kernelMagic
  let request : Bytes := 0x53 :: (beBytes16 (kernel.loadAddress >>> 8).toUInt16 ++
    (beBytes24 (UInt32.ofNat payload.length) ++ payload))
  request ++ [negatedSum8 request]

/-- `UploadKernel`: a reply to the upload is an error. -/
def uploadKernel (wire : WireParams) (kernel : KernelImage) : KlineRun Unit := do
  DensoKline.checkCancelled "cancelled before kernel upload"
  if kernel.bytes = [] then fail (.of .invalidConfig "kernel image is empty")
  else do
    changeBaud wire.kernelBaud
    let response ← outside (exchangeOptional (kernelUploadRequest wire kernel) 0 200)
    if response.isSome then fail (.of .badResponse "Error on kernel upload")
    else do
      outside (Kline.sleep 1500)
      expectKernelAlive

/-! ### Reading -/

/-- What `ReadMem` makes of the reply to a request for a page: the page. -/
def pageOf : Option Bytes → Except LinkError Bytes
  | none => .error (.of .timeout "no response from ECU")
  | some received =>
    if received.length ≠ readPageSize + 6 ∨ ¬ responseOk received (BeefOp.readArea.byte ||| 0x40) then
      .error (.of .badResponse "Wrong response from ECU during read")
    else .ok (subspan received 5 readPageSize)

/-- One turn of the page loop of `ReadMem`. -/
def readPage (address : UInt32) : KlineRun Bytes := do
  DensoKline.checkCancelled "cancelled during read"
  let page ← nest (.exchange (readRequest address)) do
    let response ← exchangeOptional (klineFrame (readRequest address)) 10 3000
    ofExcept (pageOf response)
  outside (Kline.sleep 1)
  pure page

/-- The pages at the addresses that are left. -/
def readPages : List UInt32 → KlineRun Bytes
  | [] => pure []
  | address :: addresses => do
    let page ← readPage address
    let rest ← readPages addresses
    pure (page ++ rest)

/-- The addresses of the pages of a block. -/
def pageAddresses (start : UInt32) (length : ℕ) : List UInt32 :=
  (List.range (length / readPageSize)).map fun i => start + UInt32.ofNat (readPageSize * i)

/-- The block loop of `ReadMem`, with the bytes of the packed ROM that are left. -/
def readBlocks : List MemoryRegion → ℕ → KlineRun Bytes
  | [], _ => pure []
  | block :: blocks, remaining =>
    if remaining = 0 then pure []
    else if min block.length.toNat remaining % readPageSize ≠ 0 then
      fail (.of .invalidConfig "flash block is not page aligned")
    else do
      let bytes ← readPages (pageAddresses block.start (min block.length.toNat remaining))
      let rest ← readBlocks blocks (remaining - min block.length.toNat remaining)
      pure (bytes ++ rest)

/-- `ReadMem`. -/
def readMem (device : FlashDevice) : KlineRun Bytes := do
  let mapdata ← readBlocks device.fblocks device.romsize
  if mapdata.length ≠ device.romsize then
    fail (.of .invalidConfig "flash blocks do not match ROM size")
  else pure mapdata

/-! ### Writing -/

/-- The reads of `ReadCrcContinuation` that are left. -/
def crcReads : ℕ → Bytes → KlineCalls Bytes
  | 0, response => pure response
  | tries + 1, response =>
    if 10 ≤ response.length then pure response
    else do
      Kline.checkCancelled "cancelled before CRC continuation read"
      let more ← Kline.read 50
      Kline.sleep 100
      crcReads tries (response ++ (more.getD []).take (10 - response.length))

/-- `ReadCrcContinuation`. -/
def readCrcContinuation (response : Bytes) : KlineCalls Bytes := crcReads 20 response

/-- The CRC that a reply reports. -/
def reportedCrc (reply : Bytes) : UInt32 := readU32Be reply 5

/-- `ReadBlockCrc`. -/
def readBlockCrc (block : MemoryRegion) : KlineRun UInt32 :=
  readBlockCrcWith readCrcContinuation (checkAck .crc "CRC check" 9) reportedCrc block

/-- Where the blocks end. -/
def spanEnd (start : UInt32) (blocks : List MemoryRegion) : UInt32 :=
  blocks.foldl (fun last block => if last < block.start + block.length then block.start + block.length
    else last) start

/-- `AddressedImage`: the bytes of the image at their addresses. -/
def addressedImage (image : MemoryImage) : List MemoryRegion → Except LinkError Bytes
  | [] => .error (.of .invalidConfig "ROM image does not cover the flash device: empty flash device")
  | first :: blocks =>
    let stop := spanEnd first.start (first :: blocks)
    match AddressRange.make ⟨first.start.toNat, first.start.toNat_lt⟩
        ⟨(stop - first.start).toNat, (stop - first.start).toNat_lt⟩ with
    | none => .error (.of .invalidConfig "ROM image does not cover the flash device: empty flash device")
    | some span =>
      match image.render span with
      | .error e =>
        .error (.of .invalidConfig ("ROM image does not cover the flash device: " ++ e.detail))
      | .ok rendered => .ok (overwriteAt (List.replicate stop.toNat 0xFF) first.start.toNat rendered.data)

/-- The error of an exchange without a reply. -/
def missing (_ : String) : String := "no response from ECU"

/-- `InitFlashWrite`. -/
def initFlashWrite (testWrite : Bool) : KlineRun Unit := initFlashWriteWith missing testWrite

/-- `FlashBlock`. -/
def flashBlock (image : Bytes) (testWrite : Bool) (block : MemoryRegion) : KlineRun Unit :=
  flashBlockWith image missing testWrite 0 3000 block

/-- `WriteMem`. -/
def writeMem (device : FlashDevice) (image : MemoryImage) (testWrite : Bool) : KlineRun Unit :=
  if device.fblocks = [] then fail (.of .invalidConfig "Unknown MCU type")
  else do
    let addressed ← ofExcept (addressedImage image device.fblocks)
    writeChangedBlocks addressed device.fblocks readBlockCrc (initFlashWrite testWrite)
      (flashBlock addressed testWrite)

/-! ### Sessions -/

/-- `Run`: what was read. -/
def run (plan : Plan) : KlineRun (Option Bytes) := do
  outside Kline.disableLecLines
  DensoKline.checkCancelled "cancelled after disabling LEC lines"
  outside (Kline.drain 10 "initial drain")
  let kernelAlive ← connectBootloader plan.wire
  when (!kernelAlive) <|
    match plan.kernel with
    | none => fail (.of .invalidConfig "MC68HC16Y5_02 requires a kernel image")
    | some kernel => uploadKernel plan.wire kernel
  match plan.operation with
  | .read => do
    let mapdata ← readMem plan.device
    pure (some mapdata)
  | operation =>
    match plan.romImage with
    | none => fail (.of .invalidConfig "MC68HC16Y5_02 write requires a ROM image")
    | some image => do
      writeMem plan.device image (operation == .testWrite)
      pure none

/-! ### The addressed image -/

section Addressed

variable {image : MemoryImage} {addressed : Bytes}

/-- A payload of the whole length replaces the buffer. -/
theorem overwriteAt_zero {out payload : Bytes} (h : payload.length = out.length) :
    overwriteAt out 0 payload = payload := by
  rw [overwriteAt]
  by_cases hempty : 0 ≥ out.length
  · rw [if_pos hempty]
    have hout : out = [] := List.length_eq_zero_iff.1 (Nat.le_zero.1 hempty)
    rw [hout, List.length_nil] at h
    rw [hout, List.length_eq_zero_iff.1 h]
  · rw [if_neg hempty, Nat.sub_zero, h, Nat.min_self, ← h, List.take_length, overwrite, List.take_zero,
      List.nil_append, Nat.zero_add, h, List.drop_length, List.append_nil]

theorem addressedImage_eq_ok {first : MemoryRegion} {blocks : List MemoryRegion} {stop : UInt32}
    {span : AddressRange Memory.FlashSpace} {rendered : Memory.MemoryView}
    (hend : spanEnd first.start (first :: blocks) = stop)
    (hmake : AddressRange.make ⟨first.start.toNat, first.start.toNat_lt⟩
      ⟨(stop - first.start).toNat, (stop - first.start).toNat_lt⟩ = some span)
    (hrender : image.render span = .ok rendered) :
    addressedImage image (first :: blocks) =
      .ok (overwriteAt (List.replicate stop.toNat 0xFF) first.start.toNat rendered.data) := by
  subst hend
  simp only [addressedImage, hmake, hrender]

/-- The addressed image has the bytes of the image up to the end of the flash. -/
theorem addressedImage_mc68 (h : image.map.blocks = Memory.mc68PackedBlocks) :
    ∃ addressed, addressedImage image FlashDevice.mc68hc16y5.fblocks = .ok addressed ∧
      addressed.length = 0x30000 ∧
      ∀ a : FlashAddress, a.value < 0x30000 → addressed[a.value]? = image.byteAt a := by
  have hend : spanEnd (⟨0, 0x4000⟩ : MemoryRegion).start
      (⟨0, 0x4000⟩ :: FlashDevice.mc68hc16y5.fblocks.tail) = 0x30000 := by decide
  have hmake : AddressRange.make (⟨0, by decide⟩ : FlashAddress) ⟨0x30000, by decide⟩ =
      some ⟨⟨0, by decide⟩, ⟨0x30000, by decide⟩, by decide, by decide⟩ := rfl
  have hheld : image.Held ⟨⟨0, by decide⟩, ⟨0x30000, by decide⟩, by decide, by decide⟩ := by
    intro a ha
    refine Memory.absence_mc68 h ?_
    obtain ⟨-, hlt⟩ := AddressRange.contains_iff.1 ha
    simpa using hlt
  obtain ⟨view, hview⟩ := Memory.MemoryImage.render_eq_ok_iff.2 hheld
  obtain ⟨hrange, hdata⟩ := Memory.MemoryImage.render_data hview
  have hlength : view.data.length = 0x30000 := by rw [view.length_data, hrange]
  refine ⟨view.data, ?_, hlength, ?_⟩
  · have hcopy : overwriteAt (List.replicate 0x30000 0xFF) 0 view.data = view.data :=
      overwriteAt_zero (by rw [hlength, List.length_replicate])
    have haddressed := addressedImage_eq_ok hend hmake hview
    rw [← hcopy]
    exact haddressed
  · intro a ha
    exact hdata a (AddressRange.contains_iff.2 ⟨Nat.zero_le _, by simpa using ha⟩)

/-- Where the packed file has the bytes of a block. -/
def fileOffset (block : MemoryRegion) : ℕ :=
  if block.start.toNat < 0x20000 then block.start.toNat else block.start.toNat - 0x8000

/-- The blocks are below the RAM or above it. -/
theorem mc68_block_bounds : ∀ block ∈ FlashDevice.mc68hc16y5.fblocks,
    block.start.toNat + block.length.toNat ≤ 0x20000 ∨
      0x28000 ≤ block.start.toNat ∧ block.start.toNat + block.length.toNat ≤ 0x30000 := by decide

/-- An address of a block is placed in the part of the file for the block. -/
theorem place_mc68 {map : Memory.MemoryMap} (h : map.blocks = Memory.mc68PackedBlocks)
    {block : MemoryRegion} (hmem : block ∈ FlashDevice.mc68hc16y5.fblocks) {i : ℕ}
    (hi : i < block.length.toNat) (hlt : block.start.toNat + i < Memory.u32Size) :
    map.place ⟨block.start.toNat + i, hlt⟩ = some (fileOffset block + i) := by
  unfold fileOffset
  rcases mc68_block_bounds block hmem with hlow | ⟨hlow, hhigh⟩
  · rw [if_pos (by omega)]
    exact Memory.place_mc68_low h (show block.start.toNat + i < 0x20000 by omega)
  · rw [if_neg (by omega), Memory.place_mc68_high h (show 0x28000 ≤ block.start.toNat + i by omega)
      (show block.start.toNat + i < 0x30000 by omega)]
    refine congrArg some ?_
    show block.start.toNat + i - 0x8000 = _
    omega

/-- **The bytes of a block in the addressed image are those that the map places there.** -/
theorem slice_addressedImage (h : image.map.blocks = Memory.mc68PackedBlocks)
    (haddressed : ∀ a : FlashAddress, a.value < 0x30000 → addressed[a.value]? = image.byteAt a)
    {block : MemoryRegion} (hmem : block ∈ FlashDevice.mc68hc16y5.fblocks) :
    slice addressed block = subspan image.file (fileOffset block) block.length.toNat := by
  have hbounds := mc68_block_bounds block hmem
  refine List.ext_getElem? fun i => ?_
  by_cases hi : i < block.length.toNat
  · have hlt : block.start.toNat + i < Memory.u32Size := by
      simp only [Memory.u32Size]
      omega
    rw [slice, getElem?_subspan hi, getElem?_subspan hi,
      haddressed ⟨block.start.toNat + i, hlt⟩ (show block.start.toNat + i < 0x30000 by omega)]
    exact Memory.MemoryImage.byteAt_eq_of_place (place_mc68 h hmem hi hlt)
  · have hnone : ∀ (l : Bytes) (offset : ℕ), (subspan l offset block.length.toNat)[i]? = none := by
      intro l offset
      exact List.getElem?_eq_none ((List.length_take_le _ _).trans (Nat.le_of_not_lt hi))
    rw [slice, hnone, hnone]

/-- The blocks are the parts of the packed file, in order. -/
theorem flatMap_fileOffset {file : Bytes} (h : file.length = 160 * 1024) :
    (FlashDevice.mc68hc16y5.fblocks.flatMap fun block =>
      subspan file (fileOffset block) block.length.toNat) = file := by
  have hparts : FlashDevice.mc68hc16y5.fblocks.map (fun block => (fileOffset block, block.length.toNat)) =
      (List.range 10).map fun i => (0x4000 * i, 0x4000) := by decide
  have hmap := congrArg (List.flatMap fun p : ℕ × ℕ => subspan file p.1 p.2) hparts
  rw [List.flatMap_map, List.flatMap_map] at hmap
  rw [hmap]
  simp only
  rw [flatMap_subspan, List.take_of_length_le (by rw [h])]

end Addressed

/-! ### What is exchanged -/

section Exchanged

variable {image : MemoryImage} {addressed : Bytes} {testWrite : Bool} {device : FlashDevice}

/-- **What a write exchanges, whatever the answers are.** -/
theorem writeMem_meets (hne : device.fblocks ≠ [])
    (h : addressedImage image device.fblocks = .ok addressed) :
    Meets (fun result events => Writes (crcDiffers reportedCrc (slice addressed)) device.fblocks
        (initProgram testWrite) (program addressed testWrite) (fun _ => True) result (exchanges events))
      (writeMem device image testWrite) := by
  rw [writeMem, if_neg hne, h, ofExcept_ok_bind]
  exact writeChangedBlocks_meets _ _ _ _ _ _

/-- What is sent for a block, from its bytes. -/
theorem program_eq {block : MemoryRegion} (hlt : block.start.toNat + block.length.toNat < 2 ^ 32)
    (hfits : block.start.toNat + block.length.toNat ≤ addressed.length)
    (haligned : block.length.toNat % commitSize = 0) :
    program addressed testWrite block =
      blockProgram testWrite (!testWrite) block (slice addressed block) := by
  have hrepresented : represented addressed block = true := by
    have hchunk : block.length.toNat % chunkSize = 0 := by
      simp only [chunkSize, commitSize] at haligned ⊢
      omega
    simp only [represented, Bool.and_eq_true, decide_eq_true_eq]
    exact ⟨⟨⟨by omega, by omega⟩, hchunk⟩, haligned⟩
  have haddress : ∀ offset ≤ block.length.toNat, (block.start + UInt32.ofNat offset).toNat =
      block.start.toNat + offset := by
    intro offset hoffset
    rw [UInt32.toNat_add, UInt32.toNat_ofNat']
    omega
  have hchunks : chunks addressed testWrite block = chunkProgram block.length.toNat
      (fun offset => chunkRequest (block.start + UInt32.ofNat offset)
        (subspan (slice addressed block) offset chunkSize))
      fun offset => commitRequest testWrite (block.start + UInt32.ofNat offset)
        (crc32 (subspan (slice addressed block) offset commitSize)) := by
    refine chunkProgram_congr (fun offset hoffset => ?_) fun offset hoffset => ?_
    · rw [haddress offset (by omega), slice, subspan_subspan hoffset]
    · rw [haddress offset (by omega), slice, subspan_subspan hoffset]
  rw [program, if_pos hrepresented, hchunks, blockProgram]
  cases testWrite <;> rfl

/-- No CRC hides a difference between the flash and the file. -/
def Distinguishes (flash : EcuMemory) (file : Bytes) : Prop :=
  ∀ block ∈ FlashDevice.mc68hc16y5.fblocks,
    crc32 (bytesAt flash block.start block.length.toNat) =
      crc32 (subspan file (fileOffset block) block.length.toNat) →
    bytesAt flash block.start block.length.toNat =
      subspan file (fileOffset block) block.length.toNat

/-- **The flash after a write that succeeded has the file.** -/
theorem writeMem_flash (h : image.map.blocks = Memory.mc68PackedBlocks) {ecu : BeefEcu}
    (hblocks : ecu.blocks = FlashDevice.mc68hc16y5.fblocks) (hdistinct : Distinguishes ecu.flash image.file)
    {script : List KlineAnswer}
    (hok : (writeMem FlashDevice.mc68hc16y5 image false script).result = .ok ())
    (hanswers : AnswersCrc reportedCrc ecu
      (exchanges (writeMem FlashDevice.mc68hc16y5 image false script).events))
    {block : MemoryRegion} (hmem : block ∈ FlashDevice.mc68hc16y5.fblocks) :
    bytesAt (ecu.after (exchanges (writeMem FlashDevice.mc68hc16y5 image false script).events)).flash
      block.start block.length.toNat = subspan image.file (fileOffset block) block.length.toNat := by
  obtain ⟨addressed, haddressed, hlength, hbytes⟩ := addressedImage_mc68 h
  have hregular := FlashDevice.mc68hc16y5_regular
  have hfits : ∀ b ∈ FlashDevice.mc68hc16y5.fblocks, b.start.toNat + b.length.toNat ≤ addressed.length := by
    intro b hb
    rw [hlength]
    rcases mc68_block_bounds b hb with hlow | ⟨-, hhigh⟩
    · omega
    · exact hhigh
  have hslice : ∀ b ∈ FlashDevice.mc68hc16y5.fblocks, (slice addressed b).length = b.length.toNat :=
    fun b hb => length_subspan (hfits b hb)
  have hwrites := @writeMem_meets image addressed false FlashDevice.mc68hc16y5 (by decide) haddressed script
  rw [hok] at hwrites
  have hflash := hwrites.flash_after
    (fun b hb _ => program_eq ((hregular.short b hb).trans (by decide)) (hfits b hb) (hregular.aligned b hb))
    hanswers hblocks hregular.apart
    fun b hb => ⟨hregular.aligned b hb, by have := hregular.short b hb; omega, hslice b hb⟩
  rw [hflash, ← slice_addressedImage h hbytes hmem]
  refine bytesAt_putBlocks_stale hregular.apart hslice (fun b hb => ?_) hmem
  rw [slice_addressedImage h hbytes hb]
  exact hdistinct b hb

end Exchanged

/-! ### Reading back -/

section Read

variable {flash : EcuMemory}

/-- Each page that was read is the one of the flash. -/
def AnswersRead (flash : EcuMemory) (xs : List BeefExchange) : Prop :=
  ∀ address page, ⟨readRequest address, .ok page⟩ ∈ xs → page = bytesAt flash address readPageSize

/-- What a read of the pages at addresses gives and leaves. -/
structure Reads (addresses : List UInt32) (result : Except LinkError Bytes)
    (events : List (BeefEvent KlineEvent)) : Prop where
  part : requests (exchanges events) <+: addresses.map readRequest
  whole : ∀ bytes, result = .ok bytes → requests (exchanges events) = addresses.map readRequest
  bytes : ∀ bytes, result = .ok bytes → ∀ flash, AnswersRead flash (exchanges events) →
    bytes = addresses.flatMap fun address => bytesAt flash address readPageSize

theorem AnswersRead.of_append {xs ys : List BeefExchange} (h : AnswersRead flash (xs ++ ys)) :
    AnswersRead flash xs ∧ AnswersRead flash ys :=
  ⟨fun address page hmem => h address page (List.mem_append_left _ hmem),
    fun address page hmem => h address page (List.mem_append_right _ hmem)⟩

/-- One read after another. -/
theorem Reads.append {m n : KlineRun Bytes} {addresses addresses' : List UInt32}
    (hm : Meets (Reads addresses) m) (hn : Meets (Reads addresses') n) :
    Meets (Reads (addresses ++ addresses')) (do
      let bytes ← m
      let rest ← n
      pure (bytes ++ rest)) := by
  refine .bind_of hm ?_
  rintro (e | bytes) events hfirst
  · exact .error ⟨by
      rw [List.map_append]
      exact hfirst.part.trans (List.prefix_append _ _), fun _ h => (nomatch h), fun _ h => (nomatch h)⟩
  · have hwhole := hfirst.whole bytes rfl
    refine .ok (.bind_of hn ?_)
    rintro (e | rest) events' hsecond
    · refine .error ⟨?_, fun _ h => (nomatch h), fun _ h => (nomatch h)⟩
      rw [exchanges_append, requests_append, hwhole, List.map_append]
      exact (List.prefix_append_right_inj _).2 hsecond.part
    · have hall : requests (exchanges (events ++ (events' ++ []))) =
          (addresses ++ addresses').map readRequest := by
        rw [List.append_nil, exchanges_append, requests_append, hwhole, hsecond.whole rest rfl,
          List.map_append]
      refine .ok (.pure ⟨hall ▸ List.prefix_refl _, fun _ _ => hall, ?_⟩)
      intro both hboth flash hanswers
      rw [List.append_nil, exchanges_append] at hanswers
      obtain ⟨hleft, hright⟩ := hanswers.of_append
      rw [← Except.ok.inj hboth, hfirst.bytes bytes rfl flash hleft, hsecond.bytes rest rfl flash hright,
        List.flatMap_append]

theorem readPage_meets (address : UInt32) : Meets (Reads [address]) (readPage address) := by
  have hasks : Meets (Asks (readRequest address) id) (readPage address) := by
    refine Asks.quiet_bind (checkCancelled_quiet _) fun _ => ?_
    refine Asks.bind_gives (g := id) (asks_nest _) fun page => ?_
    exact .quiet_bind (outside_quiet _) fun _ => .pure _
  refine hasks.mono ?_
  rintro (e | page) events hevents
  · exact ⟨hevents, fun _ h => (nomatch h), fun _ h => (nomatch h)⟩
  · obtain ⟨reply, hexchanges, hpage⟩ := hevents
    have hall : requests (exchanges events) = [address].map readRequest := by
      rw [hexchanges]
      rfl
    refine ⟨hall ▸ List.prefix_refl _, fun _ _ => hall, ?_⟩
    intro bytes hbytes flash hanswers
    rw [← Except.ok.inj hbytes, hpage, List.flatMap_singleton]
    exact hanswers address reply (by rw [hexchanges]; exact List.mem_singleton_self _)

theorem readPages_meets (addresses : List UInt32) :
    Meets (Reads addresses) (readPages addresses) := by
  induction addresses with
  | nil =>
    refine .pure ⟨List.nil_prefix, fun _ _ => rfl, ?_⟩
    intro bytes hbytes flash _
    exact (Except.ok.inj hbytes).symm
  | cons address addresses ih => exact Reads.append (readPage_meets address) ih

/-- The addresses of the pages that a read of the blocks asks for. -/
def readAddresses : List MemoryRegion → ℕ → List UInt32
  | [], _ => []
  | block :: blocks, remaining =>
    if remaining = 0 then []
    else pageAddresses block.start (min block.length.toNat remaining) ++
      readAddresses blocks (remaining - min block.length.toNat remaining)

theorem readBlocks_meets (blocks : List MemoryRegion) (remaining : ℕ) :
    Meets (Reads (readAddresses blocks remaining)) (readBlocks blocks remaining) := by
  have hnone : ∀ bytes : Bytes, bytes = [] →
      Meets (Reads []) (pure bytes : KlineRun Bytes) := by
    rintro bytes rfl
    exact readPages_meets []
  induction blocks generalizing remaining with
  | nil => exact hnone [] rfl
  | cons block blocks ih =>
    unfold readBlocks readAddresses
    by_cases hzero : remaining = 0
    · rw [if_pos hzero, if_pos hzero]
      exact hnone [] rfl
    · rw [if_neg hzero, if_neg hzero]
      refine .ite (fun _ => .fail ⟨List.nil_prefix, fun _ h => (nomatch h), fun _ h => (nomatch h)⟩)
        fun _ => ?_
      exact Reads.append (readPages_meets _) (ih _)

/-- **What a read asks for, and what it gives.** -/
theorem readMem_meets (device : FlashDevice) :
    Meets (Reads (readAddresses device.fblocks device.romsize)) (readMem device) := by
  refine .bind_of (readBlocks_meets _ _) ?_
  rintro (e | mapdata) events hread
  · exact .error ⟨hread.part, fun _ h => (nomatch h), fun _ h => (nomatch h)⟩
  · refine .ok (.ite (fun _ => .fail ⟨?_, fun _ h => (nomatch h), fun _ h => (nomatch h)⟩)
      fun _ => .pure ?_)
    · rw [List.append_nil]
      exact hread.part
    · rw [List.append_nil]
      exact hread

/-- All pages of blocks whose lengths add up to what is left. -/
theorem readAddresses_eq {blocks : List MemoryRegion} {remaining : ℕ}
    (hpositive : ∀ block ∈ blocks, 0 < block.length.toNat)
    (h : (blocks.map fun block => block.length.toNat).sum = remaining) :
    readAddresses blocks remaining =
      blocks.flatMap fun block => pageAddresses block.start block.length.toNat := by
  induction blocks generalizing remaining with
  | nil => rfl
  | cons block blocks ih =>
    have hblock := hpositive block (List.mem_cons_self ..)
    rw [List.map_cons, List.sum_cons] at h
    rw [readAddresses, if_neg (by omega), Nat.min_eq_left (by omega), List.flatMap_cons,
      ih (fun b hb => hpositive b (List.mem_cons_of_mem _ hb)) (by omega)]

theorem readAddresses_mc68 : readAddresses FlashDevice.mc68hc16y5.fblocks FlashDevice.mc68hc16y5.romsize =
    FlashDevice.mc68hc16y5.fblocks.flatMap fun block => pageAddresses block.start block.length.toNat :=
  readAddresses_eq FlashDevice.mc68hc16y5_regular.positive (by decide)

/-- The memory over a stretch, page by page. -/
theorem flatMap_pageAddresses (flash : EcuMemory) (start : UInt32) {length : ℕ}
    (h : length % readPageSize = 0) :
    ((pageAddresses start length).flatMap fun address => bytesAt flash address readPageSize) =
      bytesAt flash start length := by
  obtain ⟨n, rfl⟩ := Nat.dvd_of_mod_eq_zero h
  have hcount : readPageSize * n / readPageSize = n := Nat.mul_div_cancel_left n (by decide)
  rw [pageAddresses, hcount, List.flatMap_map]
  clear h hcount
  generalize readPageSize = size
  induction n with
  | zero => rfl
  | succ n ih =>
    rw [List.range_succ, List.flatMap_append, ih, List.flatMap_singleton, Nat.mul_succ, bytesAt, bytesAt,
      bytesAt, List.range_add, List.map_append, List.map_map]
    congr 1
    refine List.map_congr_left fun i _ => ?_
    rw [Function.comp_apply, UInt32.ofNat_add, UInt32.add_assoc]

/-- The pages of a flash that has the file are the file. -/
theorem flatMap_readAddresses {file : Bytes} (hsize : file.length = 160 * 1024)
    (hflash : ∀ block ∈ FlashDevice.mc68hc16y5.fblocks,
      bytesAt flash block.start block.length.toNat =
        subspan file (fileOffset block) block.length.toNat) :
    ((readAddresses FlashDevice.mc68hc16y5.fblocks FlashDevice.mc68hc16y5.romsize).flatMap
      fun address => bytesAt flash address readPageSize) = file := by
  have haligned : ∀ block ∈ FlashDevice.mc68hc16y5.fblocks, block.length.toNat % readPageSize = 0 := by
    decide
  rw [readAddresses_mc68, List.flatMap_assoc]
  refine (List.flatMap_congr fun block hmem => ?_).trans (flatMap_fileOffset hsize)
  rw [flatMap_pageAddresses flash block.start (haligned block hmem), hflash block hmem]

end Read

end FastEcu.Flash.Beef.Mc68
