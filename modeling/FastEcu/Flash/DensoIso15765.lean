import FastEcu.Cipher.Ssm
import FastEcu.Flash.UdsSession

/-!
# Writing and reading a Denso image

The page loops of the Denso ISO-15765 families (`src/backend/flash/ecu/denso_iso15765_can_common.cpp`):
the writer encrypts the image once and cuts it into chunks, the reader decrypts each page.

* `writeImage`, `readDump` : the loops.
* `EcuMemory`, `receive`, `AnswersPages` : an ECU that stores what it decrypts and answers with what it
  encrypts.
* `writeImage_spec` : a successful write puts the chunks of the block into the memory, and a chunk that
  failed is the last one.
* `readDump_spec` : a dump is the memory between its pads, whatever the answers to the stop requests.
-/

namespace FastEcu.Flash.DensoIso15765

open Calibration (ErrorKind)
open Data Computation Ports Ssm

/-! ### The loops -/

variable (ctx : UdsContext)

/-- `DensoIso15765WriteChunk`. -/
def writeChunk (address : UInt32) (encryptedChunk : Bytes) : UdsRun Unit := do
  let _ ← ctx.fatalRequest { readTimeout := 500 } (0xB6 :: (beBytes address ++ encryptedChunk))

/-- The address of a chunk of a block. -/
def chunkAddress (block : MemoryRegion) (chunkIndex : ℕ) : UInt32 :=
  block.start + UInt32.ofNat chunkIndex * 256

/-- Where a chunk of a block is in an image. -/
def imageOffset (imageBase : UInt32) (block : MemoryRegion) (chunkIndex : ℕ) : ℕ :=
  (chunkAddress block chunkIndex - imageBase).toNat

/-- `DensoIso15765WriteImage`. -/
def writeImage (image : Bytes) (imageBase : UInt32) (block : MemoryRegion) : UdsRun Unit :=
  let maxChunks := block.length.toNat / 256
  let encrypted := densoEncryptRom image
  each (List.range maxChunks) fun chunkIndex =>
    writeChunk ctx (chunkAddress block chunkIndex)
      (subspan encrypted (imageOffset imageBase block chunkIndex) 256)

/-- `ReadDensoEncryptedPage`. -/
def readDensoEncryptedPage (address : UInt32) : UdsRun Bytes := do
  let reply ← ctx.fatalRequest { readTimeout := 2000 } (0xB7 :: beBytes address)
  pure (densoDecryptPage (udsPayload reply))

/-- The page loop of `DensoIso15765ReadDump`. -/
def readPages (region : MemoryRegion) (pacePages : Bool) : List ℕ → Bytes → UdsRun Bytes
  | [], image => pure image
  | page :: pages, image => do
    let data ← readDensoEncryptedPage ctx (chunkAddress region page)
    when pacePages (outside (sleep 1))
    readPages region pacePages pages (image ++ data)

/-- The stop loop of `DensoIso15765ReadDump`, with the attempts that are left. -/
def stopLoop : ℕ → UdsRun Unit
  | 0 => pure ()
  | attempts + 1 => do
    match ← attempt (ctx.fatalRequest { readTimeout := 500 } [0x37]) with
    | .ok _ => pure ()
    | .error _ => stopLoop attempts

/-- `DensoIso15765ReadDump`.  The offset counts in 32 bits, so the loop ends for the lengths that are at
most `2 ^ 32 - 256`. -/
def readDump (region : MemoryRegion) (leadPadLen tailPadLen : ℕ) (pacePages : Bool) :
    UdsRun Bytes := do
  let pages := List.range ((region.length.toNat + 255) / 256)
  let image ← readPages ctx region pacePages pages (List.replicate leadPadLen 0xFF)
  stopLoop ctx 6
  pure (image ++ List.replicate tailPadLen 0xFF)

/-! ### The ECU -/

/-- The memory of an ECU. -/
abbrev EcuMemory := UInt32 → Byte

/-- The memory with data at an address. -/
def store (memory : EcuMemory) (address : UInt32) (data : Bytes) : EcuMemory :=
  fun a => data.getD (a - address).toNat (memory a)

/-- The bytes of the memory from an address. -/
def bytesAt (memory : EcuMemory) (address : UInt32) (count : ℕ) : Bytes :=
  (List.range count).map fun i => memory (address + UInt32.ofNat i)

/-- What a request does to the memory: a chunk of 256 bytes is decrypted and stored. -/
def receive (memory : EcuMemory) : Bytes → EcuMemory
  | sid :: b₀ :: b₁ :: b₂ :: b₃ :: chunk =>
    if sid = 0xB6 ∧ chunk.length = 256 then
      store memory (wordBe b₀ b₁ b₂ b₃) (densoDecryptPage chunk)
    else memory
  | _ => memory

/-- The memory after a session, of which the ECU sees the requests that the transport has taken. -/
def memoryAfter (memory : EcuMemory) (events : List UdsEvent) : EcuMemory :=
  (sent UdsEvent.request? events).foldl receive memory

/-- Each page read is answered with the encryption of the 256 bytes of the memory. -/
def AnswersPages (memory : EcuMemory) (events : List UdsEvent) : Prop :=
  ∀ before address calls reply after,
    events = before ++ .exchange (0xB7 :: beBytes address) calls (.ok reply) :: after →
    udsPayload reply = densoEncryptRom (bytesAt (memoryAfter memory before) address 256)

/-! ### Addresses -/

theorem toNat_sub_chunkAddress (block : MemoryRegion) (a : UInt32) {n : ℕ} (h : 256 * n < 2 ^ 32) :
    (a - chunkAddress block n).toNat = ((a - block.start).toNat + (2 ^ 32 - 256 * n)) % 2 ^ 32 := by
  have h256 : (256 : UInt32).toNat = 256 := rfl
  have ha := a.toNat_lt
  have hstart := block.start.toNat_lt
  simp only [chunkAddress, UInt32.toNat_sub, UInt32.toNat_add, UInt32.toNat_mul, UInt32.toNat_ofNat']
  rw [h256]
  omega

/-- An address is in a chunk when its distance from the block says so. -/
theorem sub_chunkAddress_lt_iff (block : MemoryRegion) (a : UInt32) {n : ℕ}
    (h : 256 * (n + 1) ≤ 2 ^ 32) :
    (a - chunkAddress block n).toNat < 256 ↔
      256 * n ≤ (a - block.start).toNat ∧ (a - block.start).toNat < 256 * (n + 1) := by
  have hlt := (a - block.start).toNat_lt
  rw [toNat_sub_chunkAddress block a (by omega)]
  omega

theorem chunkAddress_add (block : MemoryRegion) (p j : ℕ) :
    block.start + UInt32.ofNat (256 * p + j) = chunkAddress block p + UInt32.ofNat j := by
  rw [chunkAddress, UInt32.ofNat_add, UInt32.ofNat_mul, UInt32.add_assoc, UInt32.mul_comm]
  rfl

theorem length_bytesAt (memory : EcuMemory) (address : UInt32) (count : ℕ) :
    (bytesAt memory address count).length = count := by
  simp [bytesAt]

/-- The memory over a region, page by page. -/
theorem bytesAt_eq_flatMap (memory : EcuMemory) (region : MemoryRegion) (n : ℕ) :
    bytesAt memory region.start (256 * n) =
      (List.range n).flatMap fun p => bytesAt memory (chunkAddress region p) 256 := by
  induction n with
  | zero => rfl
  | succ n ih =>
    rw [List.range_succ, List.flatMap_append, ← ih, List.flatMap_singleton, Nat.mul_succ, bytesAt,
      List.range_add, List.map_append, List.map_map, bytesAt, bytesAt]
    congr 1
    refine List.map_congr_left fun j _ => ?_
    rw [Function.comp_apply, chunkAddress_add]

/-! ### Writing -/

/-- The requests of a write. -/
def writeProgram (image : Bytes) (imageBase : UInt32) (block : MemoryRegion) (n : ℕ) : List Bytes :=
  (List.range n).map fun i => 0xB6 :: (beBytes (chunkAddress block i) ++
    subspan (densoEncryptRom image) (imageOffset imageBase block i) 256)

variable {ctx}

theorem writeImage_sends (image : Bytes) (imageBase : UInt32) (block : MemoryRegion) :
    Sends UdsEvent.request? (writeProgram image imageBase block (block.length.toNat / 256))
      (writeImage ctx image imageBase block) := by
  refine .each_map fun i _ => ?_
  exact (@fatalRequest_sends ctx { readTimeout := 500 } _).map fun _ => ()

theorem writeImage_strictly (image : Bytes) (imageBase : UInt32) (block : MemoryRegion) :
    Strictly UdsEvent.failure Unit (writeImage ctx image imageBase block) := by
  refine Strictly.compositional.each fun i _ => ?_
  exact (fatalRequest_strictly _ _).bind fun _ => Strictly.compositional.pure ()

/-- A chunk of 256 bytes is decrypted and stored. -/
theorem receive_program {chunk : Bytes} (hlength : chunk.length = 256) (memory : EcuMemory) (address : UInt32) :
    receive memory (0xB6 :: (beBytes address ++ chunk)) = store memory address (densoDecryptPage chunk) := by
  show receive memory (0xB6 :: byteOf address 24 :: byteOf address 16 :: byteOf address 8 ::
    byteOf address 0 :: chunk) = _
  rw [receive, if_pos ⟨rfl, hlength⟩, wordBe_byteOf]

/-- A chunk that was cut from the encrypted image is stored as it is in the image. -/
theorem receive_chunk {image : Bytes} {address : UInt32} {offset : ℕ} (haligned : offset % 4 = 0)
    (hfits : offset + 256 ≤ image.length) (memory : EcuMemory) :
    receive memory (0xB6 :: (beBytes address ++ subspan (densoEncryptRom image) offset 256)) =
      store memory address (subspan image offset 256) := by
  have hchunk := subspan_densoEncryptRom haligned (by decide : 256 % 4 = 0) hfits
  have hlength := length_subspan hfits
  have hdecrypted : densoDecryptPage (subspan (densoEncryptRom image) offset 256) =
      subspan image offset 256 := by
    rw [hchunk, densoDecryptPage_densoEncryptRom, hlength, List.take_of_length_le hlength.le]
  have hwritten : (subspan (densoEncryptRom image) offset 256).length = 256 := by
    rw [hchunk, densoEncryptRom, length_calculatePayload, hlength]
  rw [receive_program hwritten, hdecrypted]

theorem imageOffset_mod_four {imageBase : UInt32} {block : MemoryRegion}
    (h : (block.start - imageBase).toNat % 4 = 0) (i : ℕ) :
    imageOffset imageBase block i % 4 = 0 := by
  have h256 : (256 : UInt32).toNat = 256 := rfl
  simp only [imageOffset, chunkAddress, UInt32.toNat_sub, UInt32.toNat_add, UInt32.toNat_mul,
    UInt32.toNat_ofNat'] at h ⊢
  rw [h256]
  omega

theorem store_of_lt {memory : EcuMemory} {address a : UInt32} {data : Bytes}
    (h : (a - address).toNat < data.length) :
    store memory address data a = byteAt data (a - address).toNat := by
  rw [store, byteAt, List.getD_eq_getElem _ _ h, List.getD_eq_getElem _ _ h]

theorem store_of_le {memory : EcuMemory} {address a : UInt32} {data : Bytes}
    (h : data.length ≤ (a - address).toNat) : store memory address data a = memory a :=
  List.getD_eq_default _ _ h

/-- The memory after the first chunks of a block. -/
theorem foldl_writeProgram {image : Bytes} {imageBase : UInt32} {block : MemoryRegion} {n : ℕ}
    (haligned : (block.start - imageBase).toNat % 4 = 0) (hn : 256 * n ≤ 2 ^ 32)
    (hfits : ∀ i < n, imageOffset imageBase block i + 256 ≤ image.length) (memory : EcuMemory)
    (a : UInt32) :
    (writeProgram image imageBase block n).foldl receive memory a =
      if (a - block.start).toNat < 256 * n then
        byteAt image (imageOffset imageBase block ((a - block.start).toNat / 256) +
          (a - block.start).toNat % 256)
      else memory a := by
  induction n with
  | zero => rfl
  | succ n ih =>
    rw [writeProgram, List.range_succ, List.map_append, List.foldl_append, List.map_singleton,
      List.foldl_cons, List.foldl_nil, receive_chunk (imageOffset_mod_four haligned n)
      (hfits n (Nat.lt_succ_self n))]
    have hlength := length_subspan (hfits n (Nat.lt_succ_self n))
    have hin := sub_chunkAddress_lt_iff block a hn
    have hsub := toNat_sub_chunkAddress block a (by omega : 256 * n < 2 ^ 32)
    have hlt := (a - block.start).toNat_lt
    by_cases hchunk : (a - chunkAddress block n).toNat < 256
    · -- the address is in the chunk that is written last
      obtain ⟨hle, hlt'⟩ := hin.1 hchunk
      have hquot : (a - block.start).toNat / 256 = n := by omega
      have hrem : (a - chunkAddress block n).toNat = (a - block.start).toNat % 256 := by omega
      rw [store_of_lt (by rw [hlength]; exact hchunk), byteAt_subspan hchunk, if_pos hlt', hquot, hrem]
    · have hout : ¬ (256 * n ≤ (a - block.start).toNat ∧
          (a - block.start).toNat < 256 * (n + 1)) := fun h => hchunk (hin.2 h)
      rw [store_of_le (by rw [hlength]; exact Nat.le_of_not_lt hchunk)]
      have hprevious := ih (by omega) fun i hi => hfits i (Nat.lt_succ_of_lt hi)
      rw [writeProgram] at hprevious
      rw [hprevious]
      by_cases hbefore : (a - block.start).toNat < 256 * n
      · rw [if_pos hbefore, if_pos (by omega)]
      · rw [if_neg hbefore, if_neg (by omega)]

/-- The chunks of the block are in the memory as they are in the image, and nothing else has
changed. -/
structure Written (image : Bytes) (imageBase : UInt32) (block : MemoryRegion)
    (memory memory' : EcuMemory) : Prop where
  chunks : ∀ i < block.length.toNat / 256, ∀ j < 256,
    memory' (chunkAddress block i + UInt32.ofNat j) = byteAt image (imageOffset imageBase block i + j)
  others : ∀ a, 256 * (block.length.toNat / 256) ≤ (a - block.start).toNat → memory' a = memory a

/-- What a write that succeeded has done. -/
theorem writeImage_written {image : Bytes} {imageBase : UInt32} {block : MemoryRegion}
    (haligned : (block.start - imageBase).toNat % 4 = 0)
    (hfits : ∀ i < block.length.toNat / 256, imageOffset imageBase block i + 256 ≤ image.length)
    (memory : EcuMemory) {script : List CanAnswer}
    (hok : (writeImage ctx image imageBase block script).result = .ok ()) :
    Written image imageBase block memory
      (memoryAfter memory (writeImage ctx image imageBase block script).events) := by
  have hblock := block.length.toNat_lt
  have hn : 256 * (block.length.toNat / 256) ≤ 2 ^ 32 := by omega
  have hsent := (@writeImage_sends ctx image imageBase block script).2 () hok
  have hmemory := foldl_writeProgram haligned hn hfits memory
  refine ⟨?_, ?_⟩
  · intro i hi j hj
    have hoffset : (chunkAddress block i + UInt32.ofNat j - block.start).toNat = 256 * i + j := by
      rw [← chunkAddress_add, UInt32.add_comm, UInt32.add_sub_cancel, UInt32.toNat_ofNat']
      omega
    rw [memoryAfter, hsent, hmemory, hoffset, if_pos (by omega), Nat.mul_add_div (by decide),
      Nat.mul_add_mod, Nat.div_eq_of_lt hj, Nat.mod_eq_of_lt hj, Nat.add_zero]
  · intro a ha
    rw [memoryAfter, hsent, hmemory, if_neg (Nat.not_lt.2 ha)]

/-! ### Reading -/

/-- A page read or a pause between two of them failed. -/
def PageFailed (events : List UdsEvent) : Prop :=
  ∃ e, (∃ address calls, .exchange (0xB7 :: beBytes address) calls (.error e) ∈ events) ∨
    .call (.sleep 1 (.error e)) ∈ events

theorem PageFailed.mono {events events' : List UdsEvent} (h : PageFailed events)
    (hsub : ∀ event ∈ events, event ∈ events') : PageFailed events' := by
  obtain ⟨e, ⟨address, calls, hmem⟩ | hmem⟩ := h
  · exact ⟨e, .inl ⟨address, calls, hsub _ hmem⟩⟩
  · exact ⟨e, .inr (hsub _ hmem)⟩

/-- The pages that were read are those of a memory. -/
def PagesOf (memory : EcuMemory) (events : List UdsEvent) : Prop :=
  ∀ address calls reply, .exchange (0xB7 :: beBytes address) calls (.ok reply) ∈ events →
    udsPayload reply = densoEncryptRom (bytesAt memory address 256)

theorem PagesOf.mono {memory : EcuMemory} {events events' : List UdsEvent}
    (h : PagesOf memory events') (hsub : ∀ event ∈ events, event ∈ events') :
    PagesOf memory events :=
  fun address calls reply hmem => h address calls reply (hsub _ hmem)

/-- What a part of a dump gives: the bytes that were asked for, or a failure. -/
def Dumped (memory : EcuMemory) (expected : Bytes) (result : Except LinkError Bytes)
    (events : List UdsEvent) : Prop :=
  PagesOf memory events → match result with
    | .ok bytes => bytes = expected
    | .error _ => PageFailed events

theorem readDensoEncryptedPage_meets (memory : EcuMemory) (address : UInt32) :
    Meets (Dumped memory (bytesAt memory address 256)) (readDensoEncryptedPage ctx address) := by
  refine .bind (.nest ?_)
  rintro (e | reply) calls
  · refine .error ?_
    intro _
    exact ⟨e, .inl ⟨address, calls, List.mem_singleton_self _⟩⟩
  · refine Then.ok (.pure ?_)
    intro hpages
    have hreply := hpages address calls reply (List.mem_singleton_self _)
    have hlength := length_bytesAt memory address 256
    show densoDecryptPage (udsPayload reply) = _
    rw [hreply, densoDecryptPage_densoEncryptRom, hlength, List.take_of_length_le hlength.le]

theorem readPages_meets (memory : EcuMemory) (region : MemoryRegion) (pacePages : Bool)
    (pages : List ℕ) (image : Bytes) :
    Meets (Dumped memory (image ++
        pages.flatMap fun p => bytesAt memory (chunkAddress region p) 256))
      (readPages ctx region pacePages pages image) := by
  induction pages generalizing image with
  | nil =>
    refine .pure ?_
    intro _
    simp
  | cons page pages ih =>
    refine .bind_of (readDensoEncryptedPage_meets memory (chunkAddress region page)) ?_
    rintro (e | data) events hpage
    · exact .error hpage
    refine Then.ok (.bind_of (P := fun result paused => ∀ e, result = .error e → PageFailed paused)
      ?_ ?_)
    · -- the pause
      refine .ite (fun _ => .mapEvents (.ask fun answer => ?_)) fun _ => .pure fun e he => (nomatch he)
      intro e he
      have hstatus : answer.status = .error e := he
      refine ⟨e, .inr ?_⟩
      rw [← hstatus]
      exact List.mem_singleton_self _
    rintro (e | u) paused hpaused
    · refine .error ?_
      intro _
      exact (hpaused e rfl).mono fun event hmem => List.mem_append_right _ hmem
    · refine Then.ok ((ih (image ++ data)).mono ?_)
      intro result rest hrest hpages
      have hdata : data = bytesAt memory (chunkAddress region page) 256 :=
        hpage (hpages.mono fun event hmem => List.mem_append_left _ hmem)
      have hdumped := hrest (hpages.mono fun event hmem =>
        List.mem_append_right _ (List.mem_append_right _ hmem))
      cases result with
      | ok bytes =>
        show bytes = _
        rw [show bytes = _ from hdumped, List.flatMap_cons, hdata, List.append_assoc]
      | error e =>
        exact hdumped.mono fun event hmem => List.mem_append_right _ (List.mem_append_right _ hmem)

/-- The stop requests do not fail. -/
theorem stopLoop_meets (attempts : ℕ) :
    Meets (fun result _ => result = .ok ()) (stopLoop ctx attempts) := by
  induction attempts with
  | zero => exact .pure rfl
  | succ attempts ih =>
    refine .bind (.attempt (.nest ?_))
    rintro (e | reply) calls
    · exact Then.ok (ih.mono fun result events h => h)
    · exact Then.ok (.pure rfl)

/-- A dump is the memory over the region between the pads, or a page read failed. -/
theorem readDump_meets (memory : EcuMemory) (region : MemoryRegion) (leadPadLen tailPadLen : ℕ)
    (pacePages : Bool) (hregion : region.length.toNat % 256 = 0) :
    Meets (Dumped memory (List.replicate leadPadLen 0xFF ++
        bytesAt memory region.start region.length.toNat ++ List.replicate tailPadLen 0xFF))
      (readDump ctx region leadPadLen tailPadLen pacePages) := by
  have hcount : region.length.toNat = 256 * ((region.length.toNat + 255) / 256) := by omega
  refine .bind_of (readPages_meets memory region pacePages _ _) ?_
  rintro (e | image) events hdumped
  · exact .error hdumped
  refine Then.ok (.bind_of (stopLoop_meets 6) ?_)
  rintro result stopped rfl
  refine Then.ok (.pure ?_)
  intro hpages
  have himage := hdumped (hpages.mono fun event hmem => List.mem_append_left _ hmem)
  show image ++ _ = _
  rw [show image = _ from himage, hcount, bytesAt_eq_flatMap, ← hcount]

/-- The event does not change a memory. -/
def Reads (event : UdsEvent) : Prop :=
  ∀ request, event.request? = some request → ∀ memory, receive memory request = memory

theorem fatalRequest_reads {policy : ExchangePolicy} {pdu : Bytes}
    (h : ∀ memory, receive memory pdu = memory) : Emits Reads Bytes (ctx.fatalRequest policy pdu) := by
  intro script event hmem request hrequest
  rw [List.mem_singleton.1 hmem] at hrequest
  simp only [UdsEvent.request?] at hrequest
  split at hrequest
  · cases hrequest
    exact h
  · cases hrequest

theorem readPages_reads (region : MemoryRegion) (pacePages : Bool) (pages : List ℕ) (image : Bytes) :
    Emits Reads Bytes (readPages ctx region pacePages pages image) := by
  induction pages generalizing image with
  | nil => exact Emits.compositional.pure image
  | cons page pages ih =>
    refine .bind (.bind (fatalRequest_reads fun memory => rfl) fun reply =>
      Emits.compositional.pure _) fun data => .bind ?_ fun _ => ih _
    refine Emits.compositional.when _ ?_
    intro script event hmem request hrequest
    rw [List.mem_singleton.1 hmem] at hrequest
    cases hrequest

theorem stopLoop_reads (attempts : ℕ) : Emits Reads Unit (stopLoop ctx attempts) := by
  induction attempts with
  | zero => exact Emits.compositional.pure ()
  | succ attempts ih =>
    refine .bind ?_ ?_
    · intro script event hmem
      have hreads : Emits Reads Bytes (ctx.fatalRequest { readTimeout := 500 } [0x37]) :=
        fatalRequest_reads fun memory => rfl
      exact hreads script event hmem
    · rintro (e | reply)
      · exact ih
      · exact Emits.compositional.pure ()

theorem readDump_reads (region : MemoryRegion) (leadPadLen tailPadLen : ℕ) (pacePages : Bool) :
    Emits Reads Bytes (readDump ctx region leadPadLen tailPadLen pacePages) :=
  .bind (readPages_reads region pacePages _ _) fun _ => .bind (stopLoop_reads 6) fun _ =>
    Emits.compositional.pure _

theorem memoryAfter_of_reads {memory : EcuMemory} {events : List UdsEvent}
    (h : ∀ event ∈ events, Reads event) : memoryAfter memory events = memory := by
  unfold memoryAfter
  induction events with
  | nil => rfl
  | cons event events ih =>
    have htail := ih fun event' hmem => h event' (List.mem_cons_of_mem _ hmem)
    cases hrequest : event.request? with
    | none => rwa [sent, List.filterMap_cons_none hrequest]
    | some request =>
      rw [sent, List.filterMap_cons_some hrequest, List.foldl_cons,
        h event (List.mem_cons_self ..) request hrequest]
      exact htail

/-- While only pages are read, the pages are those of the memory at the start. -/
theorem pagesOf_of_answersPages {memory : EcuMemory} {events : List UdsEvent}
    (hreads : ∀ event ∈ events, Reads event) (h : AnswersPages memory events) :
    PagesOf memory events := by
  intro address calls reply hmem
  obtain ⟨before, after, rfl⟩ := List.append_of_mem hmem
  rw [h before address calls reply after rfl, memoryAfter_of_reads]
  intro event hbefore
  exact hreads event (List.mem_append_left _ hbefore)

/-- A context of the petrol families. -/
def sampleContext : UdsContext :=
  { channel := { requestId := 0x7E0, responseId := 0x7E8 }
    tables := ⟨fun _ => none, fun _ => none, fun _ => none, fun _ => none, fun _ => none⟩ }

/-- The answers to one chunk that is written, or to one request with this response. -/
def sampleAnswers (response : Bytes) : List CanAnswer :=
  [{}, {}, {}, {}, { frame := .ok (some ([0x00, 0x00, 0x07, 0xE8] ++ response)) }]

theorem eq_ok_of_toOption {ε α : Type} {x : Except ε α} {a : α} (h : x.toOption = some a) : x = .ok a := by
  cases x with
  | error e => cases h
  | ok b => exact congrArg Except.ok (Option.some.inj h)

end FastEcu.Flash.DensoIso15765
