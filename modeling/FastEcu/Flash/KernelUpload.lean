import FastEcu.Flash.BeefCan
import FastEcu.Flash.BeefKline
import FastEcu.Flash.KernelImage

/-!
# The upload of a BEEF kernel on CAN

`BeefCanKernel::TransferPayload` of `src/backend/flash/ecu/beef_can_kernel.cpp`: the payload is announced, and then
sent in blocks, whose replies are read and ignored.

* `transferPayload` : the upload.
* `uploadFrames` : the frames of the blocks.
* `transferPayload_spec` : what the ECU gets.
-/

namespace FastEcu.Flash.BeefCanKernel

open Calibration (ErrorKind)
open Beef (uploadBlockSize uploadSize preparePayload PlainKernel)
open Beef.Can (endsDrain)
open Beef.DensoKline (KernelImage)
open Checksum Data Computation Ports Ssm

/-- `BeefKernelTransferPolicy`. -/
structure BeefKernelTransferPolicy where
  downloadPolicy : ExchangePolicy
  blockReplyTimeout : ℤ

/-- The request that announces a payload. -/
def downloadRequest (loadAddress : UInt32) (payload : Bytes) : Bytes :=
  [0x34, 0x04, 0x33] ++ beBytes24 loadAddress ++ beBytes24 (UInt32.ofNat payload.length)

/-- The check of the reply in `TransferPayload`. -/
def checkDownload (reply : Bytes) : Except LinkError Unit :=
  match udsPayload reply with
  | [] => .error (.of .badResponse "unexpected response during kernel download")
  | first :: _ =>
    if first ≠ 0x20 then .error (.of .badResponse "unexpected response during kernel download") else .ok ()

/-- The request for a block. -/
def blockRequest (loadAddress : UInt32) (k : ℕ) (piece : Bytes) : Bytes :=
  0xB6 :: (beBytes24 (loadAddress + UInt32.ofNat (uploadBlockSize * k)) ++ piece)

section Upload

variable (ctx : UdsContext) (policy : BeefKernelTransferPolicy)

/-- The read after a block: what comes is ignored, and only a cancellation and a disconnection are errors. -/
def ignoreReply : UdsRun Unit := do
  match ← attempt (outside (guardedRead policy.blockReplyTimeout)) with
  | .error e => if endsDrain e then fail e else pure ()
  | .ok _ => pure ()

/-- One turn of the loop of `TransferPayload`. -/
def uploadBlock (loadAddress : UInt32) (payload : Bytes) (k : ℕ) : UdsRun Unit := do
  outside (ctx.channel.send (blockRequest loadAddress k (subspan payload (uploadBlockSize * k)
    (min uploadBlockSize (payload.length - uploadBlockSize * k)))))
  ignoreReply policy
  checkCancelled "kernel upload cancelled"

/-- `TransferPayload`: the offsets are the multiples of the block size up to the size of the payload. -/
def transferPayload (family : String) (kernel : KernelImage) : UdsRun Unit := do
  let payload ← ofExcept (preparePayload kernel.bytes family)
  let reply ← ctx.fatalRequest policy.downloadPolicy (downloadRequest kernel.loadAddress payload)
  ofExcept (checkDownload reply)
  each (List.range (payload.length / uploadBlockSize + 1)) (uploadBlock ctx policy kernel.loadAddress payload)

end Upload

/-! ### What the ECU gets -/

/-- The frame that the transport has taken. -/
def taken? : CanEvent → Option Bytes
  | .write frame (.ok _) => some frame
  | _ => none

/-- The frame that the transport has taken outside an exchange. -/
def frame? : UdsEvent → Option Bytes
  | .call event => taken? event
  | .exchange .. => none

/-- The pieces of a payload: its blocks, and the empty piece at its end. -/
def uploadPieces (payload : Bytes) : List Bytes :=
  ((List.range (payload.length / uploadBlockSize)).map fun k =>
    subspan payload (uploadBlockSize * k) uploadBlockSize) ++ [[]]

/-- The frames of an upload: piece `k` goes to `128 * k` bytes after the load address. -/
def uploadFrames (channel : UdsChannel) (loadAddress : UInt32) (payload : Bytes) : List Bytes :=
  (uploadPieces payload).mapIdx fun k piece => channel.frameOf (blockRequest loadAddress k piece)

section Spec

variable {ctx : UdsContext} {policy : BeefKernelTransferPolicy} {loadAddress : UInt32} {payload : Bytes}

theorem outside_sends {α : Type} {program : List Bytes} {m : CanRun α} (h : Sends taken? program m) :
    Sends frame? program (outside m) := by
  have hevents : ∀ script, sent frame? (outside m script).events = sent taken? (m script).events :=
    fun _ => List.filterMap_map
  intro script
  rw [hevents]
  exact h script

/-- An exchange sends no frame of a block. -/
theorem exchange_silent (policy : ExchangePolicy) (pdu : Bytes) :
    Sends frame? [] (ctx.fatalRequest policy pdu) := fun _ => ⟨List.nil_prefix, fun _ _ => rfl⟩

theorem poll_silent : Sends taken? [] poll := fun _ => ⟨List.nil_prefix, fun _ _ => rfl⟩

theorem guardedRead_silent (timeout : ℤ) : Sends taken? [] (guardedRead timeout) := by
  have hread : Sends taken? [] (transportRead timeout) := fun _ => ⟨List.nil_prefix, fun _ _ => rfl⟩
  exact poll_silent.bind fun _ => .ite (.fail _ _) hread

/-- A write that succeeds sends its frame. -/
theorem guardedWrite_sends (frame : Bytes) : Sends taken? [frame] (guardedWrite frame) := by
  have hwrite : Sends taken? [frame] (transportWrite frame) := by
    intro script
    have hrun : transportWrite frame script =
        ⟨(script.headD default).status, [.write frame (script.headD default).status], script.tail⟩ := rfl
    rw [hrun]
    cases (script.headD default).status with
    | ok u => exact ⟨List.prefix_refl _, fun _ _ => rfl⟩
    | error e => exact ⟨List.nil_prefix, fun _ h => by cases h⟩
  exact poll_silent.bind fun _ => .ite (.fail _ _) hwrite

theorem checkCancelled_silent (detail : String) : Sends frame? [] (checkCancelled detail) :=
  (outside_sends poll_silent).bind fun _ => .ite (.fail _ _) (.pure ())

theorem ignoreReply_silent : Sends frame? [] (ignoreReply policy) := by
  have hattempt : Sends frame? [] (attempt (outside (guardedRead policy.blockReplyTimeout))) := by
    intro script
    have hread := (outside_sends (guardedRead_silent policy.blockReplyTimeout) script).1
    exact ⟨hread, fun _ _ => List.prefix_nil.1 hread⟩
  refine hattempt.bind ?_
  rintro (e | frame)
  · exact .ite (.fail _ _) (.pure ())
  · exact .pure ()

theorem uploadBlock_sends (k : ℕ) : Sends frame?
    [ctx.channel.frameOf (blockRequest loadAddress k (subspan payload (uploadBlockSize * k)
      (min uploadBlockSize (payload.length - uploadBlockSize * k))))]
    (uploadBlock ctx policy loadAddress payload k) := by
  rw [← List.append_nil [_]]
  refine (outside_sends (guardedWrite_sends _)).bind fun _ => ?_
  exact ignoreReply_silent.bind fun _ => checkCancelled_silent _

/-- The pieces are whole blocks, and the empty one. -/
theorem uploadPieces_eq (h : payload.length % uploadBlockSize = 0) : ∃ blocks,
    uploadPieces payload = blocks ++ [[]] ∧ blocks.flatten = payload ∧
      (∀ block ∈ blocks, block.length = uploadBlockSize) := by
  have hwhole : uploadBlockSize * (payload.length / uploadBlockSize) = payload.length :=
    Nat.mul_div_cancel' (Nat.dvd_of_mod_eq_zero h)
  refine ⟨_, rfl, ?_, ?_⟩
  · rw [← List.flatMap_def, flatMap_subspan, hwhole, List.take_length]
  · intro block hblock
    obtain ⟨k, hk, rfl⟩ := List.mem_map.1 hblock
    have hlt := List.mem_range.1 hk
    refine length_subspan ?_
    rw [← Nat.mul_succ, ← hwhole]
    exact Nat.mul_le_mul_left _ hlt

/-- The frames are those of the turns of the loop. -/
theorem uploadFrames_eq (channel : UdsChannel) (h : payload.length % uploadBlockSize = 0) :
    uploadFrames channel loadAddress payload =
      (List.range (payload.length / uploadBlockSize + 1)).map fun k =>
        channel.frameOf (blockRequest loadAddress k (subspan payload (uploadBlockSize * k)
          (min uploadBlockSize (payload.length - uploadBlockSize * k)))) := by
  have hwhole : uploadBlockSize * (payload.length / uploadBlockSize) = payload.length :=
    Nat.mul_div_cancel' (Nat.dvd_of_mod_eq_zero h)
  have hlast : subspan payload (uploadBlockSize * (payload.length / uploadBlockSize))
      (min uploadBlockSize (payload.length - uploadBlockSize * (payload.length / uploadBlockSize))) = [] := by
    rw [hwhole, Nat.sub_self, Nat.min_zero, subspan, List.take_zero]
  rw [List.range_succ, List.map_append, List.map_singleton, hlast, uploadFrames, uploadPieces, List.mapIdx_append,
    List.length_map, List.length_range, List.mapIdx_singleton, Nat.zero_add]
  congr 1
  rw [List.mapIdx_eq_iff]
  intro k
  by_cases hk : k < payload.length / uploadBlockSize
  · have hroom : uploadBlockSize * (k + 1) ≤ payload.length := by
      rw [← hwhole]
      exact Nat.mul_le_mul_left _ hk
    rw [Nat.mul_succ] at hroom
    rw [List.getElem?_map, List.getElem?_map, List.getElem?_range hk, Option.map_some, Option.map_some,
      Option.map_some, Nat.min_eq_left (by omega)]
  · rw [List.getElem?_map, List.getElem?_map, List.getElem?_eq_none (by rw [List.length_range]; omega),
      Option.map_none, Option.map_none, Option.map_none]

/-- **An upload sends the frames of its payload.** -/
theorem transferPayload_sends {family : String} {kernel : KernelImage}
    (h : preparePayload kernel.bytes family = .ok payload) (hblocks : payload.length % uploadBlockSize = 0) :
    Sends frame? (uploadFrames ctx.channel kernel.loadAddress payload)
      (transferPayload ctx policy family kernel) := by
  rw [uploadFrames_eq ctx.channel hblocks, transferPayload, h, ofExcept_ok_bind]
  refine (exchange_silent _ _).bind fun reply => ?_
  cases hreply : checkDownload reply with
  | error e => exact .fail _ e
  | ok u =>
    rw [ofExcept_ok_bind]
    exact .each_map fun k _ => uploadBlock_sends k

/-- **What the ECU gets of a kernel.** A kernel whose blocks the length on the wire can count is uploaded: what the
payload decrypts to are whole blocks whose words sum to the target, and which hold the kernel, then zeros, up to the
last word; the frames are those of pieces that make up the payload, and of an empty piece.  Another kernel is refused
before anything is sent. -/
theorem transferPayload_spec (ctx : UdsContext) (policy : BeefKernelTransferPolicy) (family : String)
    (kernel : KernelImage) (h : kernel.bytes ≠ []) :
    (uploadSize kernel.bytes < 0x1000000 → ∃ payload blocks,
      preparePayload kernel.bytes family = .ok payload ∧ PlainKernel kernel.bytes (densoDecryptPage payload) ∧
        blocks.flatten = payload ∧ (∀ block ∈ blocks, block.length = uploadBlockSize) ∧
        Sends frame? ((blocks ++ [[]]).mapIdx fun k piece =>
          ctx.channel.frameOf (blockRequest kernel.loadAddress k piece)) (transferPayload ctx policy family kernel)) ∧
    (0x1000000 ≤ uploadSize kernel.bytes → ∃ e, ∀ script,
      (transferPayload ctx policy family kernel script).result = .error e ∧
        (transferPayload ctx policy family kernel script).events = []) := by
  refine ⟨fun hsize => ?_, fun hsize => ?_⟩
  · obtain ⟨payload, hpayload, hlength, hplain⟩ := Beef.preparePayload_spec h hsize family
    have hblocks : payload.length % uploadBlockSize = 0 := hlength ▸ (Beef.uploadSize_bounds h).2.1
    obtain ⟨blocks, hpieces, hflatten, hwhole⟩ := uploadPieces_eq hblocks
    refine ⟨payload, blocks, hpayload, hplain, hflatten, hwhole, ?_⟩
    rw [← hpieces]
    exact transferPayload_sends hpayload hblocks
  · obtain ⟨e, herror⟩ := Beef.preparePayload_large hsize family
    refine ⟨e, fun script => ?_⟩
    rw [transferPayload, herror]
    exact ⟨rfl, rfl⟩

/-- A kernel of three bytes is there as a whole. -/
theorem transferPayload_spec_short : ∃ payload, preparePayload [0x01, 0x02, 0x03] "petrol" = .ok payload ∧
    [0x01, 0x02, 0x03] <+: densoDecryptPage payload := by
  obtain ⟨payload, -, hpayload, hplain, -⟩ := (transferPayload_spec ⟨⟨0x7E0, 0x7E8⟩, ⟨fun _ => none, fun _ => none, fun _ => none, fun _ => none, fun _ => none⟩⟩ ⟨{}, 200⟩ "petrol"
    ⟨0x1000, [0x01, 0x02, 0x03]⟩ (by decide)).1 (by decide)
  exact ⟨payload, hpayload, hplain.whole (by decide)⟩

/-- The balance replaces the last word of a kernel that fills its block. -/
theorem full_kernel_cut : ¬ ∀ kernel : KernelImage, kernel.bytes ≠ [] → ∀ family payload,
    preparePayload kernel.bytes family = .ok payload → kernel.bytes <+: densoDecryptPage payload := by
  intro hall
  have hne : List.replicate 128 (0x00 : Byte) ≠ [] := List.cons_ne_nil _ _
  have hsize : uploadSize (List.replicate 128 0x00) = 128 := by rw [uploadSize, List.length_replicate]; rfl
  obtain ⟨payload, hpayload, hlength, hplain⟩ := Beef.preparePayload_spec hne (by rw [hsize]; decide) "petrol"
  have hprefix := hall ⟨0x1000, List.replicate 128 0x00⟩ hne "petrol" payload hpayload
  have heq := hprefix.eq_of_length (by rw [hplain.length, hsize, List.length_replicate])
  -- zeros do not sum to the target
  have hsum := hplain.sum
  rw [← heq] at hsum
  revert hsum
  decide +kernel

end Spec

end FastEcu.Flash.BeefCanKernel
