import FastEcu.Flash.BeefTrace

/-!
# Flash devices

The part of `src/backend/flash/kernel/kernelmemorymodels.h` that the BEEF K-line executors use: the size
of the ROM of a device and its flash blocks.

* `FlashDevice` : a device.
* `FlashDevice.Regular` : its blocks are apart, of whole windows and of a ROM that 24 bits address.
-/

namespace FastEcu.Flash.Beef

/-- The fields of `FlashDevice` that a write or a read uses. -/
structure FlashDevice where
  romsize : ℕ
  fblocks : List MemoryRegion

/-- `kFlashBlocksSH7055`. -/
def flashBlocksSH7055 : List MemoryRegion :=
  [⟨0x00000000, 0x00001000⟩, ⟨0x00001000, 0x00001000⟩, ⟨0x00002000, 0x00001000⟩,
    ⟨0x00003000, 0x00001000⟩, ⟨0x00004000, 0x00001000⟩, ⟨0x00005000, 0x00001000⟩,
    ⟨0x00006000, 0x00001000⟩, ⟨0x00007000, 0x00001000⟩, ⟨0x00008000, 0x00008000⟩,
    ⟨0x00010000, 0x00010000⟩, ⟨0x00020000, 0x00010000⟩, ⟨0x00030000, 0x00010000⟩,
    ⟨0x00040000, 0x00010000⟩, ⟨0x00050000, 0x00010000⟩, ⟨0x00060000, 0x00010000⟩,
    ⟨0x00070000, 0x00010000⟩]

/-- `kFlashBlocksSH7058`. -/
def flashBlocksSH7058 : List MemoryRegion :=
  [⟨0x00000000, 0x00001000⟩, ⟨0x00001000, 0x00001000⟩, ⟨0x00002000, 0x00001000⟩,
    ⟨0x00003000, 0x00001000⟩, ⟨0x00004000, 0x00001000⟩, ⟨0x00005000, 0x00001000⟩,
    ⟨0x00006000, 0x00001000⟩, ⟨0x00007000, 0x00001000⟩, ⟨0x00008000, 0x00018000⟩,
    ⟨0x00020000, 0x00020000⟩, ⟨0x00040000, 0x00020000⟩, ⟨0x00060000, 0x00020000⟩,
    ⟨0x00080000, 0x00020000⟩, ⟨0x000A0000, 0x00020000⟩, ⟨0x000C0000, 0x00020000⟩,
    ⟨0x000E0000, 0x00020000⟩]

/-- `kFlashBlocksMC68HC16Y5`. -/
def flashBlocksMC68HC16Y5 : List MemoryRegion :=
  [⟨0x00000000, 0x00004000⟩, ⟨0x00004000, 0x00004000⟩, ⟨0x00008000, 0x00004000⟩,
    ⟨0x0000C000, 0x00004000⟩, ⟨0x00010000, 0x00004000⟩, ⟨0x00014000, 0x00004000⟩,
    ⟨0x00018000, 0x00004000⟩, ⟨0x0001C000, 0x00004000⟩, ⟨0x00028000, 0x00004000⟩,
    ⟨0x0002C000, 0x00004000⟩]

/-- `kRamBlocksMC68HC16Y5`: the RAM between two of the flash blocks. -/
def ramBlockMC68HC16Y5 : MemoryRegion := ⟨0x00020000, 0x00008000⟩

namespace FlashDevice

/-- The entry for `SH7055`. -/
def sh7055 : FlashDevice := ⟨512 * 1024, flashBlocksSH7055⟩

/-- The entry for `SH7058`. -/
def sh7058 : FlashDevice := ⟨1024 * 1024, flashBlocksSH7058⟩

/-- The entry for `MC68HC16Y5`. -/
def mc68hc16y5 : FlashDevice := ⟨160 * 1024, flashBlocksMC68HC16Y5⟩

/-- The blocks of a device are apart and of whole windows, and they end within 24 bits. -/
structure Regular (device : FlashDevice) : Prop where
  apart : device.fblocks.Pairwise MemoryRegion.Apart
  positive : ∀ block ∈ device.fblocks, 0 < block.length.toNat
  aligned : ∀ block ∈ device.fblocks, block.length.toNat % commitSize = 0
  short : ∀ block ∈ device.fblocks, block.start.toNat + block.length.toNat < 2 ^ 24

end FlashDevice

/-- Regions that follow one another are apart. -/
theorem pairwise_apart {blocks : List MemoryRegion}
    (hends : ∀ block ∈ blocks, block.start.toNat + block.length.toNat ≤ 2 ^ 32)
    (h : blocks.Pairwise fun b b' => b.start.toNat + b.length.toNat ≤ b'.start.toNat) :
    blocks.Pairwise MemoryRegion.Apart := by
  refine h.imp_of_mem ?_
  rintro b b' hb hb' hle a ⟨hfirst, hsecond⟩
  rw [MemoryRegion.has_iff (hends b hb)] at hfirst
  rw [MemoryRegion.has_iff (hends b' hb')] at hsecond
  omega

namespace FlashDevice

theorem sh7055_regular : sh7055.Regular :=
  ⟨pairwise_apart (by decide) (by decide), by decide, by decide, by decide⟩

theorem sh7058_regular : sh7058.Regular :=
  ⟨pairwise_apart (by decide) (by decide), by decide, by decide, by decide⟩

theorem mc68hc16y5_regular : mc68hc16y5.Regular :=
  ⟨pairwise_apart (by decide) (by decide), by decide, by decide, by decide⟩

/-- The RAM is apart from the flash. -/
theorem mc68hc16y5_ram {block : MemoryRegion} (h : block ∈ mc68hc16y5.fblocks) :
    block.Apart ramBlockMC68HC16Y5 := by
  have hends : block.start.toNat + block.length.toNat ≤ 2 ^ 32 :=
    (mc68hc16y5_regular.short block h).le.trans (by decide)
  have haway : ∀ b ∈ mc68hc16y5.fblocks, b.start.toNat + b.length.toNat ≤ 0x20000 ∨
      0x28000 ≤ b.start.toNat := by decide
  rintro a ⟨hblock, hram⟩
  rw [MemoryRegion.has_iff hends] at hblock
  rw [MemoryRegion.has_iff (by decide)] at hram
  have hbounds : (0x20000 ≤ a.toNat ∧ a.toNat < 0x28000) := hram
  have := haway block h
  omega

end FlashDevice

end FastEcu.Flash.Beef
