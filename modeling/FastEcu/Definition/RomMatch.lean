import FastEcu.Definition.Catalog

/-!
# The definition of a ROM

`DefinitionService::MatchRom` (`src/backend/definition/definition_service.cpp`) goes through the
catalog and returns the first entry whose id is in the ROM at the address that the entry gives.

* `identifierCandidates`, `idAt`, `matchRom` : the functions of the service.
* `FoundAt` : some bytes lie at a definition address, within one block of the file.
* `EntryMatches` : an entry that the ROM has the id of.
* `matchRom_spec` : the first entry that matches, whatever the other entries are like.
-/

namespace FastEcu.Definition

open Memory
open Calibration (Error invalidConfig)

/-! ### The bytes of an id -/

/-- `HexNibble`. -/
def hexNibble (character : Byte) : Option Byte :=
  if 0x30 ≤ character ∧ character ≤ 0x39 then some (character - 0x30)
  else if 0x61 ≤ character ∧ character ≤ 0x66 then some (character - 0x61 + 10)
  else if 0x41 ≤ character ∧ character ≤ 0x46 then some (character - 0x41 + 10)
  else none

/-- The loop of `IdentifierBytes`, two digits a turn, with what it has so far. -/
def decodeHex (decoded : Bytes) : Bytes → Except Error Bytes
  | first :: second :: rest =>
    match hexNibble first, hexNibble second with
    | some high, some low => decodeHex (decoded ++ [(high <<< 4) ||| low]) rest
    | _, _ => invalidConfig "identifier contains a non-hexadecimal digit"
  | _ => .ok decoded

/-- `IdentifierBytes`. -/
def identifierBytes (identifier : Bytes) (encoding : IdEncoding) : Except Error Bytes :=
  if encoding = .ascii then .ok identifier
  else if identifier.length % 2 ≠ 0 then invalidConfig "hexadecimal identifier has odd length"
  else decodeHex [] identifier

/-- `IdentifierCandidates`. -/
def identifierCandidates (identifier : Bytes) (encoding : IdEncoding) : Except Error (List Bytes) :=
  if encoding ≠ .asciiOrHex then
    match identifierBytes identifier encoding with
    | .error e => .error e
    | .ok candidate => .ok [candidate]
  else
    match identifierBytes identifier .hex with
    | .error _ => .ok [identifier]
    | .ok hexadecimal => .ok [identifier, hexadecimal]

/-- The bytes of a text. -/
def textBytes (text : String) : Bytes := text.toUTF8.data.toList

/-! ### The search -/

/-- `IdAt`. -/
def idAt (memoryMap : MemoryMap) (rom : Bytes) (address : DefinitionAddress) (candidate : Bytes) :
    Bool :=
  match memoryMap.toFlashAddress address, ByteCount.fromSize candidate.length with
  | some start, some size =>
    match AddressRange.make start size with
    | none => false
    | some range =>
      match memoryMap.fileOffsetOf range with
      | none => false
      | some offset => candidate == subspan rom offset.value candidate.length
  | _, _ => false

/-- The loop body of `MatchRom`: whether the entry is returned. -/
def entryMatches (catalog : DefinitionCatalog) (rom : Bytes) (memoryMaps : String → Option MemoryMap)
    (entry : DefinitionIndexEntry) : Bool :=
  if entry.internalId = "" then false
  else
    match identifierCandidates (textBytes entry.internalId) entry.internalIdEncoding with
    | .error _ => false
    | .ok candidates =>
      match entry.internalIdAddress with
      | none => false
      | some address =>
        match memoryMaps (effectiveFlashMethod catalog entry []) with
        | none => false
        | some memoryMap =>
          if memoryMap.fileSize.value ≠ rom.length then false
          else candidates.any (idAt memoryMap rom address)

/-- The loop of `MatchRom`. -/
def matchEntries (catalog : DefinitionCatalog) (rom : Bytes)
    (memoryMaps : String → Option MemoryMap) :
    List DefinitionIndexEntry → Except Error DefinitionIndexEntry
  | [] => invalidConfig "no matching ROM definition found"
  | entry :: entries =>
    if entryMatches catalog rom memoryMaps entry then .ok entry
    else matchEntries catalog rom memoryMaps entries

/-- `DefinitionService::MatchRom`; the memory map of a flash method is looked up outside. -/
def matchRom (catalog : DefinitionCatalog) (rom : Bytes) (memoryMaps : String → Option MemoryMap) :
    Except Error DefinitionIndexEntry :=
  matchEntries catalog rom memoryMaps catalog.entries

/-! ### What is looked for -/

/-- The text is the hexadecimal digits of the bytes, two for each. -/
inductive HexDigits : Bytes → Bytes → Prop
  | nil : HexDigits [] []
  | cons {first second high low : Byte} {text bytes : Bytes} {byte : Byte}
      (hfirst : hexNibble first = some high) (hsecond : hexNibble second = some low)
      (hbyte : byte.toNat = 16 * high.toNat + low.toNat) (h : HexDigits text bytes) :
      HexDigits (first :: second :: text) (byte :: bytes)

/-- What the id of the entry may stand for: the bytes of its text, or those that the text denotes. -/
inductive Denotes (entry : DefinitionIndexEntry) : Bytes → Prop
  | text (h : entry.internalIdEncoding ≠ .hex) : Denotes entry (textBytes entry.internalId)
  | hex {bytes : Bytes} (h : entry.internalIdEncoding ≠ .ascii)
      (hdigits : HexDigits (textBytes entry.internalId) bytes) : Denotes entry bytes

/-- The bytes lie in the ROM from the definition address on, within one block of the file. -/
structure FoundAt (memoryMap : MemoryMap) (rom : Bytes) (address : DefinitionAddress)
    (id : Bytes) : Prop where
  ne_nil : id ≠ []
  within : ∃ block ∈ memoryMap.blocks, ∀ k < id.length, ∃ a : FlashAddress,
    a.value = memoryMap.definitionBase.value + address.value + k ∧ block.range.contains a = true ∧
      ∃ o, block.fileOffsetAt a.value = some o ∧ rom[o]? = id[k]?

/-- The ROM has an id of the entry where the entry says. -/
def EntryMatches (catalog : DefinitionCatalog) (rom : Bytes) (memoryMaps : String → Option MemoryMap)
    (entry : DefinitionIndexEntry) : Prop :=
  entry.internalId ≠ "" ∧ ∃ address memoryMap id, entry.internalIdAddress = some address ∧
    memoryMaps (effectiveFlashMethod catalog entry []) = some memoryMap ∧
    memoryMap.fileSize.value = rom.length ∧ Denotes entry id ∧ FoundAt memoryMap rom address id

/-! ### One file-backed block -/

section Block

variable {memoryMap : MemoryMap} {range : AddressRange FlashSpace}

/-- Behind the end of the range, the walk has nothing. -/
theorem slicesFrom_stop (stop : FlashAddress) (blocks : List MemoryBlock) :
    slicesFrom stop stop blocks = [] := by
  cases blocks with
  | nil => exact dif_neg (lt_irrefl stop.value)
  | cons block rest =>
    have hgap : ¬ stop < min block.range.start stop := by
      rw [TaggedPosition.lt_iff, TaggedPosition.min_value]
      omega
    have hblock : ¬ max stop (min block.range.start stop) < min block.range.stop stop := by
      rw [TaggedPosition.lt_iff, TaggedPosition.min_value, TaggedPosition.max_value]
      omega
    rw [slicesFrom, gapSlice, dif_neg hgap, dif_neg hblock, List.append_nil]

/-- A range within one block has one slice. -/
theorem slices_of_block {block : MemoryBlock} (hmem : block ∈ memoryMap.blocks)
    (hstart : block.range.start.value ≤ range.start.value)
    (hstop : range.stop.value ≤ block.range.stop.value) :
    ∃ slice, memoryMap.slices range = [slice] ∧ slice.range.start = range.start := by
  have hlt := range.start_lt_stop
  obtain ⟨front, back, hblocks⟩ := List.append_of_mem hmem
  have hordered := memoryMap.layout.ordered
  rw [hblocks, List.pairwise_append] at hordered
  -- the blocks before it end before the range starts
  have hdrop : (memoryMap.blocks.dropWhile fun b => decide (b.range.stop ≤ range.start)) =
      block :: back := by
    rw [hblocks, List.dropWhile_append_of_pos, List.dropWhile_cons_of_neg]
    · rw [decide_eq_true_eq, TaggedPosition.le_iff]
      omega
    · intro b hb
      have hle := hordered.2.2 b hb block (List.mem_cons_self ..)
      rw [decide_eq_true_eq, TaggedPosition.le_iff]
      omega
  rw [MemoryMap.slices, hdrop, slicesFrom]
  have hgap : ¬ range.start < min block.range.start range.stop := by
    rw [TaggedPosition.lt_iff, TaggedPosition.min_value]
    omega
  have hfirst : max range.start (min block.range.start range.stop) = range.start := by
    apply TaggedPosition.ext
    rw [TaggedPosition.max_value, TaggedPosition.min_value]
    omega
  have hlast : min block.range.stop range.stop = range.stop := by
    apply TaggedPosition.ext
    rw [TaggedPosition.min_value]
    omega
  have hrest : slicesFrom range.stop (min block.range.stop range.stop) back = [] := by
    rw [hlast]
    exact slicesFrom_stop _ _
  rw [gapSlice, dif_neg hgap, List.nil_append, dif_pos (by rw [hfirst, hlast]; exact hlt), hrest]
  exact ⟨_, rfl, hfirst⟩

/-- **A range has a file offset** just if one file-backed block holds all of it. -/
theorem fileOffsetOf_eq_some_iff {offset : FileOffset} :
    memoryMap.fileOffsetOf range = some offset ↔ ∃ block ∈ memoryMap.blocks,
      block.range.start.value ≤ range.start.value ∧
      range.stop.value ≤ block.range.stop.value ∧
      block.fileOffsetAt range.start.value = some offset.value := by
  constructor
  · intro h
    rw [MemoryMap.fileOffsetOf] at h
    split at h
    · rename_i slice hslices
      have hmem : slice ∈ memoryMap.slices range := by
        rw [hslices]
        exact List.mem_singleton_self slice
      have hcontiguous := memoryMap.contiguous_slices range
      rw [hslices] at hcontiguous
      obtain ⟨hfirst, hlast⟩ := hcontiguous
      -- the only slice is the whole range
      have hstart : slice.range.start = range.start := TaggedPosition.ext hfirst
      have hsum : range.start.value + slice.range.size.value = range.stop.value := hlast
      rw [AddressRange.stop_value] at hsum
      have hplace := MemoryMap.fileStart_of_mem_slices hmem
      rw [h, Option.map_some, hstart, eq_comm] at hplace
      obtain ⟨block, hblock, hcontains, hoffset⟩ := MemoryMap.place_eq_some_iff.1 hplace
      have hpos := range.size_pos
      have hfits := range.fits
      let last : FlashAddress := ⟨range.start.value + range.size.value - 1, by omega⟩
      have hlastIn : slice.range.contains last = true :=
        AddressRange.contains_iff.2 ⟨by rw [hstart]; simp only [last]; omega,
          by rw [hstart]; simp only [last]; omega⟩
      have hfirstIn : slice.range.contains range.start = true :=
        AddressRange.contains_iff.2 ⟨by rw [hstart], by rw [hstart]; omega⟩
      have hsame := (MemoryMap.blockAt_of_mem_slices hmem hlastIn).trans
        (MemoryMap.blockAt_of_mem_slices hmem hfirstIn).symm
      rw [MemoryMap.blockAt_eq_some_iff.2 ⟨hblock, hcontains⟩] at hsame
      have hblockLast := AddressRange.contains_iff.1 (MemoryMap.blockAt_eq_some_iff.1 hsame).2
      refine ⟨block, hblock, (AddressRange.contains_iff.1 hcontains).1, ?_, hoffset⟩
      rw [AddressRange.stop_value, AddressRange.stop_value]
      simp only [last] at hblockLast
      omega
    · cases h
  · rintro ⟨block, hblock, hstart, hstop, hoffset⟩
    obtain ⟨slice, hslices, hfirst⟩ := slices_of_block hblock hstart hstop
    have hmem : slice ∈ memoryMap.slices range := by
      rw [hslices]
      exact List.mem_singleton_self slice
    have hplace := MemoryMap.fileStart_of_mem_slices hmem
    have hcontains : block.range.contains range.start = true := by
      have hpos := range.size_pos
      simp only [AddressRange.stop_value] at hstop
      exact AddressRange.contains_iff.2 ⟨hstart, by omega⟩
    rw [hfirst, MemoryMap.place_eq_some_iff.2 ⟨block, hblock, hcontains, hoffset⟩,
      Option.map_eq_some_iff] at hplace
    obtain ⟨found, hfound, hvalue⟩ := hplace
    rw [MemoryMap.fileOffsetOf, hslices]
    exact hfound.trans (congrArg some (TaggedPosition.ext hvalue))

end Block

/-! ### Bytes at an address -/

section Found

variable {memoryMap : MemoryMap} {rom id : Bytes} {address : DefinitionAddress}

theorem fileOffsetAt_add {block : MemoryBlock} {a o k : ℕ} (hle : block.range.start.value ≤ a)
    (h : block.fileOffsetAt a = some o) : block.fileOffsetAt (a + k) = some (o + k) := by
  obtain ⟨offset, hbacking, hoffset⟩ := MemoryMap.fileOffsetAt_eq_some_iff.1 h
  exact MemoryMap.fileOffsetAt_eq_some_iff.2 ⟨offset, hbacking, by omega⟩

/-- What the service finds is in the ROM. -/
theorem foundAt_of_idAt (h : idAt memoryMap rom address id = true) :
    FoundAt memoryMap rom address id := by
  rw [idAt] at h
  split at h
  · rename_i start size hstart hsize
    split at h
    · cases h
    · rename_i range hrange
      split at h
      · cases h
      · rename_i offset hoffset
        have hvalue := TaggedPosition.advance_eq_some_iff.1 hstart
        obtain ⟨hrangeStart, hrangeSize⟩ := AddressRange.make_eq_some_iff.1 hrange
        have hlength : range.size.value = id.length := by
          rw [hrangeSize]
          unfold ByteCount.fromSize at hsize
          split at hsize
          · rw [← Option.some.inj hsize]
          · cases hsize
        obtain ⟨block, hblock, hbefore, hafter, hfile⟩ := fileOffsetOf_eq_some_iff.1 hoffset
        have hpos := range.size_pos
        have hfits := range.fits
        rw [AddressRange.stop_value, AddressRange.stop_value] at hafter
        have hstartValue : range.start.value = start.value := congrArg _ hrangeStart
        refine ⟨fun hnil => ?_, block, hblock, fun k hk => ?_⟩
        · rw [hnil, List.length_nil] at hlength
          omega
        · refine ⟨⟨range.start.value + k, by omega⟩, ?_, ?_, offset.value + k,
            fileOffsetAt_add hbefore hfile, ?_⟩
          · simp only at hvalue ⊢
            omega
          · exact AddressRange.contains_iff.2 ⟨by simp only; omega, by simp only; omega⟩
          · rw [← getElem?_subspan hk, ← eq_of_beq h]
  · cases h

/-- What is in the ROM is found by the service. -/
theorem idAt_of_foundAt (h : FoundAt memoryMap rom address id) :
    idAt memoryMap rom address id = true := by
  obtain ⟨hne, block, hblock, hbytes⟩ := h
  have hpos := List.length_pos_of_ne_nil hne
  obtain ⟨start, hstart, hstartIn, offset, hoffset, -⟩ := hbytes 0 hpos
  obtain ⟨last, hlast, hlastIn, -, -, -⟩ := hbytes (id.length - 1) (by omega)
  obtain ⟨hbefore, -⟩ := AddressRange.contains_iff.1 hstartIn
  obtain ⟨-, hafter⟩ := AddressRange.contains_iff.1 hlastIn
  have hfits := block.range.fits
  have hflash : memoryMap.toFlashAddress address = some start :=
    TaggedPosition.advance_eq_some_iff.2 (by simpa using hstart)
  have hsize : ByteCount.fromSize id.length = some ⟨id.length, by omega⟩ := dif_pos (by omega)
  have hplace : memoryMap.place start = some offset :=
    MemoryMap.place_eq_some_iff.2 ⟨block, hblock, hstartIn, hoffset⟩
  have hlt := MemoryMap.place_lt hplace
  have hfile := memoryMap.fileSize.lt
  let range : AddressRange FlashSpace := ⟨start, ⟨id.length, by omega⟩, hpos, by simp only; omega⟩
  have hrange : AddressRange.make start ⟨id.length, by omega⟩ = some range :=
    AddressRange.make_eq_some_iff.2 ⟨rfl, rfl⟩
  have hplaced : memoryMap.fileOffsetOf range = some ⟨offset, by omega⟩ := by
    refine fileOffsetOf_eq_some_iff.2 ⟨block, hblock, hbefore, ?_, hoffset⟩
    rw [AddressRange.stop_value, AddressRange.stop_value]
    simp only [range]
    omega
  have hequal : id = subspan rom offset id.length := by
    refine List.ext_getElem? fun k => ?_
    rcases lt_or_ge k id.length with hk | hk
    · obtain ⟨a, ha, -, o, ho, hbyte⟩ := hbytes k hk
      have haddress : a.value = start.value + k := by omega
      rw [haddress, fileOffsetAt_add hbefore hoffset] at ho
      rw [getElem?_subspan hk, Option.some.inj ho, hbyte]
    · rw [List.getElem?_eq_none hk, subspan, List.getElem?_take_eq_none hk]
  rw [idAt, hflash, hsize]
  dsimp only
  rw [hrange]
  dsimp only
  rw [hplaced]
  exact beq_iff_eq.2 hequal

end Found

/-! ### Hexadecimal ids -/

theorem hexNibble_lt {character nibble : Byte} (h : hexNibble character = some nibble) :
    nibble.toNat < 16 := by
  unfold hexNibble at h
  split at h
  · rename_i hrange
    have hle := UInt8.le_iff_toNat_le.1 hrange.2
    rw [← Option.some.inj h, UInt8.toNat_sub_of_le _ _ hrange.1]
    simp only [UInt8.reduceToNat] at hle ⊢
    omega
  · split at h
    · rename_i hrange
      have hge := UInt8.le_iff_toNat_le.1 hrange.1
      have hle := UInt8.le_iff_toNat_le.1 hrange.2
      rw [← Option.some.inj h, UInt8.toNat_add, UInt8.toNat_sub_of_le _ _ hrange.1]
      simp only [UInt8.reduceToNat] at hge hle ⊢
      omega
    · split at h
      · rename_i hrange
        have hge := UInt8.le_iff_toNat_le.1 hrange.1
        have hle := UInt8.le_iff_toNat_le.1 hrange.2
        rw [← Option.some.inj h, UInt8.toNat_add, UInt8.toNat_sub_of_le _ _ hrange.1]
        simp only [UInt8.reduceToNat] at hge hle ⊢
        omega
      · cases h

/-- Two nibbles make a byte. -/
theorem toNat_nibbles {high low : Byte} (hhigh : high.toNat < 16) (hlow : low.toNat < 16) :
    ((high <<< 4) ||| low).toNat = 16 * high.toNat + low.toNat := by
  have hshift : (high <<< 4).toNat = high.toNat <<< 4 := by
    rw [UInt8.toNat_shiftLeft]
    change high.toNat <<< 4 % 2 ^ 8 = high.toNat <<< 4
    rw [Nat.shiftLeft_eq]
    exact Nat.mod_eq_of_lt (by omega)
  rw [UInt8.toNat_or, hshift, shiftLeft_or_eq hlow]
  omega

/-- What the loop over the digits decodes is what they denote. -/
theorem hexDigits_of_decodeHex {before text decoded : Bytes} (heven : text.length % 2 = 0)
    (h : decodeHex before text = .ok decoded) :
    ∃ bytes, decoded = before ++ bytes ∧ HexDigits text bytes := by
  fun_induction decodeHex before text with
  | case1 before first second rest high low hlow hhigh ih =>
    rw [List.length_cons, List.length_cons] at heven
    obtain ⟨bytes, rfl, hrest⟩ := ih (by omega) h
    refine ⟨_, List.append_assoc _ _ _, .cons hhigh hlow ?_ hrest⟩
    exact toNat_nibbles (hexNibble_lt hhigh) (hexNibble_lt hlow)
  | case2 => cases h
  | case3 text before hshort =>
    cases h
    -- an even number of characters below two is none
    rcases text with _ | ⟨first, _ | ⟨second, rest⟩⟩
    · exact ⟨[], (List.append_nil _).symm, .nil⟩
    · simp at heven
    · exact absurd rfl (hshort first second rest)

theorem decodeHex_of_hexDigits {text bytes : Bytes} (h : HexDigits text bytes) (before : Bytes) :
    decodeHex before text = .ok (before ++ bytes) ∧ text.length % 2 = 0 := by
  induction h generalizing before with
  | nil => exact ⟨by rw [decodeHex, List.append_nil]; exact fun _ _ _ h => (by cases h), rfl⟩
  | @cons first second high low text bytes byte hfirst hsecond hbyte _ ih =>
    obtain ⟨hdecoded, heven⟩ := ih (before ++ [byte])
    have hsame : (high <<< 4) ||| low = byte := by
      apply UInt8.toNat_inj.1
      rw [toNat_nibbles (hexNibble_lt hfirst) (hexNibble_lt hsecond), hbyte]
    refine ⟨?_, by rw [List.length_cons, List.length_cons]; omega⟩
    rw [decodeHex, hfirst, hsecond]
    dsimp only
    rw [hsame, hdecoded, List.append_assoc, List.singleton_append]

/-- The text of an id in hexadecimal digits. -/
theorem identifierBytes_hex_eq_ok_iff {text bytes : Bytes} {encoding : IdEncoding}
    (h : encoding ≠ .ascii) :
    identifierBytes text encoding = .ok bytes ↔ HexDigits text bytes := by
  rw [identifierBytes, if_neg h]
  constructor
  · intro hbytes
    split at hbytes
    · cases hbytes
    · rename_i heven
      obtain ⟨decoded, rfl, hdigits⟩ := hexDigits_of_decodeHex (not_not.1 heven) hbytes
      exact hdigits
  · intro hdigits
    obtain ⟨hdecoded, heven⟩ := decodeHex_of_hexDigits hdigits []
    rw [if_neg (not_not.2 heven)]
    exact hdecoded

/-- **The candidates** for an id are what it may stand for. -/
theorem mem_identifierCandidates {entry : DefinitionIndexEntry} {id : Bytes} :
    (∃ candidates, identifierCandidates (textBytes entry.internalId) entry.internalIdEncoding =
      .ok candidates ∧ id ∈ candidates) ↔ Denotes entry id := by
  constructor
  · rintro ⟨candidates, hcandidates, hmem⟩
    rw [identifierCandidates] at hcandidates
    split at hcandidates
    · rename_i hone
      split at hcandidates
      · cases hcandidates
      · rename_i candidate hbytes
        cases hcandidates
        obtain rfl := List.mem_singleton.1 hmem
        by_cases hascii : entry.internalIdEncoding = .ascii
        · rw [identifierBytes, if_pos hascii] at hbytes
          cases hbytes
          exact .text (by rw [hascii]; decide)
        · exact .hex hascii ((identifierBytes_hex_eq_ok_iff hascii).1 hbytes)
    · rename_i hboth
      rw [not_not] at hboth
      have htext : Denotes entry (textBytes entry.internalId) := .text (by rw [hboth]; decide)
      split at hcandidates
      · cases hcandidates
        rwa [List.mem_singleton.1 hmem]
      · rename_i hexadecimal hbytes
        cases hcandidates
        rcases List.mem_cons.1 hmem with rfl | hmem
        · exact htext
        · rw [List.mem_singleton.1 hmem]
          exact .hex (by rw [hboth]; decide)
            ((identifierBytes_hex_eq_ok_iff (by decide)).1 hbytes)
  · rintro (hencoding | ⟨hencoding, hdigits⟩)
    · unfold identifierCandidates
      split
      · rename_i hone
        have hascii : entry.internalIdEncoding = .ascii := by
          cases hkind : entry.internalIdEncoding with
          | ascii => rfl
          | hex => exact absurd hkind hencoding
          | asciiOrHex => exact absurd hkind hone
        rw [identifierBytes, if_pos hascii]
        exact ⟨_, rfl, List.mem_singleton_self _⟩
      · split
        · exact ⟨_, rfl, List.mem_singleton_self _⟩
        · exact ⟨_, rfl, List.mem_cons_self ..⟩
    · unfold identifierCandidates
      split
      · rw [(identifierBytes_hex_eq_ok_iff hencoding).2 hdigits]
        exact ⟨_, rfl, List.mem_singleton_self _⟩
      · rw [(identifierBytes_hex_eq_ok_iff (by decide)).2 hdigits]
        exact ⟨_, rfl, List.mem_cons_of_mem _ (List.mem_singleton_self _)⟩

/-! ### The first entry -/

section Search

variable {catalog : DefinitionCatalog} {rom : Bytes} {memoryMaps : String → Option MemoryMap}

/-- **The loop body** returns the entry just if the ROM has its id. -/
theorem entryMatches_iff {entry : DefinitionIndexEntry} :
    entryMatches catalog rom memoryMaps entry = true ↔
      EntryMatches catalog rom memoryMaps entry := by
  constructor
  · intro h
    unfold entryMatches at h
    split at h
    · cases h
    · rename_i hid
      split at h
      · cases h
      · rename_i candidates hcandidates
        split at h
        · cases h
        · rename_i address haddress
          split at h
          · cases h
          · rename_i memoryMap hmap
            split at h
            · cases h
            · rename_i hsize
              obtain ⟨id, hmem, hfound⟩ := List.any_eq_true.1 h
              exact ⟨hid, address, memoryMap, id, haddress, hmap, not_not.1 hsize,
                mem_identifierCandidates.1 ⟨candidates, hcandidates, hmem⟩,
                foundAt_of_idAt hfound⟩
  · rintro ⟨hid, address, memoryMap, id, haddress, hmap, hsize, hdenotes, hfound⟩
    obtain ⟨candidates, hcandidates, hmem⟩ := mem_identifierCandidates.2 hdenotes
    have hany : candidates.any (idAt memoryMap rom address) = true :=
      List.any_eq_true.2 ⟨id, hmem, idAt_of_foundAt hfound⟩
    simp only [entryMatches, if_neg hid, hcandidates, haddress, hmap, hsize, not_true, if_false,
      hany, ne_eq]

/-- A file-backed block of the map holds so many bytes from the definition address on. -/
def HeldByBlock (memoryMap : MemoryMap) (address : DefinitionAddress) (count : ℕ) : Prop :=
  ∃ block ∈ memoryMap.blocks, block.isFill = false ∧
    block.range.start.value ≤ memoryMap.definitionBase.value + address.value ∧
    memoryMap.definitionBase.value + address.value + count ≤ block.range.stop.value

theorem heldByBlock_of_foundAt {memoryMap : MemoryMap} {address : DefinitionAddress} {id : Bytes}
    (h : FoundAt memoryMap rom address id) : HeldByBlock memoryMap address id.length := by
  obtain ⟨hne, block, hblock, hbytes⟩ := h
  have hpos := List.length_pos_of_ne_nil hne
  obtain ⟨start, hstart, hstartIn, offset, hoffset, -⟩ := hbytes 0 hpos
  obtain ⟨last, hlast, hlastIn, -, -, -⟩ := hbytes (id.length - 1) (by omega)
  have hbefore := (AddressRange.contains_iff.1 hstartIn).1
  have hafter := (AddressRange.contains_iff.1 hlastIn).2
  obtain ⟨fileStart, hbacking, -⟩ := MemoryMap.fileOffsetAt_eq_some_iff.1 hoffset
  refine ⟨block, hblock, by rw [MemoryBlock.isFill, hbacking], by omega, ?_⟩
  rw [AddressRange.stop_value]
  omega

/-- An entry whose id or address cannot be used for this ROM. -/
inductive Unusable (catalog : DefinitionCatalog) (rom : Bytes)
    (memoryMaps : String → Option MemoryMap) (entry : DefinitionIndexEntry) : Prop
  | noId (h : entry.internalId = "")
  | malformedId (h : ∀ id, ¬ Denotes entry id)
  | noAddress (h : entry.internalIdAddress = none)
  | noMap (h : ∀ memoryMap, memoryMaps (effectiveFlashMethod catalog entry []) = some memoryMap →
      memoryMap.fileSize.value ≠ rom.length)
  | notHeld (h : ∀ memoryMap, memoryMaps (effectiveFlashMethod catalog entry []) = some memoryMap →
      ∀ address, entry.internalIdAddress = some address → ∀ id, Denotes entry id →
        ¬ HeldByBlock memoryMap address id.length)

theorem Unusable.not_matches {entry : DefinitionIndexEntry}
    (h : Unusable catalog rom memoryMaps entry) : ¬ EntryMatches catalog rom memoryMaps entry := by
  rintro ⟨hid, address, memoryMap, id, haddress, hmap, hsize, hdenotes, hfound⟩
  cases h with
  | noId hnone => exact hid hnone
  | malformedId hnone => exact hnone id hdenotes
  | noAddress hnone => cases hnone.symm.trans haddress
  | noMap hnone => exact hnone memoryMap hmap hsize
  | notHeld hnone =>
    exact hnone memoryMap hmap address haddress id hdenotes (heldByBlock_of_foundAt hfound)

/-- The search goes past entries that do not match. -/
theorem matchEntries_append {before : List DefinitionIndexEntry}
    (h : ∀ entry ∈ before, ¬ EntryMatches catalog rom memoryMaps entry)
    (entries : List DefinitionIndexEntry) :
    matchEntries catalog rom memoryMaps (before ++ entries) =
      matchEntries catalog rom memoryMaps entries := by
  induction before with
  | nil => rfl
  | cons entry before ih =>
    have hnot : ¬ entryMatches catalog rom memoryMaps entry = true := fun hmatch =>
      h entry (List.mem_cons_self ..) (entryMatches_iff.1 hmatch)
    rw [List.cons_append, matchEntries, if_neg hnot]
    exact ih fun other hother => h other (List.mem_cons_of_mem _ hother)

/-- An entry that does not match can be left out. -/
theorem matchEntries_erase {entry : DefinitionIndexEntry}
    (h : ¬ EntryMatches catalog rom memoryMaps entry) (before after : List DefinitionIndexEntry) :
    matchEntries catalog rom memoryMaps (before ++ entry :: after) =
      matchEntries catalog rom memoryMaps (before ++ after) := by
  induction before with
  | nil =>
    have hone : ∀ other ∈ [entry], ¬ EntryMatches catalog rom memoryMaps other := fun other hother => by
      rwa [List.mem_singleton.1 hother]
    exact matchEntries_append hone after
  | cons other before ih =>
    rw [List.cons_append, List.cons_append, matchEntries, matchEntries, ih]

/-- A search ends at the first entry that matches. -/
theorem matchEntries_eq_ok_iff {entries : List DefinitionIndexEntry} {entry : DefinitionIndexEntry} :
    matchEntries catalog rom memoryMaps entries = .ok entry ↔
      ∃ before after, entries = before ++ entry :: after ∧
        EntryMatches catalog rom memoryMaps entry ∧
        ∀ other ∈ before, ¬ EntryMatches catalog rom memoryMaps other := by
  constructor
  · intro h
    induction entries with
    | nil => cases h
    | cons first entries ih =>
      rw [matchEntries] at h
      split at h
      · rename_i hmatch
        cases h
        exact ⟨[], entries, rfl, entryMatches_iff.1 hmatch, fun _ hother => (by cases hother)⟩
      · rename_i hnot
        obtain ⟨before, after, rfl, hmatch, hbefore⟩ := ih h
        refine ⟨first :: before, after, rfl, hmatch, fun other hother => ?_⟩
        rcases List.mem_cons.1 hother with rfl | hother
        · exact fun hother => hnot (entryMatches_iff.2 hother)
        · exact hbefore other hother
  · rintro ⟨before, after, rfl, hmatch, hbefore⟩
    rw [matchEntries_append hbefore, matchEntries, if_pos (entryMatches_iff.2 hmatch)]

/-- **The definition of a ROM** is the first entry of the catalog that the ROM has the id of; without
one there is an error; and an entry that cannot be used for the ROM makes no difference, wherever it
stands. -/
theorem matchRom_spec (catalog : DefinitionCatalog) (rom : Bytes)
    (memoryMaps : String → Option MemoryMap) :
    (∀ entry, matchRom catalog rom memoryMaps = .ok entry ↔
      ∃ before after, catalog.entries = before ++ entry :: after ∧
        EntryMatches catalog rom memoryMaps entry ∧
        ∀ other ∈ before, ¬ EntryMatches catalog rom memoryMaps other) ∧
    ((∀ entry ∈ catalog.entries, ¬ EntryMatches catalog rom memoryMaps entry) →
      matchRom catalog rom memoryMaps = invalidConfig "no matching ROM definition found") ∧
    ∀ before entry after, Unusable catalog rom memoryMaps entry →
      matchEntries catalog rom memoryMaps (before ++ entry :: after) =
        matchEntries catalog rom memoryMaps (before ++ after) := by
  refine ⟨fun entry => matchEntries_eq_ok_iff, fun hnone => ?_,
    fun before entry after h => matchEntries_erase h.not_matches before after⟩
  have hskip := matchEntries_append hnone []
  rw [List.append_nil] at hskip
  exact hskip

/-- An entry without an address is passed over, and the next one is found by its hexadecimal id. -/
theorem matchRom_spec_hex :
    let range : AddressRange FlashSpace := ⟨⟨0, by decide⟩, ⟨4, by decide⟩, by decide, by decide⟩
    let first : DefinitionIndexEntry :=
      ⟨.romRaider, "A", "4142", none, .asciiOrHex, "", "", "a.xml", []⟩
    let second : DefinitionIndexEntry :=
      ⟨.romRaider, "B", "4142", some ⟨1, by decide⟩, .asciiOrHex, "", "", "b.xml", []⟩
    matchRom ⟨[first, second], by decide⟩ [0x10, 0x41, 0x42, 0x13]
      (fun _ => some (MemoryMap.whole range .readOnly)) = .ok second := by
  intro range first second
  have hdigits : HexDigits (textBytes "4142") [0x41, 0x42] :=
    @HexDigits.cons _ _ 4 1 _ _ _ rfl rfl rfl (@HexDigits.cons _ _ 4 2 _ _ _ rfl rfl rfl .nil)
  have hfound : FoundAt (MemoryMap.whole range .readOnly) [0x10, 0x41, 0x42, 0x13] ⟨1, by decide⟩
      [0x41, 0x42] := foundAt_of_idAt (by decide +kernel)
  refine ((matchRom_spec ⟨[first, second], by decide⟩ _ _).1 second).2 ⟨[first], [], rfl,
    ⟨by decide, ⟨1, by decide⟩, MemoryMap.whole range .readOnly, [0x41, 0x42], rfl, rfl, rfl,
      .hex (by decide) hdigits, hfound⟩, fun other hother => ?_⟩
  rw [List.mem_singleton.1 hother]
  rintro ⟨-, address, -, -, haddress, -⟩
  cases haddress

end Search

end FastEcu.Definition
