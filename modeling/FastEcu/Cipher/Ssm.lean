import FastEcu.Bytes.Words
import FastEcu.Data.Feistel

/-!
# The SSM payload cipher

`TransformWord` and `CalculatePayload` (`src/algorithms/protocol/ssm/ssm_protocol_core.cpp`) and the
Denso adapters over them (`src/backend/flash/ecu/denso_iso15765_crypto.h`).  A word of the payload
goes through a Feistel network over its 16-bit halves; a trailing partial word is dropped.

* `transformWord_eq_feistel` : the rounds of the code are a Feistel network.
* `calculatePayload_reverse` : the reversed key schedule gives the whole words back.
* `calculatePayload_append` : the transform works page by page, if the pages are whole words.
-/

namespace FastEcu.Ssm

/-- `PairTable`. -/
abbrev PairTable := Vector UInt16 512

/-- `KeyToGenerateIndex`. -/
abbrev KeyToGenerateIndex := Vector UInt16 4

/-- `SeedKeyToGenerateIndex`. -/
abbrev SeedKeyToGenerateIndex := Vector UInt16 16

/-- `std::rotr` of a 16-bit value, by less than 16. -/
def rotr16 (value count : UInt16) : UInt16 := (value >>> count) ||| (value <<< (16 - count))

theorem and_0x1FF_lt (index : UInt32) : (index &&& 0x1FF).toNat < 512 := by
  rw [UInt32.toNat_and, show (0x1FF : UInt32).toNat = 2 ^ 9 - 1 from rfl,
    Nat.and_two_pow_sub_one_eq_mod]
  exact Nat.mod_lt _ (by decide)

/-- The entry that nine bits of an index choose. -/
def pairAt (pairs : PairTable) (index : UInt32) : UInt16 :=
  pairs.get ⟨(index &&& 0x1FF).toNat, and_0x1FF_lt index⟩

/-- The value that a round mixes into the upper half. -/
def roundFunction (pairs : PairTable) (key lo : UInt16) : UInt16 :=
  let v := (lo ^^^ key).toUInt32
  let index := v ||| (v <<< 16)
  let encryptionkey := pairAt pairs index + (pairAt pairs (index >>> 8) <<< 8)
  rotr16 encryptionkey 3

/-- One turn of the loop of `TransformWord`, on `(hi, lo)`. -/
def transformRound (pairs : PairTable) (state : UInt16 × UInt16) (key : UInt16) :
    UInt16 × UInt16 :=
  (state.2, roundFunction pairs key state.2 ^^^ state.1)

/-- `TransformWord`. -/
def transformWord (reverse : Bool) (word : UInt32) (keytogenerateindex : List UInt16)
    (pairs : PairTable) : UInt32 :=
  let keys := if reverse then keytogenerateindex.reverse else keytogenerateindex
  let state := keys.foldl (transformRound pairs) ((word >>> 16).toUInt16, word.toUInt16)
  state.1.toUInt32 ||| (state.2.toUInt32 <<< 16)

/-- `CalculateSeedKey`. -/
def calculateSeedKey (seed : Bytes) (keytogenerateindex : SeedKeyToGenerateIndex)
    (pairs : PairTable) : Bytes :=
  if seed.length < 4 then []
  else appendU32Be [] (transformWord true (readU32Be seed 0) keytogenerateindex.toList pairs)

/-- `CalculatePayload`. -/
def calculatePayload (buf : Bytes) (keytogenerateindex : KeyToGenerateIndex) (pairs : PairTable) :
    Bytes :=
  composeBe ((wordsBe buf).map fun word => transformWord false word keytogenerateindex.toList pairs)

/-- `kIndexTransformationStock`. -/
def indexTransformationStock : Vector UInt8 32 :=
  #v[0x5, 0x6, 0x7, 0x1, 0x9, 0xC, 0xD, 0x8, 0xA, 0xD, 0x2, 0xB, 0xF, 0x4, 0x0, 0x3,
    0xB, 0x4, 0x6, 0x0, 0xF, 0x2, 0xD, 0x9, 0x5, 0xC, 0x1, 0xA, 0x3, 0xD, 0xE, 0x8]

/-- The entry that five bits of an index choose. -/
def indexEntry (indextransformation : Vector UInt8 32) (index : ℕ) : UInt8 :=
  indextransformation.get ⟨index % 32, Nat.mod_lt _ (by decide)⟩

/-- `BuildPairTable`. -/
def buildPairTable (indextransformation : Vector UInt8 32) : PairTable :=
  Vector.ofFn fun i => (indexEntry indextransformation i).toUInt16 +
    ((indexEntry indextransformation (i / 16)).toUInt16 <<< 4)

/-- `kStockPairTable`. -/
def stockPairTable : PairTable := buildPairTable indexTransformationStock

/-- `kDensoIso15765SeedKeyTable`. -/
def densoIso15765SeedKeyTable : SeedKeyToGenerateIndex :=
  #v[0x78B1, 0x4625, 0x201C, 0x9EA5, 0xAD6B, 0x35F4, 0xFD21, 0x5E71,
    0xB046, 0x7F4A, 0x4B75, 0x93F9, 0x1895, 0x8961, 0x3ECC, 0x862B]

/-- `kDensoIso15765EncryptTable`. -/
def densoIso15765EncryptTable : KeyToGenerateIndex := #v[0xC85B, 0x32C0, 0xE282, 0x92A0]

/-- `kDensoIso15765DecryptTable`. -/
def densoIso15765DecryptTable : KeyToGenerateIndex := #v[0x92A0, 0xE282, 0x32C0, 0xC85B]

/-- `DensoSeedKey`. -/
def densoSeedKey (seed : Bytes) : Bytes :=
  calculateSeedKey seed densoIso15765SeedKeyTable stockPairTable

/-- `DensoEncryptRom`. -/
def densoEncryptRom (image : Bytes) : Bytes :=
  calculatePayload image densoIso15765EncryptTable stockPairTable

/-- `DensoDecryptPage`. -/
def densoDecryptPage (page : Bytes) : Bytes :=
  calculatePayload page densoIso15765DecryptTable stockPairTable

/-! ### The stock table -/

/-- An entry of a table that was built. -/
theorem pairAt_buildPairTable (indextransformation : Vector UInt8 32) (index : UInt32) :
    pairAt (buildPairTable indextransformation) index =
      (indexEntry indextransformation (index &&& 0x1FF).toNat).toUInt16 +
        ((indexEntry indextransformation ((index &&& 0x1FF).toNat / 16)).toUInt16 <<< 4) :=
  Vector.getElem_ofFn _

/-- A round with the stock table, of which only the entries that are looked up are computed. -/
def stockRound (state : UInt16 × UInt16) (key : UInt16) : UInt16 × UInt16 :=
  let entry := fun index : UInt32 =>
    (indexEntry indexTransformationStock (index &&& 0x1FF).toNat).toUInt16 +
      ((indexEntry indexTransformationStock ((index &&& 0x1FF).toNat / 16)).toUInt16 <<< 4)
  let v := (state.2 ^^^ key).toUInt32
  let index := v ||| (v <<< 16)
  (state.2, rotr16 (entry index + (entry (index >>> 8) <<< 8)) 3 ^^^ state.1)

theorem transformRound_stock : transformRound stockPairTable = stockRound := by
  funext state key
  simp only [transformRound, roundFunction, stockPairTable, pairAt_buildPairTable, stockRound]

/-- `CalculatePayload` with the stock table. -/
theorem calculatePayload_stock (buf : Bytes) (keys : KeyToGenerateIndex) :
    calculatePayload buf keys stockPairTable = composeBe ((wordsBe buf).map fun word : UInt32 =>
      let state := keys.toList.foldl stockRound ((word >>> 16).toUInt16, word.toUInt16)
      state.1.toUInt32 ||| (state.2.toUInt32 <<< 16)) := by
  rw [calculatePayload]
  simp only [transformWord, transformRound_stock, if_neg Bool.false_ne_true]

/-! ### One word -/

theorem xor_xor_cancel (a b : UInt16) : a ^^^ (a ^^^ b) = b := by
  rw [← UInt16.xor_assoc, UInt16.xor_self, UInt16.zero_xor]

/-- The rounds of the code are a Feistel network over the halves. -/
theorem transformWord_eq_feistel (word : UInt32) (keys : List UInt16) (pairs : PairTable) :
    transformWord false word keys pairs =
      joinHalves (feistel (· ^^^ ·) (roundFunction pairs) keys (halves word)).1
        (feistel (· ^^^ ·) (roundFunction pairs) keys (halves word)).2 := by
  rw [joinHalves, UInt32.or_comm]
  rfl

/-- The reversed keys undo the transform of a word. -/
theorem transformWord_reverse (word : UInt32) (keys : List UInt16) (pairs : PairTable) :
    transformWord false (transformWord false word keys pairs) keys.reverse pairs = word := by
  rw [transformWord_eq_feistel, transformWord_eq_feistel, halves_joinHalves,
    feistel_reverse xor_xor_cancel, joinHalves_halves]

/-! ### Payloads -/

theorem length_calculatePayload (buf : Bytes) (keys : KeyToGenerateIndex) (pairs : PairTable) :
    (calculatePayload buf keys pairs).length = 4 * (buf.length / 4) := by
  rw [calculatePayload, length_composeBe, List.length_map, length_wordsBe]

/-- The reversed schedule gives the whole words back. -/
theorem calculatePayload_reverse (buf : Bytes) (keys : KeyToGenerateIndex) (pairs : PairTable) :
    calculatePayload (calculatePayload buf keys pairs) keys.reverse pairs =
      buf.take (4 * (buf.length / 4)) := by
  have hwords : ((wordsBe buf).map fun word => transformWord false word keys.toList pairs).map
      (fun word => transformWord false word keys.reverse.toList pairs) = wordsBe buf := by
    rw [List.map_map]
    conv_rhs => rw [← List.map_id (wordsBe buf)]
    refine List.map_congr_left fun word _ => ?_
    rw [Function.comp_apply, Vector.toList_reverse, transformWord_reverse, id]
  rw [calculatePayload, calculatePayload, wordsBe_composeBe, hwords, composeBe_wordsBe]

/-- The transform of a whole number of words does not depend on what follows. -/
theorem calculatePayload_append {a : Bytes} (h : a.length % 4 = 0) (b : Bytes)
    (keys : KeyToGenerateIndex) (pairs : PairTable) :
    calculatePayload (a ++ b) keys pairs =
      calculatePayload a keys pairs ++ calculatePayload b keys pairs := by
  rw [calculatePayload, wordsBe_append h, List.map_append, composeBe_append]
  rfl

/-- The pages are whole words, apart from the last one. -/
def WholeWords : List Bytes → Prop
  | [] => True
  | [_] => True
  | page :: next :: rest => page.length % 4 = 0 ∧ WholeWords (next :: rest)

/-- Page by page and all at once give the same. -/
theorem flatten_map_calculatePayload {pages : List Bytes} (h : WholeWords pages)
    (keys : KeyToGenerateIndex) (pairs : PairTable) :
    (pages.map fun page => calculatePayload page keys pairs).flatten =
      calculatePayload pages.flatten keys pairs := by
  induction pages with
  | nil => rfl
  | cons page rest ih =>
    cases rest with
    | nil => simp
    | cons next rest =>
      rw [List.map_cons, List.flatten_cons, ih h.2, List.flatten_cons (l := page),
        calculatePayload_append h.1]

theorem wholeWords_of_forall {pages : List Bytes} (h : ∀ page ∈ pages, page.length % 4 = 0) :
    WholeWords pages := by
  induction pages with
  | nil => trivial
  | cons page rest ih =>
    have hrest := ih fun p hp => h p (List.mem_cons_of_mem page hp)
    cases rest with
    | nil => trivial
    | cons next rest => exact ⟨h page List.mem_cons_self, hrest⟩

/-- The Denso decryption undoes the Denso encryption. -/
theorem densoDecryptPage_densoEncryptRom (image : Bytes) :
    densoDecryptPage (densoEncryptRom image) = image.take (4 * (image.length / 4)) := by
  have hkeys : densoIso15765DecryptTable = densoIso15765EncryptTable.reverse := by
    rw [← Vector.toList_inj, Vector.toList_reverse]
    rfl
  rw [densoDecryptPage, hkeys]
  exact calculatePayload_reverse image _ _

/-- The encryption of a part of whole words that starts at a word is a part of the encryption. -/
theorem subspan_densoEncryptRom {image : Bytes} {offset count : ℕ} (hoffset : offset % 4 = 0)
    (hcount : count % 4 = 0) (hfits : offset + count ≤ image.length) :
    subspan (densoEncryptRom image) offset count = densoEncryptRom (subspan image offset count) := by
  have hsplit : image = image.take offset ++ (subspan image offset count ++
      image.drop (offset + count)) := by
    rw [subspan, ← List.drop_drop, List.take_append_drop, List.take_append_drop]
  have htake : (image.take offset).length = offset := by
    rw [List.length_take]
    omega
  have hlength := length_subspan hfits
  have hfirst : (densoEncryptRom (image.take offset)).length = offset := by
    rw [densoEncryptRom, length_calculatePayload, htake]
    omega
  have hsecond : (densoEncryptRom (subspan image offset count)).length = count := by
    rw [densoEncryptRom, length_calculatePayload, hlength]
    omega
  conv_lhs => rw [hsplit]
  rw [densoEncryptRom, calculatePayload_append (by rw [htake]; exact hoffset),
    calculatePayload_append (by rw [hlength]; exact hcount), subspan,
    List.drop_append_of_le_length (by rw [← densoEncryptRom]; omega), ← densoEncryptRom,
    List.drop_of_length_le hfirst.le, List.nil_append, ← densoEncryptRom,
    List.take_append_of_le_length hsecond.ge, List.take_of_length_le hsecond.le]

/-- **The payload cipher is undone by the reversed key schedule**, for every pair table; the Denso
decryption undoes the Denso encryption on a whole image, on an image cut into pages of whole words,
and on each page by itself. -/
theorem calculatePayload_inverted_by_reversed_keys :
    (∀ (pairs : PairTable) (keys : KeyToGenerateIndex) (buf : Bytes),
      (calculatePayload buf keys pairs).length = 4 * (buf.length / 4) ∧
      calculatePayload (calculatePayload buf keys pairs) keys.reverse pairs =
        buf.take (4 * (buf.length / 4))) ∧
    (∀ image, densoDecryptPage (densoEncryptRom image) = image.take (4 * (image.length / 4))) ∧
    (∀ image pages, WholeWords pages → pages.flatten = densoEncryptRom image →
      (pages.map densoDecryptPage).flatten = image.take (4 * (image.length / 4))) ∧
    ∀ pages, WholeWords pages →
      (pages.map densoEncryptRom).flatten = densoEncryptRom pages.flatten ∧
      (pages.map fun page => densoDecryptPage (densoEncryptRom page)).flatten =
        pages.flatten.take (4 * (pages.flatten.length / 4)) := by
  refine ⟨fun pairs keys buf => ⟨length_calculatePayload buf keys pairs,
    calculatePayload_reverse buf keys pairs⟩, densoDecryptPage_densoEncryptRom, fun image pages hpages himage => ?_,
    fun pages hpages => ⟨flatten_map_calculatePayload hpages _ _, ?_⟩⟩
  · calc (pages.map densoDecryptPage).flatten
        = densoDecryptPage pages.flatten := flatten_map_calculatePayload hpages _ _
      _ = image.take (4 * (image.length / 4)) := by
        rw [himage, densoDecryptPage_densoEncryptRom]
  · -- an encrypted page is a whole number of words
    have hpages' : WholeWords (pages.map densoEncryptRom) := wholeWords_of_forall fun page hp => by
      obtain ⟨p, -, rfl⟩ := List.mem_map.1 hp
      rw [densoEncryptRom, length_calculatePayload, Nat.mul_mod_right]
    calc (pages.map fun page => densoDecryptPage (densoEncryptRom page)).flatten
        = ((pages.map densoEncryptRom).map densoDecryptPage).flatten := by
          rw [List.map_map]
          rfl
      _ = densoDecryptPage (pages.map densoEncryptRom).flatten :=
          flatten_map_calculatePayload hpages' _ _
      _ = densoDecryptPage (densoEncryptRom pages.flatten) :=
          congrArg densoDecryptPage (flatten_map_calculatePayload hpages _ _)
      _ = _ := densoDecryptPage_densoEncryptRom _

end FastEcu.Ssm
