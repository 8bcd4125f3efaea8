import FastEcu.Data.Overwrite
import Mathlib.Data.List.GetD
import Mathlib.Data.UInt

/-!
# Bytes and big-endian words

The readers and writers of `src/algorithms/protocol/bytes.h` that the checksum, cipher and
calibration code uses.  A reader that does not fit returns 0 and a writer that does not fit does
nothing, as in the source.

* `readU32Be_overwrite` : a written word reads back;
* `beBytes_readU32Be` : the bytes of a word that was read are the bytes it was read from;
* `readU32Be_congr` : a read depends on its four bytes only.
-/

namespace FastEcu

/-- A byte. -/
abbrev Byte := UInt8

/-- A sequence of bytes. -/
abbrev Bytes := List Byte

/-- `count` bytes from `offset` on lie within `bytes`. -/
def fitsAt (bytes : Bytes) (offset count : ℕ) : Bool :=
  decide (count ≤ bytes.length) && decide (offset ≤ bytes.length - count)

/-- The byte at `offset`. -/
def byteAt (bytes : Bytes) (offset : ℕ) : Byte := bytes.getD offset 0

/-- Two bytes as a word, most significant first. -/
def wordBe16 (b₀ b₁ : Byte) : UInt16 := (b₀.toUInt16 <<< 8) ||| b₁.toUInt16

/-- Three bytes as a word, most significant first. -/
def wordBe24 (b₀ b₁ b₂ : Byte) : UInt32 :=
  (b₀.toUInt32 <<< 16) ||| (b₁.toUInt32 <<< 8) ||| b₂.toUInt32

/-- Four bytes as a word, most significant first. -/
def wordBe (b₀ b₁ b₂ b₃ : Byte) : UInt32 :=
  (b₀.toUInt32 <<< 24) ||| (b₁.toUInt32 <<< 16) ||| (b₂.toUInt32 <<< 8) ||| b₃.toUInt32

/-- `ReadU16Be`. -/
def readU16Be (bytes : Bytes) (offset : ℕ) : UInt16 :=
  if fitsAt bytes offset 2 then wordBe16 (byteAt bytes offset) (byteAt bytes (offset + 1)) else 0

/-- `ReadU24Be`. -/
def readU24Be (bytes : Bytes) (offset : ℕ) : UInt32 :=
  if fitsAt bytes offset 3 then
    wordBe24 (byteAt bytes offset) (byteAt bytes (offset + 1)) (byteAt bytes (offset + 2))
  else 0

/-- `ReadU32Be`. -/
def readU32Be (bytes : Bytes) (offset : ℕ) : UInt32 :=
  if fitsAt bytes offset 4 then
    wordBe (byteAt bytes offset) (byteAt bytes (offset + 1)) (byteAt bytes (offset + 2))
      (byteAt bytes (offset + 3))
  else 0

/-- `ReadU16Le`. -/
def readU16Le (bytes : Bytes) (offset : ℕ) : UInt16 :=
  if fitsAt bytes offset 2 then wordBe16 (byteAt bytes (offset + 1)) (byteAt bytes offset) else 0

/-- `ReadU24Le`. -/
def readU24Le (bytes : Bytes) (offset : ℕ) : UInt32 :=
  if fitsAt bytes offset 3 then
    wordBe24 (byteAt bytes (offset + 2)) (byteAt bytes (offset + 1)) (byteAt bytes offset)
  else 0

/-- `ReadU32Le`. -/
def readU32Le (bytes : Bytes) (offset : ℕ) : UInt32 :=
  if fitsAt bytes offset 4 then
    wordBe (byteAt bytes (offset + 3)) (byteAt bytes (offset + 2)) (byteAt bytes (offset + 1))
      (byteAt bytes offset)
  else 0

/-- `ReadUBe`: `width` bytes, most significant first. -/
def readUBe (bytes : Bytes) (offset width : ℕ) : UInt32 :=
  match width with
  | 1 => if offset < bytes.length then (byteAt bytes offset).toUInt32 else 0
  | 2 => (readU16Be bytes offset).toUInt32
  | 3 => readU24Be bytes offset
  | 4 => readU32Be bytes offset
  | _ => 0

/-- `ReadULe`: `width` bytes, least significant first. -/
def readULe (bytes : Bytes) (offset width : ℕ) : UInt32 :=
  match width with
  | 1 => if offset < bytes.length then (byteAt bytes offset).toUInt32 else 0
  | 2 => (readU16Le bytes offset).toUInt32
  | 3 => readU24Le bytes offset
  | 4 => readU32Le bytes offset
  | _ => 0

/-- The byte of `value` that starts at bit `shift`. -/
def byteOf (value shift : UInt32) : Byte := ((value >>> shift) &&& 0xFF).toUInt8

/-- The four bytes of a word, most significant first. -/
def beBytes (value : UInt32) : Bytes :=
  [byteOf value 24, byteOf value 16, byteOf value 8, byteOf value 0]

/-- The two bytes of a halfword, most significant first. -/
def beBytes16 (value : UInt16) : Bytes := [byteOf value.toUInt32 8, byteOf value.toUInt32 0]

/-- The three low bytes of a word, most significant first (`U24`). -/
def beBytes24 (value : UInt32) : Bytes := [byteOf value 16, byteOf value 8, byteOf value 0]

/-- `AppendU32Be`. -/
def appendU32Be (out : Bytes) (value : UInt32) : Bytes := out ++ beBytes value

/-- `WriteU16Be`. -/
def writeU16Be (out : Bytes) (offset : ℕ) (value : UInt16) : Bytes :=
  if fitsAt out offset 2 then
    overwrite out offset [byteOf value.toUInt32 8, byteOf value.toUInt32 0]
  else out

/-- `WriteU16Le`. -/
def writeU16Le (out : Bytes) (offset : ℕ) (value : UInt16) : Bytes :=
  if fitsAt out offset 2 then
    overwrite out offset [byteOf value.toUInt32 0, byteOf value.toUInt32 8]
  else out

/-- `WriteU32Be`. -/
def writeU32Be (out : Bytes) (offset : ℕ) (value : UInt32) : Bytes :=
  if fitsAt out offset 4 then overwrite out offset (beBytes value) else out

/-- `OverwriteAt`: as much of `payload` as fits. -/
def overwriteAt (out : Bytes) (offset : ℕ) (payload : Bytes) : Bytes :=
  if offset ≥ out.length then out
  else overwrite out offset (payload.take (min payload.length (out.length - offset)))

/-- `bytes::views::kU32Be`: each four bytes as one word; a trailing partial word is ignored. -/
def wordsBe : Bytes → List UInt32
  | b₀ :: b₁ :: b₂ :: b₃ :: rest => wordBe b₀ b₁ b₂ b₃ :: wordsBe rest
  | _ => []

/-- `ComposeBe` of a run of words. -/
def composeBe (words : List UInt32) : Bytes := words.flatMap beBytes

/-- The halves of a word, the upper one first. -/
def halves (word : UInt32) : UInt16 × UInt16 := ((word >>> 16).toUInt16, word.toUInt16)

/-- The word of two halves. -/
def joinHalves (high low : UInt16) : UInt32 := (high.toUInt32 <<< 16) ||| low.toUInt32

/-- `std::span::subspan`. -/
def subspan (l : Bytes) (offset count : ℕ) : Bytes := (l.drop offset).take count

/-! ### Words and their bytes -/

theorem fitsAt_iff {bytes : Bytes} {offset count : ℕ} :
    fitsAt bytes offset count = true ↔ offset + count ≤ bytes.length := by
  simp only [fitsAt, Bool.and_eq_true, decide_eq_true_eq]
  omega

@[simp] theorem length_beBytes (value : UInt32) : (beBytes value).length = 4 := rfl

theorem shiftLeft_or_eq {x y k : ℕ} (h : y < 2 ^ k) : x <<< k ||| y = x * 2 ^ k + y := by
  rw [← Nat.shiftLeft_add_eq_or_of_lt h, Nat.shiftLeft_eq]

theorem toNat_shiftLeft_byte (b : Byte) {k : UInt32} (hk : k.toNat ≤ 24) :
    (b.toUInt32 <<< k).toNat = b.toNat <<< k.toNat := by
  have hb := b.toNat_lt
  have hpow : (2 : ℕ) ^ k.toNat ≤ 2 ^ 24 := Nat.pow_le_pow_right (by decide) hk
  rw [UInt32.toNat_shiftLeft, UInt8.toNat_toUInt32, Nat.mod_eq_of_lt (a := k.toNat) (by omega)]
  refine Nat.mod_eq_of_lt ?_
  rw [Nat.shiftLeft_eq]
  calc b.toNat * 2 ^ k.toNat ≤ 255 * 2 ^ 24 := Nat.mul_le_mul (by omega) hpow
    _ < 2 ^ 32 := by decide

/-- The value of a big-endian word. -/
theorem toNat_wordBe (b₀ b₁ b₂ b₃ : Byte) : (wordBe b₀ b₁ b₂ b₃).toNat =
    b₀.toNat * 2 ^ 24 + b₁.toNat * 2 ^ 16 + b₂.toNat * 2 ^ 8 + b₃.toNat := by
  have h₁ := b₁.toNat_lt
  have h₂ := b₂.toNat_lt
  have h₃ := b₃.toNat_lt
  have e₃ : b₂.toNat <<< 8 ||| b₃.toNat = b₂.toNat * 2 ^ 8 + b₃.toNat := shiftLeft_or_eq h₃
  have e₂ : b₁.toNat <<< 16 ||| (b₂.toNat * 2 ^ 8 + b₃.toNat) =
      b₁.toNat * 2 ^ 16 + (b₂.toNat * 2 ^ 8 + b₃.toNat) := shiftLeft_or_eq (by omega)
  have e₁ : b₀.toNat <<< 24 ||| (b₁.toNat * 2 ^ 16 + (b₂.toNat * 2 ^ 8 + b₃.toNat)) =
      b₀.toNat * 2 ^ 24 + (b₁.toNat * 2 ^ 16 + (b₂.toNat * 2 ^ 8 + b₃.toNat)) :=
    shiftLeft_or_eq (by omega)
  simp only [wordBe, UInt32.toNat_or, UInt8.toNat_toUInt32]
  rw [toNat_shiftLeft_byte _ (by decide), toNat_shiftLeft_byte _ (by decide),
    toNat_shiftLeft_byte _ (by decide), Nat.or_assoc, Nat.or_assoc]
  simp only [UInt32.reduceToNat]
  rw [e₃, e₂, e₁]
  omega

theorem toNat_byteOf (value shift : UInt32) (h : shift.toNat < 32) :
    (byteOf value shift).toNat = value.toNat / 2 ^ shift.toNat % 2 ^ 8 := by
  simp only [byteOf, UInt32.toNat_toUInt8, UInt32.toNat_and, UInt32.toNat_shiftRight]
  rw [show (255 : UInt32).toNat = 2 ^ 8 - 1 from rfl, Nat.and_two_pow_sub_one_eq_mod, Nat.mod_mod,
    Nat.mod_eq_of_lt h, Nat.shiftRight_eq_div_pow]

/-- The bytes of a word made of four bytes. -/
theorem beBytes_wordBe (b₀ b₁ b₂ b₃ : Byte) : beBytes (wordBe b₀ b₁ b₂ b₃) = [b₀, b₁, b₂, b₃] := by
  have h₀ := b₀.toNat_lt
  have h₁ := b₁.toNat_lt
  have h₂ := b₂.toNat_lt
  have h₃ := b₃.toNat_lt
  have key : ∀ (s : UInt32) (b : Byte), s.toNat < 32 →
      (wordBe b₀ b₁ b₂ b₃).toNat / 2 ^ s.toNat % 2 ^ 8 = b.toNat →
      byteOf (wordBe b₀ b₁ b₂ b₃) s = b :=
    fun s b hs h => UInt8.toNat_inj.1 ((toNat_byteOf _ s hs).trans h)
  rw [beBytes, key 24 b₀ (by decide), key 16 b₁ (by decide), key 8 b₂ (by decide),
    key 0 b₃ (by decide)]
  all_goals
    rw [toNat_wordBe]
    simp only [UInt32.reduceToNat]
    omega

/-- The word made of the bytes of a word. -/
theorem wordBe_byteOf (w : UInt32) :
    wordBe (byteOf w 24) (byteOf w 16) (byteOf w 8) (byteOf w 0) = w := by
  have hw := w.toNat_lt
  apply UInt32.toNat_inj.1
  rw [toNat_wordBe, toNat_byteOf _ _ (by decide), toNat_byteOf _ _ (by decide),
    toNat_byteOf _ _ (by decide), toNat_byteOf _ _ (by decide)]
  simp only [UInt32.reduceToNat]
  omega

/-- A word that is the start of the bytes. -/
theorem readU32Be_beBytes_append (w : UInt32) (l : Bytes) : readU32Be (beBytes w ++ l) 0 = w := by
  have hfits : fitsAt (beBytes w ++ l) 0 4 = true := by
    rw [fitsAt_iff, List.length_append, length_beBytes]
    omega
  rw [readU32Be, if_pos hfits]
  exact wordBe_byteOf w

/-- A word that fits in three bytes is read back from them. -/
theorem wordBe24_byteOf {w : UInt32} (h : w.toNat < 2 ^ 24) :
    wordBe24 (byteOf w 16) (byteOf w 8) (byteOf w 0) = w := by
  have hhigh : byteOf w 24 = 0 := by
    apply UInt8.toNat_inj.1
    rw [toNat_byteOf _ _ (by decide)]
    simp only [UInt32.reduceToNat, UInt8.toNat_zero]
    omega
  have hword := wordBe_byteOf w
  rw [hhigh, wordBe] at hword
  rw [wordBe24]
  simpa using hword

/-- The value of a big-endian halfword. -/
theorem toNat_wordBe16 (b₀ b₁ : Byte) : (wordBe16 b₀ b₁).toNat = b₀.toNat * 2 ^ 8 + b₁.toNat := by
  have h₀ := b₀.toNat_lt
  have h₁ := b₁.toNat_lt
  have hshift : (b₀.toUInt16 <<< 8).toNat = b₀.toNat <<< 8 := by
    rw [UInt16.toNat_shiftLeft, UInt8.toNat_toUInt16]
    refine Nat.mod_eq_of_lt ?_
    rw [Nat.shiftLeft_eq]
    change b₀.toNat * 2 ^ 8 < 2 ^ 16
    omega
  rw [wordBe16, UInt16.toNat_or, hshift, UInt8.toNat_toUInt16, shiftLeft_or_eq h₁]

/-- The halfword made of the bytes of a halfword. -/
theorem wordBe16_byteOf (v : UInt16) :
    wordBe16 (byteOf v.toUInt32 8) (byteOf v.toUInt32 0) = v := by
  have hv := v.toNat_lt
  apply UInt16.toNat_inj.1
  rw [toNat_wordBe16, toNat_byteOf _ _ (by decide), toNat_byteOf _ _ (by decide), UInt16.toNat_toUInt32]
  simp only [UInt32.reduceToNat]
  omega

/-! ### Halves of a word -/

theorem toNat_joinHalves (high low : UInt16) :
    (joinHalves high low).toNat = high.toNat * 2 ^ 16 + low.toNat := by
  have hh := high.toNat_lt
  have hl := low.toNat_lt
  have hshift : (high.toUInt32 <<< 16).toNat = high.toNat <<< 16 := by
    rw [UInt32.toNat_shiftLeft, UInt16.toNat_toUInt32]
    refine Nat.mod_eq_of_lt ?_
    rw [Nat.shiftLeft_eq]
    change high.toNat * 2 ^ 16 < 2 ^ 32
    omega
  rw [joinHalves, UInt32.toNat_or, hshift, UInt16.toNat_toUInt32, shiftLeft_or_eq hl]

theorem toNat_halves (word : UInt32) : (halves word).1.toNat = word.toNat / 2 ^ 16 ∧
    (halves word).2.toNat = word.toNat % 2 ^ 16 := by
  have hw := word.toNat_lt
  constructor
  · rw [halves, UInt32.toNat_toUInt16, UInt32.toNat_shiftRight, Nat.shiftRight_eq_div_pow]
    change word.toNat / 2 ^ 16 % 2 ^ 16 = _
    omega
  · rw [halves, UInt32.toNat_toUInt16]

theorem halves_joinHalves (high low : UInt16) : halves (joinHalves high low) = (high, low) := by
  have hl := low.toNat_lt
  obtain ⟨h₁, h₂⟩ := toNat_halves (joinHalves high low)
  rw [toNat_joinHalves] at h₁ h₂
  refine Prod.ext (UInt16.toNat_inj.1 ?_) (UInt16.toNat_inj.1 ?_)
  · rw [h₁]
    simp only
    omega
  · rw [h₂]
    simp only
    omega

theorem joinHalves_halves (word : UInt32) : joinHalves (halves word).1 (halves word).2 = word := by
  obtain ⟨h₁, h₂⟩ := toNat_halves word
  apply UInt32.toNat_inj.1
  rw [toNat_joinHalves, h₁, h₂]
  omega

/-! ### Runs of words -/

theorem length_lt_four {l : Bytes}
    (h : ∀ b₀ b₁ b₂ b₃ rest, l = b₀ :: b₁ :: b₂ :: b₃ :: rest → False) : l.length < 4 := by
  match l, h with
  | [], _ => simp
  | [_], _ => simp
  | [_, _], _ => simp
  | [_, _, _], _ => simp
  | b₀ :: b₁ :: b₂ :: b₃ :: rest, h => exact absurd rfl (h b₀ b₁ b₂ b₃ rest)

@[simp] theorem length_wordsBe (l : Bytes) : (wordsBe l).length = l.length / 4 := by
  fun_induction wordsBe l with
  | case1 b₀ b₁ b₂ b₃ rest ih =>
    simp only [List.length_cons, ih]
    omega
  | case2 l h =>
    have := length_lt_four h
    simp only [List.length_nil]
    omega

@[simp] theorem length_composeBe (words : List UInt32) :
    (composeBe words).length = 4 * words.length := by
  induction words with
  | nil => rfl
  | cons w words ih =>
    rw [composeBe, List.flatMap_cons, List.length_append, length_beBytes, List.length_cons,
      ← composeBe, ih]
    omega

theorem composeBe_append (a b : List UInt32) : composeBe (a ++ b) = composeBe a ++ composeBe b := by
  simp only [composeBe, List.flatMap_append]

theorem composeBe_wordsBe (l : Bytes) : composeBe (wordsBe l) = l.take (4 * (l.length / 4)) := by
  fun_induction wordsBe l with
  | case1 b₀ b₁ b₂ b₃ rest ih =>
    rw [composeBe, List.flatMap_cons, beBytes_wordBe, ← composeBe, ih]
    have hlen : 4 * ((b₀ :: b₁ :: b₂ :: b₃ :: rest).length / 4) = 4 * (rest.length / 4) + 4 := by
      simp only [List.length_cons]
      omega
    rw [hlen]
    rfl
  | case2 l h =>
    rw [Nat.div_eq_of_lt (length_lt_four h)]
    rfl

theorem wordsBe_composeBe (words : List UInt32) : wordsBe (composeBe words) = words := by
  induction words with
  | nil => rfl
  | cons w words ih =>
    rw [composeBe, List.flatMap_cons, ← composeBe]
    change wordBe (byteOf w 24) (byteOf w 16) (byteOf w 8) (byteOf w 0) ::
      wordsBe (composeBe words) = w :: words
    rw [wordBe_byteOf, ih]

theorem wordsBe_append {a : Bytes} (h : a.length % 4 = 0) (b : Bytes) :
    wordsBe (a ++ b) = wordsBe a ++ wordsBe b := by
  fun_induction wordsBe a with
  | case1 b₀ b₁ b₂ b₃ rest ih =>
    simp only [List.length_cons] at h
    rw [List.cons_append, List.cons_append, List.cons_append, List.cons_append, wordsBe,
      ih (by omega), List.cons_append]
  | case2 a hshort =>
    have hlt := length_lt_four hshort
    obtain rfl : a = [] := List.length_eq_zero_iff.1 (by omega)
    rfl

/-! ### Reads -/

theorem byteAt_eq_iff {bytes : Bytes} {offset : ℕ} {b : Byte} (h : offset < bytes.length) :
    byteAt bytes offset = b ↔ bytes[offset]? = some b := by
  rw [byteAt, List.getD_eq_getElem _ _ h, List.getElem?_eq_getElem h, Option.some.injEq]

theorem byteAt_congr {l l' : Bytes} {offset : ℕ} (h : l[offset]? = l'[offset]?) :
    byteAt l offset = byteAt l' offset := by
  simp only [byteAt, List.getD_eq_getElem?_getD, h]

/-- A read depends on its four bytes only. -/
theorem readU32Be_congr {l l' : Bytes} {offset : ℕ} (hlen : l.length = l'.length)
    (h : ∀ i < 4, l[offset + i]? = l'[offset + i]?) : readU32Be l offset = readU32Be l' offset := by
  have hfit : fitsAt l offset 4 = fitsAt l' offset 4 := by simp only [fitsAt, hlen]
  have h₀ : l[offset]? = l'[offset]? := h 0 (by decide)
  unfold readU32Be
  rw [hfit, byteAt_congr h₀, byteAt_congr (h 1 (by decide)),
    byteAt_congr (h 2 (by decide)), byteAt_congr (h 3 (by decide))]

/-- The bytes of a word that was read are the bytes it was read from. -/
theorem beBytes_readU32Be {l : Bytes} {offset : ℕ} (h : offset + 4 ≤ l.length) :
    ∀ i < 4, (beBytes (readU32Be l offset))[i]? = l[offset + i]? := by
  have hread : readU32Be l offset = wordBe (byteAt l offset) (byteAt l (offset + 1))
      (byteAt l (offset + 2)) (byteAt l (offset + 3)) := if_pos (fitsAt_iff.2 h)
  have hbyte : ∀ k < 4, l[offset + k]? = some (byteAt l (offset + k)) := fun k hk =>
    (byteAt_eq_iff (by omega)).1 rfl
  intro i hi
  rw [hread, beBytes_wordBe, hbyte i hi]
  match i, hi with
  | 0, _ => rfl
  | 1, _ => rfl
  | 2, _ => rfl
  | 3, _ => rfl

/-- A word reads as `w` exactly when its four bytes are the bytes of `w`. -/
theorem readU32Be_eq_iff {l : Bytes} {offset : ℕ} (h : offset + 4 ≤ l.length) {w : UInt32} :
    readU32Be l offset = w ↔ ∀ i < 4, l[offset + i]? = (beBytes w)[i]? := by
  constructor
  · rintro rfl i hi
    exact (beBytes_readU32Be h i hi).symm
  · intro hw
    have hbyte : ∀ i < 4, some (byteAt l (offset + i)) = (beBytes w)[i]? := fun i hi => by
      rw [← hw i hi]
      exact ((byteAt_eq_iff (by omega)).1 rfl).symm
    have h₀ := Option.some.inj (hbyte 0 (by decide))
    have h₁ := Option.some.inj (hbyte 1 (by decide))
    have h₂ := Option.some.inj (hbyte 2 (by decide))
    have h₃ := Option.some.inj (hbyte 3 (by decide))
    rw [readU32Be, if_pos (fitsAt_iff.2 h), ← Nat.add_zero offset, h₀, h₁, h₂, h₃]
    exact wordBe_byteOf w

theorem readU32Be_append_left {l : Bytes} {offset : ℕ} (h : offset + 4 ≤ l.length) (r : Bytes) :
    readU32Be (l ++ r) offset = readU32Be l offset := by
  rw [readU32Be_eq_iff (by rw [List.length_append]; omega)]
  intro i hi
  rw [List.getElem?_append_left (by omega), beBytes_readU32Be h i hi]

theorem getElem?_composeBe {words : List UInt32} {i : ℕ} {w : UInt32} (h : words[i]? = some w)
    {b : ℕ} (hb : b < 4) : (composeBe words)[4 * i + b]? = (beBytes w)[b]? := by
  induction words generalizing i with
  | nil => simp at h
  | cons v words ih =>
    rw [composeBe, List.flatMap_cons, ← composeBe]
    cases i with
    | zero =>
      rw [List.getElem?_cons_zero, Option.some.injEq] at h
      rw [h, List.getElem?_append_left (by rw [length_beBytes]; omega), Nat.mul_zero, Nat.zero_add]
    | succ i =>
      rw [List.getElem?_cons_succ] at h
      rw [List.getElem?_append_right (by rw [length_beBytes]; omega), length_beBytes, ← ih h]
      congr 1
      omega

/-- The words of a stream of words. -/
theorem readU32Be_composeBe {words : List UInt32} {i : ℕ} {w : UInt32} (h : words[i]? = some w) :
    readU32Be (composeBe words) (4 * i) = w := by
  have hi := (List.getElem?_eq_some_iff.1 h).1
  rw [readU32Be_eq_iff (by rw [length_composeBe]; omega)]
  exact fun b hb => getElem?_composeBe h hb

/-! ### Stretches -/

theorem length_subspan {l : Bytes} {offset count : ℕ} (h : offset + count ≤ l.length) :
    (subspan l offset count).length = count := by
  simp only [subspan, List.length_take, List.length_drop]
  omega

theorem getElem?_subspan {l : Bytes} {offset count i : ℕ} (h : i < count) :
    (subspan l offset count)[i]? = l[offset + i]? := by
  rw [subspan, List.getElem?_take_of_lt h, List.getElem?_drop]

/-- The bytes of a stretch, one by one. -/
theorem subspan_eq_map {l : Bytes} {offset count : ℕ} (h : offset + count ≤ l.length) :
    subspan l offset count = (List.range count).map fun k => byteAt l (offset + k) := by
  refine List.ext_getElem? fun k => ?_
  rcases lt_or_ge k count with hlt | hge
  · rw [getElem?_subspan hlt, List.getElem?_map, List.getElem?_range hlt, Option.map_some]
    exact (byteAt_eq_iff (by omega)).1 rfl
  · rw [List.getElem?_eq_none (by rw [length_subspan h]; exact hge),
      List.getElem?_eq_none (by rw [List.length_map, List.length_range]; exact hge)]

/-- A part of a part. -/
theorem subspan_subspan {l : Bytes} {offset count offset' count' : ℕ} (h : offset' + count' ≤ count) :
    subspan (subspan l offset count) offset' count' = subspan l (offset + offset') count' := by
  rw [subspan, subspan, subspan, List.drop_take, List.take_take, List.drop_drop,
    Nat.min_eq_left (by omega)]

theorem readU32Be_subspan {l : Bytes} {offset count i : ℕ} (h : offset + count ≤ l.length)
    (hi : i + 4 ≤ count) : readU32Be (subspan l offset count) i = readU32Be l (offset + i) := by
  rw [readU32Be_eq_iff (by rw [length_subspan h]; exact hi)]
  intro k hk
  rw [beBytes_readU32Be (by omega) k hk, getElem?_subspan (by omega), Nat.add_assoc]

theorem byteAt_subspan {l : Bytes} {offset count i : ℕ} (h : i < count) :
    byteAt (subspan l offset count) i = byteAt l (offset + i) := by
  rw [byteAt, byteAt, List.getD_eq_getElem?_getD, List.getD_eq_getElem?_getD, getElem?_subspan h]

theorem readU16Be_subspan {l : Bytes} {offset count i : ℕ} (h : offset + count ≤ l.length)
    (hi : i + 2 ≤ count) : readU16Be (subspan l offset count) i = readU16Be l (offset + i) := by
  rw [readU16Be, if_pos (fitsAt_iff.2 (by rw [length_subspan h]; exact hi)), byteAt_subspan (by omega),
    byteAt_subspan (by omega), readU16Be, if_pos (fitsAt_iff.2 (by omega)), Nat.add_assoc]

/-- The first parts of a list, each of so many bytes. -/
theorem flatMap_subspan (l : Bytes) (size n : ℕ) :
    ((List.range n).flatMap fun i => subspan l (size * i) size) = l.take (size * n) := by
  induction n with
  | zero => rfl
  | succ n ih =>
    rw [List.range_succ, List.flatMap_append, ih, List.flatMap_singleton, subspan, Nat.mul_succ,
      List.take_add]

/-- All parts of a list; the last one may be short. -/
theorem flatMap_subspan_eq (l : Bytes) {size : ℕ} (h : 0 < size) :
    ((List.range ((l.length + (size - 1)) / size)).flatMap fun i => subspan l (size * i) size) = l := by
  rw [flatMap_subspan, List.take_of_length_le]
  have hdiv := Nat.div_add_mod (l.length + (size - 1)) size
  have hmod := Nat.mod_lt (l.length + (size - 1)) h
  omega

/-! ### Writes -/

/-- A written word reads back. -/
theorem readU32Be_overwrite {l : Bytes} {offset : ℕ} (h : offset + 4 ≤ l.length) (w : UInt32) :
    readU32Be (overwrite l offset (beBytes w)) offset = w := by
  have hfit : offset + (beBytes w).length ≤ l.length := h
  rw [readU32Be_eq_iff (by rw [length_overwrite hfit]; exact h)]
  intro i hi
  exact getElem?_overwrite_add hfit hi

@[simp] theorem length_writeU32Be (out : Bytes) (offset : ℕ) (value : UInt32) :
    (writeU32Be out offset value).length = out.length := by
  unfold writeU32Be
  split_ifs with h
  · exact length_overwrite (fitsAt_iff.1 h)
  · rfl

@[simp] theorem length_writeU16Le (out : Bytes) (offset : ℕ) (value : UInt16) :
    (writeU16Le out offset value).length = out.length := by
  unfold writeU16Le
  split_ifs with h
  · exact length_overwrite (fitsAt_iff.1 h)
  · rfl

@[simp] theorem length_writeU16Be (out : Bytes) (offset : ℕ) (value : UInt16) :
    (writeU16Be out offset value).length = out.length := by
  unfold writeU16Be
  split_ifs with h
  · exact length_overwrite (fitsAt_iff.1 h)
  · rfl

end FastEcu
