import Mathlib.Data.List.Basic
import Mathlib.Data.UInt
import FastEcu.Bytes.Words

/-!
# Layouts of structures in memory

The bytes of a structure of a fixed size: little-endian words, flags, arrays of bytes and what lies
between them.

* `Layout` : a size, the bytes of a value and the value of some bytes.
* `Layout.word`, `Layout.byte`, `Layout.flag`, `Layout.pad` : the members.
* `Layout.pair`, `Layout.array`, `Layout.via` : members one after another, and a structure made of them.
-/

namespace FastEcu

/-- The bytes that a value of a type has in memory. -/
structure Layout (α : Type) : Type where
  size : ℕ
  encode : α → Bytes
  decode : Bytes → α
  length_encode : ∀ a, (encode a).length = size
  decode_encode : ∀ a rest, decode (encode a ++ rest) = a

namespace Layout

variable {α β : Type}

/-- The bytes of a word, least significant first. -/
def leBytes (w : UInt32) : Bytes := (beBytes w).reverse

/-- A word of 32 bits. -/
def word : Layout UInt32 where
  size := 4
  encode := leBytes
  decode bytes := readU32Be (bytes.take 4).reverse 0
  length_encode _ := rfl
  decode_encode w rest := by
    have htake : (leBytes w ++ rest).take 4 = leBytes w := rfl
    rw [htake, leBytes, List.reverse_reverse]
    simpa using readU32Be_beBytes_append w []

/-- A byte. -/
def byte : Layout Byte where
  size := 1
  encode b := [b]
  decode bytes := bytes.headD 0
  length_encode _ := rfl
  decode_encode _ _ := rfl

/-- A `bool`. -/
def flag : Layout Bool where
  size := 1
  encode b := [if b then 1 else 0]
  decode bytes := bytes.headD 0 != 0
  length_encode _ := rfl
  decode_encode b _ := by cases b <;> rfl

/-- Bytes between two members. -/
def pad (n : ℕ) : Layout Unit where
  size := n
  encode _ := List.replicate n 0
  decode _ := ()
  length_encode _ := List.length_replicate
  decode_encode _ _ := rfl

/-- One member after another. -/
def pair (first : Layout α) (second : Layout β) : Layout (α × β) where
  size := first.size + second.size
  encode p := first.encode p.1 ++ second.encode p.2
  decode bytes := (first.decode bytes, second.decode (bytes.drop first.size))
  length_encode p := by rw [List.length_append, first.length_encode, second.length_encode]
  decode_encode p rest := by
    rw [List.append_assoc, first.decode_encode, List.drop_left' (first.length_encode p.1),
      second.decode_encode]

/-- The elements of an array. -/
def decodeArray (l : Layout α) (n : ℕ) (bytes : Bytes) : List α :=
  match n with
  | 0 => []
  | n + 1 => l.decode bytes :: decodeArray l n (bytes.drop l.size)

@[simp]
theorem length_decodeArray (l : Layout α) (n : ℕ) (bytes : Bytes) : (l.decodeArray n bytes).length = n := by
  induction n generalizing bytes with
  | zero => rfl
  | succ n ih => rw [decodeArray, List.length_cons, ih]

theorem decodeArray_flatMap (l : Layout α) (as : List α) (rest : Bytes) :
    l.decodeArray as.length (as.flatMap l.encode ++ rest) = as := by
  induction as with
  | nil => rfl
  | cons a as ih =>
    rw [List.length_cons, decodeArray, List.flatMap_cons, List.append_assoc, l.decode_encode,
      List.drop_left' (l.length_encode a), ih]

/-- A `std::array`. -/
def array (l : Layout α) (n : ℕ) : Layout (Vector α n) where
  size := n * l.size
  encode v := v.toList.flatMap l.encode
  decode bytes := ⟨(l.decodeArray n bytes).toArray, by simp⟩
  length_encode v := by
    have hsizes : ∀ as : List α, (as.flatMap l.encode).length = as.length * l.size := by
      intro as
      induction as with
      | nil => simp
      | cons a as ih => rw [List.flatMap_cons, List.length_append, ih, l.length_encode, List.length_cons,
          Nat.succ_mul, Nat.add_comm]
    rw [hsizes, Vector.length_toList]
  decode_encode v rest := by
    have hlength : n = v.toList.length := Vector.length_toList.symm
    apply Vector.toList_inj.1
    have hdecode := l.decodeArray_flatMap v.toList rest
    rw [← hlength] at hdecode
    simpa using hdecode

/-- A structure with the members of another type. -/
def via (l : Layout β) (members : α → β) (make : β → α) (make_members : ∀ a, make (members a) = a) :
    Layout α where
  size := l.size
  encode a := l.encode (members a)
  decode bytes := make (l.decode bytes)
  length_encode a := l.length_encode (members a)
  decode_encode a rest := by rw [l.decode_encode, make_members]

@[simp]
theorem decode_encode_self (l : Layout α) (a : α) : l.decode (l.encode a) = a := by
  simpa using l.decode_encode a []

end Layout

end FastEcu
