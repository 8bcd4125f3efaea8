import FastEcu.Data.Tiling

/-!
# Byte counts, tagged positions and address ranges

The 32-bit vocabulary of `src/algorithms/memory/address.h`.  A count or a position carries its
bound, and a range carries that it is not empty and that its end is representable, so an
operation that could wrap returns an `Option` instead:

* `TaggedPosition.advance`, `TaggedPosition.distanceFrom` fail rather than wrap;
* `AddressRange.make` fails on an empty range and on one whose end is past the 32-bit space.
-/

namespace FastEcu.Memory

/-- The number of values of a 32-bit word. -/
abbrev u32Size : ℕ := 2 ^ 32

theorem u32Size_pos : 0 < u32Size := by decide

theorem one_lt_u32Size : 1 < u32Size := by decide

/-- A number of bytes. -/
structure ByteCount where
  /-- The count. -/
  value : ℕ
  /-- It fits in 32 bits. -/
  lt : value < u32Size
deriving DecidableEq

/-- The count of `size` bytes, or `none` when it does not fit in 32 bits. -/
def ByteCount.fromSize (size : ℕ) : Option ByteCount :=
  if h : size < u32Size then some ⟨size, h⟩ else none

/-- A 32-bit position tagged with what it is a position in. -/
structure TaggedPosition (Tag : Type) where
  /-- The position. -/
  value : ℕ
  /-- It fits in 32 bits. -/
  lt : value < u32Size

/-- The address space of the ECU's program flash. -/
inductive FlashSpace

/-- The bytes of a ROM file. -/
inductive FileTag

/-- Locations as a definition file states them. -/
inductive DefinitionTag

/-- An ECU address. -/
abbrev FlashAddress := TaggedPosition FlashSpace

/-- A byte position within a ROM file. -/
abbrev FileOffset := TaggedPosition FileTag

/-- A location as a definition file states it. -/
abbrev DefinitionAddress := TaggedPosition DefinitionTag

namespace TaggedPosition

variable {Tag : Type}

instance : LT (TaggedPosition Tag) := ⟨fun p q => p.value < q.value⟩

instance : LE (TaggedPosition Tag) := ⟨fun p q => p.value ≤ q.value⟩

instance (p q : TaggedPosition Tag) : Decidable (p < q) :=
  inferInstanceAs (Decidable (p.value < q.value))

instance (p q : TaggedPosition Tag) : Decidable (p ≤ q) :=
  inferInstanceAs (Decidable (p.value ≤ q.value))

/-- The position `count` bytes on, or `none` past the end of the 32-bit space. -/
def advance (p : TaggedPosition Tag) (count : ByteCount) : Option (TaggedPosition Tag) :=
  if h : p.value + count.value < u32Size then some ⟨p.value + count.value, h⟩ else none

/-- The bytes from `base` up to this position, or `none` when `base` lies beyond it. -/
def distanceFrom (p base : TaggedPosition Tag) : Option ByteCount :=
  if base.value > p.value then none
  else some ⟨p.value - base.value, lt_of_le_of_lt (Nat.sub_le _ _) p.lt⟩

instance : Min (TaggedPosition Tag) := ⟨fun p q => if q.value < p.value then q else p⟩

instance : Max (TaggedPosition Tag) := ⟨fun p q => if p.value < q.value then q else p⟩

@[ext] theorem ext {p q : TaggedPosition Tag} (h : p.value = q.value) : p = q := by
  cases p; cases q; simp_all

instance : DecidableEq (TaggedPosition Tag) := fun p q =>
  decidable_of_iff (p.value = q.value) ⟨ext, fun h => h ▸ rfl⟩

theorem lt_iff {p q : TaggedPosition Tag} : p < q ↔ p.value < q.value := Iff.rfl

theorem le_iff {p q : TaggedPosition Tag} : p ≤ q ↔ p.value ≤ q.value := Iff.rfl

@[simp] theorem min_value (p q : TaggedPosition Tag) :
    (min p q).value = min p.value q.value := by
  change (if q.value < p.value then q else p).value = _
  split_ifs with h
  · exact (Nat.min_eq_right h.le).symm
  · exact (Nat.min_eq_left (not_lt.1 h)).symm

@[simp] theorem max_value (p q : TaggedPosition Tag) :
    (max p q).value = max p.value q.value := by
  change (if p.value < q.value then q else p).value = _
  split_ifs with h
  · exact (Nat.max_eq_right h.le).symm
  · exact (Nat.max_eq_left (not_lt.1 h)).symm

theorem advance_eq_some_iff {p q : TaggedPosition Tag} {count : ByteCount} :
    p.advance count = some q ↔ q.value = p.value + count.value := by
  unfold advance
  constructor
  · intro h
    split_ifs at h
    rw [← Option.some.inj h]
  · intro h
    rw [dif_pos (by rw [← h]; exact q.lt)]
    exact congrArg some (ext h.symm)

theorem advance_eq_none_iff {p : TaggedPosition Tag} {count : ByteCount} :
    p.advance count = none ↔ u32Size ≤ p.value + count.value := by
  unfold advance
  split_ifs with h
  · simp only [false_iff]; omega
  · simp only [true_iff]; omega

theorem distanceFrom_eq_some_iff {p base : TaggedPosition Tag} {count : ByteCount} :
    p.distanceFrom base = some count ↔ base.value + count.value = p.value := by
  unfold distanceFrom
  split_ifs with h
  · simp only [false_iff]; omega
  · constructor
    · intro he
      rw [← Option.some.inj he]
      simp only
      omega
    · intro he
      congr 1
      cases count
      simp only [ByteCount.mk.injEq] at he ⊢
      omega

/-- A partial function of positions as one of plain numbers. -/
def extend {β : Type*} (f : TaggedPosition Tag → Option β) (n : ℕ) : Option β :=
  if h : n < u32Size then f ⟨n, h⟩ else none

@[simp] theorem extend_value {β : Type*} (f : TaggedPosition Tag → Option β)
    (p : TaggedPosition Tag) : extend f p.value = f p := dif_pos p.lt

end TaggedPosition

/-- A non-empty half-open range `[start, start + size)` in one address space. -/
structure AddressRange (Space : Type) where
  /-- The first address. -/
  start : TaggedPosition Space
  /-- The number of addresses. -/
  size : ByteCount
  /-- The range is not empty. -/
  size_pos : 0 < size.value
  /-- The end is representable. -/
  fits : start.value + size.value < u32Size

namespace AddressRange

variable {Space : Type}

/-- `none` for an empty range or one whose end is past the 32-bit space. -/
def make (start : TaggedPosition Space) (size : ByteCount) : Option (AddressRange Space) :=
  if h : 0 < size.value ∧ start.value + size.value < u32Size then
    some ⟨start, size, h.1, h.2⟩
  else none

/-- The first address after the range. -/
def stop (r : AddressRange Space) : TaggedPosition Space := ⟨r.start.value + r.size.value, r.fits⟩

/-- `[start, stop)` for `start < stop`. -/
def between (start stop : TaggedPosition Space) (h : start < stop) : AddressRange Space where
  start := start
  size := ⟨stop.value - start.value, lt_of_le_of_lt (Nat.sub_le _ _) stop.lt⟩
  size_pos := Nat.sub_pos_of_lt h
  fits := by
    have h' : start.value < stop.value := h
    have := stop.lt
    simp only
    omega

/-- The range holds the address. -/
def contains (r : AddressRange Space) (a : TaggedPosition Space) : Bool :=
  decide (r.start ≤ a) && decide (a < r.stop)

/-- The range as a segment of addresses. -/
def segment (r : AddressRange Space) : Segment := (r.start.value, r.size.value)

/-- The range that holds `a` only. -/
def single (a : TaggedPosition Space) (h : a.value + 1 < u32Size) : AddressRange Space :=
  ⟨a, ⟨1, one_lt_u32Size⟩, Nat.one_pos, h⟩

@[ext] theorem ext {r s : AddressRange Space} (hstart : r.start = s.start)
    (hsize : r.size = s.size) : r = s := by
  cases r; cases s; simp_all

instance : DecidableEq (AddressRange Space) := fun r s =>
  decidable_of_iff (r.start = s.start ∧ r.size = s.size)
    ⟨fun h => ext h.1 h.2, fun h => h ▸ ⟨rfl, rfl⟩⟩

@[simp] theorem stop_value (r : AddressRange Space) :
    r.stop.value = r.start.value + r.size.value := rfl

theorem start_lt_stop (r : AddressRange Space) : r.start.value < r.stop.value := by
  have := r.size_pos
  simp only [stop_value]
  omega

@[simp] theorem between_start {a b : TaggedPosition Space} (h : a < b) :
    (between a b h).start = a := rfl

@[simp] theorem between_stop_value {a b : TaggedPosition Space} (h : a < b) :
    (between a b h).stop.value = b.value := by
  have h' : a.value < b.value := h
  simp only [stop_value, between]
  omega

@[simp] theorem between_size_value {a b : TaggedPosition Space} (h : a < b) :
    (between a b h).size.value = b.value - a.value := rfl

theorem contains_iff {r : AddressRange Space} {a : TaggedPosition Space} :
    r.contains a = true ↔ r.start.value ≤ a.value ∧ a.value < r.start.value + r.size.value := by
  simp [contains, TaggedPosition.le_iff, TaggedPosition.lt_iff]

theorem contains_iff_has {r : AddressRange Space} {a : TaggedPosition Space} :
    r.contains a = true ↔ r.segment.Has a.value := contains_iff

theorem make_eq_some_iff {start : TaggedPosition Space} {size : ByteCount}
    {r : AddressRange Space} : make start size = some r ↔ r.start = start ∧ r.size = size := by
  unfold make
  constructor
  · intro h
    split_ifs at h
    rw [← Option.some.inj h]
    exact ⟨rfl, rfl⟩
  · rintro ⟨rfl, rfl⟩
    rw [dif_pos ⟨r.size_pos, r.fits⟩]

theorem make_eq_none_iff {start : TaggedPosition Space} {size : ByteCount} :
    make start size = none ↔ size.value = 0 ∨ u32Size ≤ start.value + size.value := by
  unfold make
  split_ifs with h
  · simp only [false_iff]; omega
  · simp only [true_iff]; omega

end AddressRange

end FastEcu.Memory
