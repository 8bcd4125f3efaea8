import Mathlib.Data.List.Basic
import Mathlib.Data.List.Infix

/-!
# Finding a header in a stream

A reader that drops elements until what it has begins with a header.  It may have only the first part
of a stream, so fewer elements than the header has are kept.

* `resync` : drops elements until the header.
* `Clean` : the header does not begin before the frame.
* `resync_spec` : what is left of a first part of the stream, and that nothing of the frame is dropped.
-/

namespace FastEcu.Data

variable {α : Type*}

/-- The header does not begin in the junk, also not with its last part in the frame. -/
def Clean (header junk frame : List α) : Prop :=
  ∀ i < junk.length, ¬header <+: (junk ++ frame).drop i

variable {header junk frame trailing received unread : List α}

theorem Clean.tail {a : α} (h : Clean header (a :: junk) frame) : Clean header junk frame := by
  intro i hi
  have := h (i + 1) (by simpa using hi)
  simpa using this

theorem Clean.head {a : α} (h : Clean header (a :: junk) frame) :
    ¬header <+: (a :: junk) ++ frame := by
  have := h 0 (by simp)
  simpa using this

/-- A first part of a stream that has as many elements as the header begins with it if the stream
does. -/
theorem isPrefix_of_stream {stream : List α} (hstream : received ++ unread = stream)
    (hle : header.length ≤ received.length) : header <+: received ↔ header <+: stream := by
  subst hstream
  constructor
  · exact fun h => h.trans (List.prefix_append _ _)
  · exact fun h => List.prefix_of_prefix_length_le h (List.prefix_append _ _) hle

variable [DecidableEq α]

/-- Drops elements while there are enough for the header and they do not begin with it. -/
def resync (header : List α) : List α → List α
  | [] => []
  | a :: l =>
    if header.length ≤ (a :: l).length ∧ ¬header.isPrefixOf (a :: l) then resync header l else a :: l

theorem resync_of_lt (h : received.length < header.length) : resync header received = received := by
  cases received with
  | nil => rfl
  | cons a l =>
    rw [resync, if_neg]
    intro hle
    omega

theorem resync_of_isPrefix (h : header <+: received) : resync header received = received := by
  cases received with
  | nil => rfl
  | cons a l =>
    rw [resync, if_neg]
    rintro ⟨-, hnot⟩
    exact hnot (by simpa using h)

/-- **What is left of a first part of the stream**: it begins with the frame, or is shorter than the
header; only junk is dropped. -/
theorem resync_spec (hclean : Clean header junk frame) (hframe : header <+: frame)
    (hstream : received ++ unread = junk ++ frame ++ trailing) :
    ∃ junk', Clean header junk' frame ∧
      resync header received ++ unread = junk' ++ frame ++ trailing ∧
      (junk' = [] ∨ (resync header received).length < header.length) ∧
      junk'.length + received.length = junk.length + (resync header received).length := by
  induction junk generalizing received with
  | nil =>
    refine ⟨[], hclean, ?_⟩
    have hsame : resync header received = received := by
      by_cases hlt : received.length < header.length
      · exact resync_of_lt hlt
      · refine resync_of_isPrefix ((isPrefix_of_stream hstream (Nat.le_of_not_lt hlt)).2 ?_)
        exact hframe.trans ⟨trailing, by simp⟩
    rw [hsame]
    exact ⟨hstream, .inl rfl, by simp⟩
  | cons a junk ih =>
    by_cases hlt : received.length < header.length
    · rw [resync_of_lt hlt]
      exact ⟨a :: junk, hclean, hstream, .inr hlt, rfl⟩
    · have hle := Nat.le_of_not_lt hlt
      have hnot : ¬header <+: received := by
        rw [isPrefix_of_stream hstream hle]
        intro hprefix
        -- the frame has the header, so the header does not reach the trailing elements
        refine hclean.head (List.prefix_of_prefix_length_le hprefix (List.prefix_append _ _) ?_)
        have := hframe.length_le
        simp only [List.length_append]
        omega
      cases received with
      | nil =>
        -- an empty header is a prefix of everything
        have hnil : header = [] := List.eq_nil_of_length_eq_zero (Nat.le_zero.1 hle)
        exact absurd (by simp [hnil]) hnot
      | cons b received =>
        simp only [List.cons_append, List.cons.injEq] at hstream
        obtain ⟨junk', hclean', hrest, hshort, hlength⟩ := ih hclean.tail hstream.2
        have hdrop : resync header (b :: received) = resync header received := by
          rw [resync, if_pos]
          exact ⟨hle, by simpa using hnot⟩
        rw [hdrop]
        refine ⟨junk', hclean', hrest, hshort, ?_⟩
        simp only [List.length_cons]
        omega

end FastEcu.Data
