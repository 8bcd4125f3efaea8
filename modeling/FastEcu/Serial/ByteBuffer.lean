import FastEcu.Bytes.Words
import FastEcu.Data.Bursts

/-!
# The staging buffer of the serial port

`SerialByteBuffer` of `src/platform/desktop/unix/j2534/serial_byte_buffer.cpp`, which a read refills until
it has enough or nothing has arrived for as long as its timeout.

* `SerialByteBuffer.take` : `Take`.
* `SerialByteBuffer.bursts` : what the port brings, cut at the silences that are as long as the timeout.
* `take_bursts` : a read of the buffer is a read of the bursts.
-/

namespace FastEcu.Serial.J2534

open Data

/-- What a poll returns, and how long the wait takes that follows an empty one, in milliseconds. -/
structure Poll where
  chunk : Bytes
  waited : ℕ

/-- `SerialByteBuffer`: the bytes that are retained, and what the polls to come return.  After the last of them
there is silence. -/
structure SerialByteBuffer where
  buffered : Bytes
  polls : List Poll

/-- The loop of `Take`: `left` is the time to the deadline, which every arrival puts off again. -/
def refill (n timeout : ℕ) : List Poll → ℕ → Bytes → Bytes × List Poll
  | [], _, buffered => (buffered, [])
  | poll :: polls, left, buffered =>
    if n ≤ buffered.length then (buffered, poll :: polls)
    else if poll.chunk ≠ [] then refill n timeout polls timeout (buffered ++ poll.chunk)
    else if left = 0 then (buffered, polls)
    else refill n timeout polls (left - poll.waited) buffered

/-- What the polls bring, with the time to the deadline before the first of them. -/
def arrivals (timeout : ℕ) : List Poll → ℕ → Bursts Byte
  | [], _ => ⟨[], []⟩
  | poll :: polls, left =>
    if poll.chunk ≠ [] then (arrivals timeout polls timeout).prepend poll.chunk
    else if left = 0 then
      ⟨[], (arrivals timeout polls timeout).current :: (arrivals timeout polls timeout).later⟩
    else arrivals timeout polls (left - poll.waited)

namespace SerialByteBuffer

/-- `Take`. -/
def take (n timeout : ℕ) (s : SerialByteBuffer) : Bytes × SerialByteBuffer :=
  let (buffered, polls) := refill n timeout s.polls timeout s.buffered
  (buffered.take n, ⟨buffered.drop n, polls⟩)

/-- What the buffer holds and the port brings, cut at the silences. -/
def bursts (timeout : ℕ) (s : SerialByteBuffer) : Bursts Byte :=
  (arrivals timeout s.polls timeout).prepend s.buffered

end SerialByteBuffer

/-- The loop refills the buffer up to the end of a burst at most. -/
theorem refill_arrivals (n timeout : ℕ) (polls : List Poll) (left : ℕ) (buffered : Bytes)
    (hleft : n ≤ buffered.length → left = timeout) :
    ((arrivals timeout polls left).prepend buffered).take n =
      ((refill n timeout polls left buffered).1.take n,
        (arrivals timeout (refill n timeout polls left buffered).2 timeout).prepend
          ((refill n timeout polls left buffered).1.drop n)) := by
  by_cases hn : n ≤ buffered.length
  · have hrefill : refill n timeout polls left buffered = (buffered, polls) := by
      cases polls with
      | nil => rfl
      | cons poll polls => exact if_pos hn
    rw [hrefill, Bursts.take_prepend hn, hleft hn]
  · induction polls generalizing left buffered with
    | nil =>
      have hshort : buffered.length < n := not_le.1 hn
      show Bursts.take n ⟨buffered ++ [], []⟩ = (buffered.take n, ⟨buffered.drop n ++ [], []⟩)
      rw [List.append_nil, List.append_nil, Bursts.take, if_neg hn, List.take_of_length_le hshort.le,
        List.drop_eq_nil_of_le hshort.le]
      rfl
    | cons poll polls ih =>
      have hshort : buffered.length < n := not_le.1 hn
      rw [refill, if_neg hn, arrivals]
      by_cases hchunk : poll.chunk ≠ []
      · rw [if_pos hchunk, if_pos hchunk, Bursts.prepend_prepend]
        by_cases hmore : n ≤ (buffered ++ poll.chunk).length
        · have hrefill : refill n timeout polls timeout (buffered ++ poll.chunk) =
              (buffered ++ poll.chunk, polls) := by
            cases polls with
            | nil => rfl
            | cons poll' polls => exact if_pos hmore
          rw [hrefill, Bursts.take_prepend hmore]
        · exact ih timeout _ (fun h => absurd h hmore) hmore
      · rw [if_neg hchunk, if_neg hchunk]
        by_cases hdeadline : left = 0
        · rw [if_pos hdeadline, if_pos hdeadline, List.take_of_length_le hshort.le,
            List.drop_eq_nil_of_le hshort.le]
          show Bursts.take n ⟨buffered ++ [], _⟩ = _
          rw [List.append_nil, Bursts.take, if_neg hn]
          rfl
        · rw [if_neg hdeadline, if_neg hdeadline]
          exact ih _ _ (fun h => absurd h hn) hn

/-- **A read of the buffer is a read of the bursts.** -/
theorem take_bursts (n timeout : ℕ) (s : SerialByteBuffer) :
    (s.bursts timeout).take n = ((s.take n timeout).1, (s.take n timeout).2.bursts timeout) :=
  refill_arrivals n timeout s.polls timeout s.buffered fun _ => rfl

end FastEcu.Serial.J2534
