import Mathlib.Data.List.Basic
import Mathlib.Order.MinMax

/-!
# Send Streams

What a send buffer is for: an unbounded stream of bytes of which a prefix has been
written by the application, a prefix of that has been sent, and a prefix of that has been
acknowledged.  The buffer's capacity bounds only what is written and not acknowledged.

Positions in the stream count from `1`, so position `k` is the sequence number
`isn + k`, and "acknowledged up to `acked`" includes position `acked`.
-/

namespace CmuTcp

/-- A stream with three counters.  `room` leaves one cell of the buffer unused. -/
structure SendStream (α : Type) where
  capacity : ℕ
  written : List α
  sent : ℕ
  acked : ℕ
  acked_le_sent : acked ≤ sent
  sent_le_written : sent ≤ written.length
  room : written.length < acked + capacity

namespace SendStream

variable {α : Type}

/-- The stream in which nothing has happened yet. -/
def empty (capacity : ℕ) (h : 0 < capacity) : SendStream α :=
  ⟨capacity, [], 0, 0, le_refl 0, le_refl 0, by simpa using h⟩

/-- How many bytes the application may still write. -/
def maxWrite (st : SendStream α) : ℕ := st.acked + st.capacity - 1 - st.written.length

/-- The application writes `xs`. -/
def write (st : SendStream α) (xs : List α) (h : xs.length ≤ st.maxWrite) : SendStream α where
  capacity := st.capacity
  written := st.written ++ xs
  sent := st.sent
  acked := st.acked
  acked_le_sent := st.acked_le_sent
  sent_le_written := by
    have := st.sent_le_written
    rw [List.length_append]
    omega
  room := by
    have := st.room
    unfold maxWrite at h
    rw [List.length_append]
    omega

/-- `n` more bytes are sent for the first time. -/
def dump (st : SendStream α) (n : ℕ) (h : st.sent + n ≤ st.written.length) : SendStream α where
  capacity := st.capacity
  written := st.written
  sent := st.sent + n
  acked := st.acked
  acked_le_sent := Nat.le_add_right_of_le st.acked_le_sent
  sent_le_written := h
  room := st.room

/-- Everything up to position `a` is acknowledged. -/
def ack (st : SendStream α) (a : ℕ) (h : a ≤ st.sent) : SendStream α where
  capacity := st.capacity
  written := st.written
  sent := st.sent
  acked := max st.acked a
  acked_le_sent := max_le st.acked_le_sent h
  sent_le_written := st.sent_le_written
  room := lt_of_lt_of_le st.room (Nat.add_le_add_right (le_max_left _ _) _)

/-- The written bytes never fill the last free cell. -/
theorem written_le (st : SendStream α) : st.written.length ≤ st.acked + st.capacity - 1 := by
  have := st.room
  omega

/-- Acknowledged bytes have been written. -/
theorem acked_le_written (st : SendStream α) : st.acked ≤ st.written.length :=
  le_trans st.acked_le_sent st.sent_le_written

/-- Writing nothing changes nothing. -/
@[simp] theorem write_nil (st : SendStream α) (h : ([] : List α).length ≤ st.maxWrite) :
    st.write [] h = st := by
  cases st
  simp [write]

/-- Sending nothing changes nothing. -/
@[simp] theorem dump_zero (st : SendStream α) (h : st.sent + 0 ≤ st.written.length) :
    st.dump 0 h = st := rfl

/-- Two dumps are one. -/
theorem dump_dump (st : SendStream α) {n m : ℕ} (hn : st.sent + n ≤ st.written.length)
    (hm : (st.dump n hn).sent + m ≤ (st.dump n hn).written.length) :
    (st.dump n hn).dump m hm = st.dump (n + m) (by rw [← Nat.add_assoc]; exact hm) := by
  simp only [dump, Nat.add_assoc]

/-- An acknowledgement of what is acknowledged already changes nothing. -/
theorem ack_of_le (st : SendStream α) {a : ℕ} (h : a ≤ st.sent) (hle : a ≤ st.acked) :
    st.ack a h = st := by
  cases st
  simp only [ack, SendStream.mk.injEq, true_and]
  exact max_eq_left hle

end SendStream

end CmuTcp
