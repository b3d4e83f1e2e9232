import CmuTcp.Ring.Send
import CmuTcp.Model.Backend

/-!
# Copies out of the Send Ring

`send_buffer_dump` and `resend_unacknowledged` copy bytes out of the send ring.  The
wrap test of `safe_memcpy_from_sendbuf` compares the end index before it is reduced, and
`resend_unacknowledged` has no wrap test at all.  This module says, for a ring that holds
a stream:

1. when a single `memcpy` from a position of the stream stays in the ring, and that it
   then delivers the bytes of the stream;
2. which branch a dump of fresh bytes takes: the one without wrap exactly if it starts
   behind the index of the last byte acknowledged, and otherwise the one with two copies,
   whose second length is then negative, so that the process dies in it;
3. when such a dump stays in the ring.
-/

namespace CmuTcp

open CircularBuffer

@[simp] theorem SendBuffer.length_copyOut (sb : SendBuffer) (beyond : ℕ → UInt8)
    (start len : UInt32) : (sb.copyOut beyond start len).bytes.length = len.toNat := by
  simp [SendBuffer.copyOut]

/-- A copy that does not fault fills its destination. -/
theorem length_safeMemcpyFromSendbuf {sb : SendBuffer} {beyond : ℕ → UInt8}
    {start len : UInt32} {copy : RingCopy}
    (h : safeMemcpyFromSendbuf sb beyond start len = .ok copy) :
    copy.bytes.length = len.toNat := by
  unfold safeMemcpyFromSendbuf at h
  dsimp only at h
  split at h
  · rw [← Except.ok.inj h]
    exact sb.length_copyOut beyond start len
  · split at h
    · rename_i htail
      -- the two copies have the lengths `tail_len` and `len - tail_len`
      rw [← Except.ok.inj h, List.length_append, SendBuffer.length_copyOut,
        SendBuffer.length_copyOut, UInt32.toNat_sub_of_le _ _ htail]
      rw [UInt32.le_iff_toNat_le] at htail
      omega
    · exact absurd h (by simp)

namespace SendBuffer.Refines

variable {sb : SendBuffer} {isn : ℕ} {st : SendStream UInt8}

/-- A copy of the cells from that of position `k` on is in bounds when it ends before the
    end of the ring. -/
theorem copyOut_inBounds (h : sb.Refines isn st) (beyond : ℕ → UInt8) {start len : UInt32}
    {k : ℕ} (hstart : start.toNat = k % st.capacity) :
    (sb.copyOut beyond start len).inBounds = true ↔
      k % st.capacity + len.toNat ≤ st.capacity := by
  simp only [SendBuffer.copyOut, hstart, h.length, decide_eq_true_eq]

/-- An in-bounds copy of unacknowledged bytes delivers the stream. -/
theorem copyOut_isSlice (h : sb.Refines isn st) (beyond : ℕ → UInt8) {start len : UInt32}
    {k : ℕ} (hstart : start.toNat = k % st.capacity) (hlo : st.acked < k)
    (hhi : k + len.toNat ≤ st.written.length + 1)
    (hfit : k % st.capacity + len.toNat ≤ st.capacity) :
    IsSlice (fromOne st.written) k (sb.copyOut beyond start len).bytes := by
  intro j hj
  rw [SendBuffer.length_copyOut] at hj
  have hcell := h.cells (k + j) ⟨by omega, by omega⟩
  have hmod : (k + j) % st.capacity = k % st.capacity + j := by
    rw [← Nat.mod_add_mod]
    exact Nat.mod_eq_of_lt (by omega)
  have hin : k % st.capacity + j < sb.buffer.length := by
    rw [h.length]
    omega
  rw [← hcell, hmod]
  simp only [SendBuffer.copyOut, List.getElem?_map, List.getElem?_range hj, Option.map_some,
    SendBuffer.byteAt, hstart, List.getD_eq_getElem?_getD, List.getElem?_eq_getElem hin,
    Option.getD_some]

/-- The start index and the length of a dump as `multiple_send` makes it. -/
structure IsDump (sb : SendBuffer) (st : SendStream UInt8) (start len : UInt32) : Prop where
  start : start = (sb.lastByteSentIndex + 1) % sb.capacity
  pos : 0 < len.toNat
  le : st.sent + len.toNat ≤ st.written.length

theorem IsDump.start_toNat (h : sb.Refines isn st) (hw : sb.NoWrap) {start len : UInt32}
    (hd : IsDump sb st start len) : start.toNat = (st.sent + 1) % st.capacity := by
  have hroom := h.noWrap hw
  have hle := st.written_le
  have hcap := h.capacity_pos
  have hdle := hd.le
  have hmod : st.sent % st.capacity ≤ st.sent := Nat.mod_le _ _
  rw [hd.start, UInt32.toNat_mod, UInt32.toNat_add, h.sentIndex, h.capacity, UInt32.toNat_one,
    Nat.mod_eq_of_lt (show st.sent % st.capacity + 1 < 2 ^ 32 by omega), Nat.mod_add_mod]

/-- The test of `safe_memcpy_from_sendbuf` for a dump: the end index, not reduced, against
    the index of the last byte acknowledged. -/
theorem IsDump.end_gt_iff (h : sb.Refines isn st) (hw : sb.NoWrap) {start len : UInt32}
    (hd : IsDump sb st start len) :
    start + len - 1 > sb.lastByteAckedIndex ↔
      st.acked % st.capacity < (st.sent + 1) % st.capacity + len.toNat - 1 := by
  have hroom := h.noWrap hw
  have hle := st.written_le
  have hdle := hd.le
  have hpos := hd.pos
  have hmod : (st.sent + 1) % st.capacity ≤ st.sent + 1 := Nat.mod_le _ _
  rw [gt_iff_lt, UInt32.lt_iff_toNat_lt, UInt32.toNat_sub, UInt32.toNat_add, UInt32.toNat_one,
    h.ackedIndex, hd.start_toNat h hw]
  omega

/-- **Which branch a dump takes**: it starts behind the index of the last byte acknowledged
    and is one `memcpy`, or it starts after the wrap, and then the second of the two copies
    has a negative length. -/
theorem IsDump.copy (h : sb.Refines isn st) (hw : sb.NoWrap) (beyond : ℕ → UInt8)
    {start len : UInt32} (hd : IsDump sb st start len) :
    safeMemcpyFromSendbuf sb beyond start len =
      if st.acked % st.capacity < (st.sent + 1) % st.capacity then
        .ok (sb.copyOut beyond start len)
      else .error .memory := by
  have hroom := h.noWrap hw
  have hle := st.written_le
  have hacked := st.acked_le_sent
  have hcap := h.capacity_pos
  have hdle := hd.le
  have hpos := hd.pos
  have hstart := hd.start_toNat h hw
  have hend := hd.end_gt_iff h hw
  -- the cell of the first byte dumped, seen from that of the last one acknowledged
  have hnext := mod_eq_of_lap (C := st.capacity) (a := st.acked) (s := st.sent + 1)
    (by omega) (by omega)
  have hamod : st.acked % st.capacity < st.capacity := Nat.mod_lt _ hcap
  simp only [safeMemcpyFromSendbuf]
  by_cases hgt : st.acked % st.capacity < (st.sent + 1) % st.capacity
  · rw [if_pos hgt, if_pos (hend.mpr (by omega))]
  · -- the dump ends before the acked cell, so it is shorter than the rest of the ring
    have hbefore : (st.sent + 1) % st.capacity + len.toNat ≤ st.acked % st.capacity := by
      split at hnext <;> omega
    have htail : ¬ sb.capacity - start ≤ len := by
      rw [UInt32.le_iff_toNat_le, UInt32.toNat_sub, h.capacity, hstart]
      have hcap' : st.capacity < 2 ^ 32 := h.capacity ▸ sb.capacity.toNat_lt
      omega
    rw [if_neg hgt, if_neg (mt hend.mp (by omega)), if_neg htail]

/-- **When a dump stays in the ring**: the bytes in flight do not wrap around, and neither
    do the bytes dumped. -/
theorem IsDump.inBounds_iff (h : sb.Refines isn st) (hw : sb.NoWrap) (beyond : ℕ → UInt8)
    {start len : UInt32} (hd : IsDump sb st start len) :
    (st.acked % st.capacity < (st.sent + 1) % st.capacity ∧
        (sb.copyOut beyond start len).inBounds = true) ↔
      st.acked % st.capacity ≤ st.sent % st.capacity ∧
        st.sent % st.capacity + len.toNat < st.capacity := by
  have hcap := h.capacity_pos
  have hpos := hd.pos
  have hcell := Nat.mod_lt st.sent hcap
  have hnext : (st.sent + 1) % st.capacity =
      if st.sent % st.capacity + 1 = st.capacity then 0 else st.sent % st.capacity + 1 := by
    rw [← Nat.mod_add_mod]
    split
    · rename_i hlast
      rw [hlast, Nat.mod_self]
    · exact Nat.mod_eq_of_lt (by omega)
  rw [h.copyOut_inBounds beyond (hd.start_toNat h hw), hnext]
  split <;> omega

/-- A dump that stays in the ring delivers the next bytes of the stream. -/
theorem IsDump.isSlice (h : sb.Refines isn st) (hw : sb.NoWrap) (beyond : ℕ → UInt8)
    {start len : UInt32} (hd : IsDump sb st start len)
    (hin : (sb.copyOut beyond start len).inBounds = true) :
    IsSlice (fromOne st.written) (st.sent + 1) (sb.copyOut beyond start len).bytes := by
  have hstart := hd.start_toNat h hw
  have hacked := st.acked_le_sent
  have hdle := hd.le
  rw [h.copyOut_inBounds beyond hstart] at hin
  exact h.copyOut_isSlice beyond hstart (by omega) (by omega) hin

end SendBuffer.Refines

end CmuTcp
