import CmuTcp.Library.FaultSystem
import CmuTcp.Spec.SendStream
import CmuTcp.Model.Socket

/-!
# The Send Ring Refines a Send Stream

`SendBuffer.Refines sb isn st` relates the three wrapped indices and the ring cells of a
send buffer to a stream with three counters.  Under it every sequence number that
`send_buffer.c` recomputes from the indices is the counter it stands for, and every
operation of the interface is the operation of the stream.

The one assumption is `NoWrap`: the largest sequence number the code forms for the
buffer, `last_byte_acked_seqnum + capacity`, fits in 32 bits.  The counts are differences,
so they are right without it, and the cells are as long as the indices fit.

1. Copies into a ring, for both buffers, by the circular-buffer library.
2. The sequence numbers modulo `2 ^ 32` first, whatever they are, and then as numbers under
   `NoWrap`; the three counts follow as differences.
3. One lemma for each operation.  A dump moves an index only if its end is the greater
   number, and an ack is looked at only if it is newer, so both have cases that do nothing.
-/

namespace CmuTcp

open CircularBuffer

/-! ## Copies into a ring

`safe_memcpy_to_sendbuf` and `safe_memcpy_to_recvbuf` are the same code on two records:
one `memcpy`, or two when the data crosses the end of the ring.  Both are the wrapping
write of the circular-buffer library. -/

theorem memcpyTo_eq {dst src : List UInt8} {dstOff srcOff len : UInt32}
    (hdst : dstOff.toNat + len.toNat ≤ dst.length)
    (hsrc : srcOff.toNat + len.toNat ≤ src.length) :
    memcpyTo dst dstOff src srcOff len =
      .ok (overwrite dst dstOff.toNat (slice src srcOff.toNat len.toNat)) :=
  if_pos ⟨hdst, hsrc⟩

/-- The two `memcpy`s of a copy into a ring are in bounds, and write the data from the
    start cell on, continuing at cell `0`. -/
theorem memcpyWrap_eq {buf data : List UInt8} {capacity start len : UInt32}
    (hbuf : buf.length = capacity.toNat) (hstart : start.toNat < capacity.toNat)
    (hpos : 0 < len.toNat) (hlen : len.toNat ≤ capacity.toNat)
    (hdata : len.toNat ≤ data.length) (hnowrap : start.toNat + len.toNat < 2 ^ 32) :
    (if start + len - 1 ≤ capacity - 1 then memcpyTo buf start data 0 len
      else do
        let buffer ← memcpyTo buf start data 0 (capacity - start)
        memcpyTo buffer 0 data (capacity - start) (len - (capacity - start))) =
      .ok (overwriteWrap buf start.toNat (data.take len.toNat)) := by
  have hcap : capacity.toNat < 2 ^ 32 := capacity.toNat_lt
  -- how many cells there are up to the end of the ring
  have htail : (capacity - start).toNat = capacity.toNat - start.toNat := by
    rw [UInt32.toNat_sub]
    omega
  have htake : (data.take len.toNat).length = len.toNat := by
    rw [List.length_take]
    omega
  -- the test is whether the data ends before that
  have hcond : start + len - 1 ≤ capacity - 1 ↔ start.toNat + len.toNat ≤ capacity.toNat := by
    rw [UInt32.le_iff_toNat_le]
    simp only [UInt32.toNat_sub, UInt32.toNat_add, UInt32.toNat_one]
    omega
  unfold overwriteWrap
  rw [htake, hbuf]
  by_cases hfit : start.toNat + len.toNat ≤ capacity.toNat
  · rw [if_pos (hcond.mpr hfit), if_pos hfit, memcpyTo_eq (by omega) (by simpa using hdata)]
    simp only [UInt32.toNat_zero, slice, List.drop_zero]
  -- two copies: up to the end of the ring, and the rest from cell `0` on
  · rw [if_neg (fun h => hfit (hcond.mp h)), if_neg hfit]
    have hrest : (len - (capacity - start)).toNat =
        len.toNat - (capacity.toNat - start.toNat) := by
      rw [UInt32.toNat_sub, htail]
      have := len.toNat_lt
      omega
    have hfirst : overwrite buf start.toNat (slice data 0 (capacity.toNat - start.toNat)) =
        overwrite buf start.toNat ((data.take len.toNat).take (capacity.toNat - start.toNat)) := by
      rw [slice, List.drop_zero, List.take_take, Nat.min_eq_left (by omega)]
    -- the second copy finds a buffer of the same length
    have hlength : (overwrite buf start.toNat
        ((data.take len.toNat).take (capacity.toNat - start.toNat))).length
          = capacity.toNat := by
      rw [length_overwrite (by rw [List.length_take, htake]; omega), hbuf]
    rw [memcpyTo_eq (by omega) (by rw [UInt32.toNat_zero]; omega), UInt32.toNat_zero, htail,
      hfirst]
    show memcpyTo _ _ _ _ _ = _
    rw [memcpyTo_eq (by rw [UInt32.toNat_zero, hlength, hrest]; omega)
      (by rw [htail, hrest]; omega), UInt32.toNat_zero, htail, hrest]
    congr 2
    rw [slice, List.drop_take]

theorem safeMemcpyToSendbuf_eq {sb : SendBuffer} {len : UInt32} {data : List UInt8}
    (hbuf : sb.buffer.length = sb.capacity.toNat)
    (hstart : sb.nextByteWrittenIndex.toNat < sb.capacity.toNat)
    (hpos : 0 < len.toNat) (hlen : len.toNat ≤ sb.capacity.toNat)
    (hdata : len.toNat ≤ data.length)
    (hnowrap : sb.nextByteWrittenIndex.toNat + len.toNat < 2 ^ 32) :
    safeMemcpyToSendbuf sb len data =
      .ok (overwriteWrap sb.buffer sb.nextByteWrittenIndex.toNat (data.take len.toNat)) :=
  memcpyWrap_eq hbuf hstart hpos hlen hdata hnowrap

/-! ## The refinement relation -/

/-- The send buffer `sb`, whose stream starts after sequence number `isn`, holds `st`. -/
structure SendBuffer.Refines (sb : SendBuffer) (isn : ℕ) (st : SendStream UInt8) : Prop where
  capacity : sb.capacity.toNat = st.capacity
  acked : sb.lastByteAckedSeqnum.toNat = isn + st.acked
  ackedIndex : sb.lastByteAckedIndex.toNat = st.acked % st.capacity
  sentIndex : sb.lastByteSentIndex.toNat = st.sent % st.capacity
  nextIndex : sb.nextByteWrittenIndex.toNat = (st.written.length + 1) % st.capacity
  length : sb.buffer.length = st.capacity
  cells : Stores sb.buffer st.capacity (fromOne st.written)
    {k | st.acked < k ∧ k ≤ st.written.length}

/-- `last_byte_acked_seqnum + capacity` does not overflow. -/
def SendBuffer.NoWrap (sb : SendBuffer) : Prop :=
  sb.lastByteAckedSeqnum.toNat + sb.capacity.toNat < 2 ^ 32

instance (sb : SendBuffer) : Decidable sb.NoWrap :=
  inferInstanceAs (Decidable (_ < _))

/-- `last_byte_acked_index + capacity` does not overflow, and so no index that the code
    forms does. -/
def SendBuffer.IndicesFit (sb : SendBuffer) : Prop :=
  sb.lastByteAckedIndex.toNat + sb.capacity.toNat < 2 ^ 32

/-- The size of the ring, the last byte acked and the time of its ack are the same. -/
structure SendBuffer.SameAcked (sb sb' : SendBuffer) : Prop where
  capacity : sb'.capacity = sb.capacity
  seqnum : sb'.lastByteAckedSeqnum = sb.lastByteAckedSeqnum
  index : sb'.lastByteAckedIndex = sb.lastByteAckedIndex
  ts : sb'.lastByteAckedTs = sb.lastByteAckedTs

theorem SendBuffer.SameAcked.refl (sb : SendBuffer) : sb.SameAcked sb := ⟨rfl, rfl, rfl, rfl⟩

theorem SendBuffer.SameAcked.trans {a b c : SendBuffer} (h : a.SameAcked b)
    (h' : b.SameAcked c) : a.SameAcked c :=
  ⟨h'.capacity.trans h.capacity, h'.seqnum.trans h.seqnum, h'.index.trans h.index,
    h'.ts.trans h.ts⟩

/-- A dump moves nothing but the index of the last byte sent. -/
theorem dumpIndex_sameAcked (sb : SendBuffer) (start len : UInt32) :
    sb.SameAcked (dumpIndex sb start len) := by
  unfold dumpIndex
  dsimp only
  split
  · exact ⟨rfl, rfl, rfl, rfl⟩
  · exact .refl sb

/-- Nor does a write touch what is acked. -/
theorem sendBufferWrite_sameAcked {sb sb' : SendBuffer} {buf : List UInt8} {len : UInt32}
    (h : sendBufferWrite sb buf len = .ok sb') : sb.SameAcked sb' := by
  obtain ⟨_, _, h⟩ := FaultSystem.ok_of_bind_ok h
  split at h
  · obtain rfl := Except.ok.inj h
    exact .refl sb
  · obtain ⟨buffer, _, hret⟩ := FaultSystem.ok_of_bind_ok h
    obtain rfl := Except.ok.inj hret
    exact ⟨rfl, rfl, rfl, rfl⟩

namespace SendBuffer.Refines

variable {sb : SendBuffer} {isn : ℕ} {st : SendStream UInt8}

theorem capacity_pos (_h : sb.Refines isn st) : 0 < st.capacity := by
  have := st.room
  have := st.acked_le_written
  omega

theorem noWrap_iff (h : sb.Refines isn st) :
    sb.NoWrap ↔ isn + st.acked + st.capacity < 2 ^ 32 := by
  unfold NoWrap
  rw [h.acked, h.capacity]

theorem noWrap (h : sb.Refines isn st) (hw : sb.NoWrap) :
    isn + st.acked + st.capacity < 2 ^ 32 :=
  h.noWrap_iff.mp hw

/-- The indices fit if the sequence numbers do. -/
theorem indicesFit (h : sb.Refines isn st) (hw : sb.NoWrap) : sb.IndicesFit := by
  have hroom := h.noWrap hw
  have hmod : st.acked % st.capacity ≤ st.acked := Nat.mod_le _ _
  unfold IndicesFit
  rw [h.ackedIndex, h.capacity]
  omega

/-- They always do in a ring of at most half of the 32-bit range. -/
theorem indicesFit_of_capacity_le (h : sb.Refines isn st) (hcap : st.capacity ≤ 2 ^ 31) :
    sb.IndicesFit := by
  have hlt : st.acked % st.capacity < st.capacity := Nat.mod_lt _ h.capacity_pos
  unfold IndicesFit
  rw [h.ackedIndex, h.capacity]
  omega

theorem capacity_lt (h : sb.Refines isn st) : st.capacity < 2 ^ 32 :=
  h.capacity ▸ sb.capacity.toNat_lt

theorem acked_lt (h : sb.Refines isn st) : isn + st.acked < 2 ^ 32 :=
  h.acked ▸ sb.lastByteAckedSeqnum.toNat_lt

theorem sent_lt (h : sb.Refines isn st) (hw : sb.NoWrap) : isn + st.sent < 2 ^ 32 := by
  have hroom := h.noWrap hw
  have hle := st.written_le
  have hsent := st.sent_le_written
  omega

/-! ## Sequence numbers from indices -/

/-- Whatever the sequence numbers are, the code computes them modulo `2 ^ 32`. -/
theorem getNextByteWrittenSeqnum_mod (h : sb.Refines isn st) :
    (CmuTcp.getNextByteWrittenSeqnum sb).toNat = (isn + st.written.length + 1) % 2 ^ 32 := by
  have hroom := h.acked_lt
  have hcap := h.capacity_lt
  have hle := st.written_le
  have hacked := st.acked_le_written
  have hpos := h.capacity_pos
  have hlt : st.acked % st.capacity < st.capacity := Nat.mod_lt _ hpos
  have hlt' : (st.written.length + 1) % st.capacity < st.capacity := Nat.mod_lt _ hpos
  -- the distance of the two cells is that of the positions, or a lap less
  have hdist := forward_distance_pos (C := st.capacity) (a := st.acked)
    (s := st.written.length + 1) (by omega) (by omega)
  unfold CmuTcp.getNextByteWrittenSeqnum
  have hidx : sb.nextByteWrittenIndex > sb.lastByteAckedIndex ↔
      st.acked % st.capacity < (st.written.length + 1) % st.capacity := by
    rw [gt_iff_lt, UInt32.lt_iff_toNat_lt, h.ackedIndex, h.nextIndex]
  -- the test is about the cells
  split
  · rename_i hgt
    rw [if_pos (hidx.mp hgt)] at hdist
    rw [UInt32.toNat_add, UInt32.toNat_sub, h.acked, h.ackedIndex, h.nextIndex]
    omega
  · rename_i hgt
    rw [if_neg (fun hlt' => hgt (hidx.mpr hlt'))] at hdist
    simp only [UInt32.toNat_add, UInt32.toNat_sub, UInt32.toNat_one, h.acked, h.ackedIndex,
      h.nextIndex, h.capacity]
    omega

theorem getLastByteSentSeqnum_mod (h : sb.Refines isn st) :
    (CmuTcp.getLastByteSentSeqnum sb).toNat = (isn + st.sent) % 2 ^ 32 := by
  have hroom := h.acked_lt
  have hcap := h.capacity_lt
  have hle := st.written_le
  have hsent := st.sent_le_written
  have hacked := st.acked_le_sent
  have hpos := h.capacity_pos
  have hlt : st.acked % st.capacity < st.capacity := Nat.mod_lt _ hpos
  have hlt' : st.sent % st.capacity < st.capacity := Nat.mod_lt _ hpos
  have hdist := forward_distance (C := st.capacity) hacked (by omega)
  unfold CmuTcp.getLastByteSentSeqnum
  have hidx : sb.lastByteSentIndex ≥ sb.lastByteAckedIndex ↔
      st.acked % st.capacity ≤ st.sent % st.capacity := by
    rw [ge_iff_le, UInt32.le_iff_toNat_le, h.ackedIndex, h.sentIndex]
  split
  · rename_i hge
    have hge' := hidx.mp hge
    rw [if_pos hge'] at hdist
    rw [UInt32.toNat_add, UInt32.toNat_sub, h.acked, h.ackedIndex, h.sentIndex]
    omega
  · rename_i hge
    rw [if_neg (fun hle' => hge (hidx.mpr hle'))] at hdist
    simp only [UInt32.toNat_add, UInt32.toNat_sub, UInt32.toNat_one, h.acked, h.ackedIndex,
      h.sentIndex, h.capacity]
    omega

theorem getNextByteWrittenSeqnum (h : sb.Refines isn st) (hw : sb.NoWrap) :
    (getNextByteWrittenSeqnum sb).toNat = isn + st.written.length + 1 := by
  have hroom := h.noWrap hw
  have hle := st.written_le
  have hpos := h.capacity_pos
  rw [h.getNextByteWrittenSeqnum_mod, Nat.mod_eq_of_lt (by omega)]

theorem getLastByteSentSeqnum (h : sb.Refines isn st) (hw : sb.NoWrap) :
    (getLastByteSentSeqnum sb).toNat = isn + st.sent := by
  rw [h.getLastByteSentSeqnum_mod, Nat.mod_eq_of_lt (h.sent_lt hw)]

theorem sendBufferMaxWrite (h : sb.Refines isn st) :
    (sendBufferMaxWrite sb).toNat = st.maxWrite := by
  have hroom := h.acked_lt
  have hcap := h.capacity_lt
  have hle := st.written_le
  have hacked := st.acked_le_written
  have hpos := h.capacity_pos
  unfold CmuTcp.sendBufferMaxWrite SendStream.maxWrite
  simp only [UInt32.toNat_sub, h.getNextByteWrittenSeqnum_mod, h.acked, h.capacity]
  omega

theorem sendBufferMaxNewDump (h : sb.Refines isn st) :
    (sendBufferMaxNewDump sb).toNat = st.written.length - st.sent := by
  have hcap := h.capacity_lt
  have hle := st.written_le
  have hsent := st.sent_le_written
  have hacked := st.acked_le_sent
  unfold CmuTcp.sendBufferMaxNewDump
  simp only [UInt32.toNat_sub, UInt32.toNat_one, h.getNextByteWrittenSeqnum_mod,
    h.getLastByteSentSeqnum_mod]
  omega

theorem getUnacknowledgedCount (h : sb.Refines isn st) :
    (getUnacknowledgedCount sb).toNat = st.sent - st.acked := by
  have hroom := h.acked_lt
  have hcap := h.capacity_lt
  have hle := st.written_le
  have hsent := st.sent_le_written
  have hacked := st.acked_le_sent
  unfold CmuTcp.getUnacknowledgedCount
  rw [UInt32.toNat_sub, h.getLastByteSentSeqnum_mod, h.acked]
  omega

/-- The cell that `seqnum_to_index_send` computes for a sequence number of the buffer's
    range, if its asserts hold. -/
theorem seqnumToIndexSend_cell (h : sb.Refines isn st) (hfit : sb.IndicesFit) {q idx : UInt32}
    {k : ℕ} (hq : q.toNat = isn + k) (hlo : st.acked ≤ k) (hhi : k < st.acked + st.capacity)
    (hidx : CmuTcp.seqnumToIndexSend sb q = .ok idx) : idx.toNat = k % st.capacity := by
  have hroom := h.acked_lt
  have hqlt := q.toNat_lt
  unfold IndicesFit at hfit
  rw [h.ackedIndex, h.capacity] at hfit
  unfold CmuTcp.seqnumToIndexSend at hidx
  obtain ⟨_, _, hidx⟩ := FaultSystem.ok_of_bind_ok hidx
  obtain ⟨_, _, hidx⟩ := FaultSystem.ok_of_bind_ok hidx
  obtain rfl := Except.ok.inj hidx
  rw [UInt32.toNat_mod, UInt32.toNat_add, UInt32.toNat_sub, h.ackedIndex, h.acked,
    h.capacity, hq,
    show (st.acked % st.capacity + (2 ^ 32 - (isn + st.acked) + (isn + k)) % 2 ^ 32) % 2 ^ 32
      = st.acked % st.capacity + (k - st.acked) by omega,
    Nat.mod_add_mod, Nat.add_sub_cancel' hlo]

/-- They hold if the sequence numbers do not wrap. -/
theorem seqnumToIndexSend (h : sb.Refines isn st) (hw : sb.NoWrap) {q : UInt32} {k : ℕ}
    (hq : q.toNat = isn + k) (hlo : st.acked ≤ k) (hhi : k < st.acked + st.capacity) :
    ∃ idx, seqnumToIndexSend sb q = .ok idx ∧ idx.toNat = k % st.capacity := by
  have hroom := h.noWrap hw
  have hok : CmuTcp.seqnumToIndexSend sb q =
      .ok ((sb.lastByteAckedIndex + (q - sb.lastByteAckedSeqnum)) % sb.capacity) := by
    unfold CmuTcp.seqnumToIndexSend
    rw [cAssert_of (ge_iff_le.mpr (UInt32.le_iff_toNat_le.mpr (by rw [hq, h.acked]; omega))),
      cAssert_of (UInt32.lt_iff_toNat_lt.mpr
        (by rw [UInt32.toNat_add, hq, h.acked, h.capacity]; omega))]
    rfl
  exact ⟨_, hok, h.seqnumToIndexSend_cell (h.indicesFit hw) hq hlo hhi hok⟩

/-- `index_to_seqnum_send` inverts the wrapping of positions from `acked` on. -/
theorem indexToSeqnumSend_mod (h : sb.Refines isn st) {idx : UInt32} {k : ℕ}
    (hidx : idx.toNat = k % st.capacity) (hlo : st.acked ≤ k)
    (hhi : k < st.acked + st.capacity) :
    (CmuTcp.indexToSeqnumSend sb idx).toNat = (isn + k) % 2 ^ 32 := by
  have hroom := h.acked_lt
  have hcap := h.capacity_lt
  have hpos := h.capacity_pos
  have hlt : st.acked % st.capacity < st.capacity := Nat.mod_lt _ hpos
  have hlt' : k % st.capacity < st.capacity := Nat.mod_lt _ hpos
  have hdist := forward_distance hlo hhi
  unfold CmuTcp.indexToSeqnumSend
  have hge : idx ≥ sb.lastByteAckedIndex ↔ st.acked % st.capacity ≤ k % st.capacity := by
    rw [ge_iff_le, UInt32.le_iff_toNat_le, h.ackedIndex, hidx]
  split
  · rename_i hle
    have hle' := hge.mp hle
    rw [if_pos hle'] at hdist
    rw [UInt32.toNat_add, UInt32.toNat_sub, h.acked, h.ackedIndex, hidx]
    omega
  · rename_i hle
    rw [if_neg (fun hle' => hle (hge.mpr hle'))] at hdist
    simp only [UInt32.toNat_add, UInt32.toNat_sub, UInt32.toNat_one, h.acked, h.ackedIndex,
      hidx, h.capacity]
    omega

/-! ## The operations -/

/-- New bytes go to the free cells of the lap that starts at `acked`. -/
theorem cells_write (h : sb.Refines isn st) {data : List UInt8} (hlen : data.length ≤ st.maxWrite) :
    Stores (overwriteWrap sb.buffer sb.nextByteWrittenIndex.toNat data) st.capacity
      (fromOne (st.written ++ data)) {k | st.acked < k ∧ k ≤ (st.written ++ data).length} := by
  have hacked := st.acked_le_written
  have hwle := st.written_le
  have hpos := h.capacity_pos
  unfold SendStream.maxWrite at hlen
  have hold : Stores sb.buffer sb.buffer.length (fromOne (st.written ++ data))
      {k | st.acked < k ∧ k ≤ st.written.length} := by
    intro k hk
    rw [fromOne_append_left _ hk.2, h.length]
    exact h.cells k hk
  have hnew := hold.overwriteWrap (a := st.written.length + 1) (by rw [h.length]; omega)
    (isSlice_fromOne_append _ _) (by
      intro k hk
      have := hk.1
      have := hk.2
      rw [h.length]
      omega)
  rw [h.length, ← h.nextIndex] at hnew
  refine hnew.mono fun k hk => ?_
  have hlo : st.acked < k := hk.1
  have hhi : k ≤ (st.written ++ data).length := hk.2
  rw [List.length_append] at hhi
  -- an old position or a new one
  rcases Nat.lt_or_ge st.written.length k with hgt | hle
  · exact Or.inr ⟨hgt, by omega⟩
  · exact Or.inl ⟨hlo, hle⟩

/-- No index of a write that fits overflows. -/
theorem nextIndex_add_lt (h : sb.Refines isn st) (hfit : sb.IndicesFit) {n : ℕ}
    (hn : n ≤ st.maxWrite) : sb.nextByteWrittenIndex.toNat + n < 2 ^ 32 := by
  unfold IndicesFit at hfit
  unfold SendStream.maxWrite at hn
  rw [h.ackedIndex, h.capacity] at hfit
  have hacked := st.acked_le_written
  have hwle := st.written_le
  have hcap := h.capacity_pos
  -- seen from the acked cell, the next one is in the same lap or the following
  have hlap := mod_eq_of_lap (C := st.capacity) (a := st.acked) (s := st.written.length)
    (by omega) (by omega)
  have hnextle : sb.nextByteWrittenIndex.toNat ≤ st.written.length % st.capacity + 1 := by
    rw [h.nextIndex, ← Nat.mod_add_mod]
    exact Nat.mod_le _ _
  split at hlap
  · omega
  · omega

/-- `send_buffer_write` appends the first `len` bytes of its argument. -/
theorem sendBufferWrite (h : sb.Refines isn st) (hfit : sb.IndicesFit) {buf : List UInt8}
    {len : UInt32} (hbuf : len.toNat ≤ buf.length)
    (hlen : (buf.take len.toNat).length ≤ st.maxWrite) :
    ∃ sb', sendBufferWrite sb buf len = .ok sb' ∧
      sb'.Refines isn (st.write (buf.take len.toNat) hlen) ∧
      sb'.lastByteAckedSeqnum = sb.lastByteAckedSeqnum ∧ sb'.capacity = sb.capacity := by
  have htake : (buf.take len.toNat).length = len.toNat := List.length_take_of_le hbuf
  have hmax : len.toNat ≤ st.maxWrite := htake ▸ hlen
  -- the assert
  have hassert : len ≤ CmuTcp.sendBufferMaxWrite sb := by
    rw [UInt32.le_iff_toNat_le, h.sendBufferMaxWrite]
    exact hmax
  unfold CmuTcp.sendBufferWrite
  rw [cAssert_of hassert]
  by_cases hzero : len = 0
  · -- there is nothing to write
    subst hzero
    exact ⟨sb, rfl, by simpa using h, rfl, rfl⟩
  · have hpos : 0 < len.toNat := toNat_pos_of_ne_zero hzero
    have hstart : sb.nextByteWrittenIndex.toNat < st.capacity := by
      rw [h.nextIndex]
      exact Nat.mod_lt _ h.capacity_pos
    have hsum := h.nextIndex_add_lt hfit hmax
    -- all bytes fit into the ring, so the copy is the wrapping write
    have hle : len.toNat ≤ st.capacity := by
      have hacked := st.acked_le_written
      unfold SendStream.maxWrite at hmax
      omega
    have hcopy : safeMemcpyToSendbuf sb len buf = .ok (overwriteWrap sb.buffer
        sb.nextByteWrittenIndex.toNat (buf.take len.toNat)) := safeMemcpyToSendbuf_eq
      (h.length.trans h.capacity.symm) (h.capacity.symm ▸ hstart) hpos
      (by rw [h.capacity]; exact hle) hbuf hsum
    refine ⟨{ sb with
      buffer := overwriteWrap sb.buffer sb.nextByteWrittenIndex.toNat (buf.take len.toNat)
      nextByteWrittenIndex := (sb.nextByteWrittenIndex + len) % sb.capacity }, ?_, ?_, rfl, rfl⟩
    · simp only [if_neg hzero, hcopy, bind, pure, Except.pure, Except.bind]
    -- the index moves on by what has been written, and the cells behind the acked one hold it
    · have hbuffer : (overwriteWrap sb.buffer sb.nextByteWrittenIndex.toNat
          (buf.take len.toNat)).length = st.capacity := by
        rw [length_overwriteWrap (by rw [h.length]; omega) (by rw [h.length, htake]; omega),
          h.length]
      exact {
        capacity := h.capacity
        acked := h.acked
        ackedIndex := h.ackedIndex
        sentIndex := h.sentIndex
        nextIndex := by
          show ((sb.nextByteWrittenIndex + len) % sb.capacity).toNat =
            ((st.written ++ buf.take len.toNat).length + 1) % st.capacity
          rw [UInt32.toNat_mod, UInt32.toNat_add, Nat.mod_eq_of_lt hsum, h.capacity, h.nextIndex,
            Nat.mod_add_mod, List.length_append, htake, Nat.add_right_comm]
        length := hbuffer
        cells := h.cells_write hlen }

/-- The index update of `send_buffer_dump`, for a dump as `multiple_send` makes it.  A dump
    that ends past the greatest sequence number is not recorded. -/
theorem dumpIndex_cases (h : sb.Refines isn st) (hfit : sb.IndicesFit)
    (hlast : isn + st.sent < 2 ^ 32) {start len : UInt32}
    (hstart : start = (sb.lastByteSentIndex + 1) % sb.capacity) (hpos : 0 < len.toNat)
    (hlen : st.sent + len.toNat ≤ st.written.length) :
    if isn + st.sent + len.toNat < 2 ^ 32 then
      (CmuTcp.dumpIndex sb start len).Refines isn (st.dump len.toNat hlen)
    else CmuTcp.dumpIndex sb start len = sb := by
  unfold IndicesFit at hfit
  rw [h.ackedIndex, h.capacity] at hfit
  have hle := st.written_le
  have hacked := st.acked_le_sent
  have hcap := h.capacity_pos
  -- no index that the function forms is more than one lap past the acked one
  have hlap := mod_eq_of_lap (C := st.capacity) hacked (by omega)
  have hnext : (st.sent + 1) % st.capacity ≤ st.sent % st.capacity + 1 := by
    rw [← Nat.mod_add_mod]
    exact Nat.mod_le _ _
  have hsent : st.sent % st.capacity + len.toNat < 2 ^ 32 := by
    split at hlap <;> omega
  have hstart' : start.toNat = (st.sent + 1) % st.capacity := by
    rw [hstart, UInt32.toNat_mod, UInt32.toNat_add, h.sentIndex, h.capacity, UInt32.toNat_one,
      Nat.mod_eq_of_lt (show st.sent % st.capacity + 1 < 2 ^ 32 by omega), Nat.mod_add_mod]
  have hend : ((start + len - 1) % sb.capacity).toNat =
      (st.sent + len.toNat) % st.capacity := by
    have hsum : (start + len - 1).toNat = (st.sent + 1) % st.capacity + (len.toNat - 1) := by
      rw [← hstart', UInt32.toNat_sub, UInt32.toNat_add, UInt32.toNat_one]
      omega
    rw [UInt32.toNat_mod, hsum, h.capacity, Nat.mod_add_mod]
    congr 1
    omega
  have htemp := h.indexToSeqnumSend_mod hend (by omega) (by omega)
  have hgrow : CmuTcp.indexToSeqnumSend sb ((start + len - 1) % sb.capacity) ≥
      CmuTcp.getLastByteSentSeqnum sb ↔ isn + st.sent + len.toNat < 2 ^ 32 := by
    rw [ge_iff_le, UInt32.le_iff_toNat_le, htemp, h.getLastByteSentSeqnum_mod]
    have := len.toNat_lt
    omega
  unfold CmuTcp.dumpIndex
  split
  · rename_i hnowrap
    rw [if_pos (hgrow.mpr hnowrap)]
    exact ⟨h.capacity, h.acked, h.ackedIndex, hend, h.nextIndex, h.length, h.cells⟩
  · rename_i hwraps
    rw [if_neg (mt hgrow.mp hwraps)]

theorem dumpIndex (h : sb.Refines isn st) (hw : sb.NoWrap) {start len : UInt32}
    (hstart : start = (sb.lastByteSentIndex + 1) % sb.capacity) (hpos : 0 < len.toNat)
    (hlen : st.sent + len.toNat ≤ st.written.length) :
    (dumpIndex sb start len).Refines isn (st.dump len.toNat hlen) := by
  have hroom := h.noWrap hw
  have hle := st.written_le
  have hcases := h.dumpIndex_cases (h.indicesFit hw) (h.sent_lt hw) hstart hpos hlen
  rwa [if_pos (by omega)] at hcases

/-- `send_buffer_update_ack` for an ack number up to one past the last byte sent, if its
    asserts hold. -/
theorem sendBufferUpdateAck_ok (h : sb.Refines isn st) (hfit : sb.IndicesFit)
    {hdrAck : UInt32} (hack : (hdrAck - 1).toNat ≤ isn + st.sent) {now : Int}
    {sb' : SendBuffer} (hok : CmuTcp.sendBufferUpdateAck sb hdrAck now = .ok sb') :
    sb'.Refines isn (st.ack ((hdrAck - 1).toNat - isn) (Nat.sub_le_iff_le_add'.mpr hack)) ∧
      sb'.capacity = sb.capacity := by
  have hle := st.written_le
  have hsent := st.sent_le_written
  have hcap := h.capacity_pos
  -- the code and the stream agree on whether the ack is new
  have hgt : hdrAck - 1 > sb.lastByteAckedSeqnum ↔ isn + st.acked < (hdrAck - 1).toNat := by
    rw [gt_iff_lt, UInt32.lt_iff_toNat_lt, h.acked]
  rcases sendBufferUpdateAck_eq_ok hok with ⟨hnew, idx, hidx, rfl⟩ | ⟨hold, rfl⟩
  -- the index is the cell of the number, and what is still unacknowledged is held as before
  · replace hnew := hgt.mp hnew
    generalize hdrAck - 1 = q at *
    have hcell := h.seqnumToIndexSend_cell (q := q) (k := q.toNat - isn) hfit
      (by omega) (by omega) (by omega) hidx
    have hmax : max st.acked (q.toNat - isn) = q.toNat - isn := max_eq_right (by omega)
    refine ⟨⟨h.capacity, ?_, ?_, h.sentIndex, h.nextIndex, h.length, ?_⟩, rfl⟩
    · simp only [SendStream.ack, hmax]
      omega
    · simp only [SendStream.ack, hmax, hcell]
    · refine h.cells.mono fun k hk => ?_
      have hlt : max st.acked (q.toNat - isn) < k := hk.1
      exact ⟨lt_of_le_of_lt (le_max_left _ _) hlt, hk.2⟩
  -- an old ack changes nothing
  · rw [UInt32.le_iff_toNat_le, h.acked] at hold
    rw [st.ack_of_le _ (by omega)]
    exact ⟨h, rfl⟩

/-- They hold if the sequence numbers do not wrap. -/
theorem sendBufferUpdateAck (h : sb.Refines isn st) (hw : sb.NoWrap) {hdrAck : UInt32}
    (hack : (hdrAck - 1).toNat ≤ isn + st.sent) (now : Int) :
    ∃ sb', sendBufferUpdateAck sb hdrAck now = .ok sb' ∧
      sb'.Refines isn (st.ack ((hdrAck - 1).toNat - isn) (Nat.sub_le_iff_le_add'.mpr hack)) ∧
      sb'.capacity = sb.capacity := by
  have hle := st.written_le
  have hsent := st.sent_le_written
  have hcap := h.capacity_pos
  obtain ⟨sb', hok⟩ : ∃ sb', CmuTcp.sendBufferUpdateAck sb hdrAck now = .ok sb' := by
    unfold CmuTcp.sendBufferUpdateAck
    dsimp only
    split
    · rename_i hnew
      rw [gt_iff_lt, UInt32.lt_iff_toNat_lt, h.acked] at hnew
      obtain ⟨idx, hidx, _⟩ := h.seqnumToIndexSend (q := hdrAck - 1)
        (k := (hdrAck - 1).toNat - isn) hw (by omega) (by omega) (by omega)
      rw [hidx]
      exact ⟨_, rfl⟩
    · exact ⟨sb, rfl⟩
  exact ⟨sb', hok, h.sendBufferUpdateAck_ok (h.indicesFit hw) hack hok⟩

end SendBuffer.Refines

/-- The stream of a buffer that has just been initialized. -/
theorem refines_initialize (capacity : UInt32) (mem : Garbage) (isn : UInt32) (now : Int)
    (hcap : 2 ≤ capacity.toNat) :
    ∃ sb, sendBufferInitialize (sendBufferCreate capacity mem) isn now = .ok sb ∧
      sb.Refines isn.toNat (SendStream.empty capacity.toNat (by omega)) ∧
      sb.capacity = capacity := by
  refine ⟨_, rfl, ?_, rfl⟩
  exact {
    capacity := rfl
    acked := rfl
    ackedIndex := (Nat.zero_mod _).symm
    sentIndex := (Nat.zero_mod _).symm
    nextIndex := (Nat.mod_eq_of_lt hcap).symm
    length := by simp [sendBufferCreate, SendStream.empty]
    cells := fun k hk => absurd hk.1 (Nat.not_lt.mpr hk.2) }

/-! ## cmu_write -/

/-- One iteration of `cmu_write` appends as much of the rest of its data as fits. -/
theorem cmuWriteIteration_refines {sock : CmuSocket} {isn : ℕ} {st : SendStream UInt8}
    (h : sock.sendBuf.Refines isn st) (hfit : sock.sendBuf.IndicesFit) {buf : List UInt8}
    (hbuf : buf.length < 2 ^ 32) :
    ∃ n sb' hn, n = min buf.length st.maxWrite ∧
      cmuWriteIteration sock buf = .ok (buf.drop n, { sock with sendBuf := sb' }) ∧
      sb'.Refines isn (st.write (buf.take n) hn) ∧
      sb'.lastByteAckedSeqnum = sock.sendBuf.lastByteAckedSeqnum ∧
      sb'.capacity = sock.sendBuf.capacity := by
  have hlength : buf.length.toUInt32.toNat = buf.length :=
    UInt32.toNat_ofNat_of_lt' hbuf
  have hmax := h.sendBufferMaxWrite
  -- `write_len` is the smaller of the two
  obtain ⟨writeLen, hdef, hval⟩ : ∃ writeLen : UInt32, writeLen =
      (if buf.length.toUInt32 > sendBufferMaxWrite sock.sendBuf then
        sendBufferMaxWrite sock.sendBuf else buf.length.toUInt32) ∧
      writeLen.toNat = min buf.length st.maxWrite := by
    refine ⟨_, rfl, ?_⟩
    have hlt : buf.length.toUInt32 > sendBufferMaxWrite sock.sendBuf ↔
        st.maxWrite < buf.length := by
      rw [gt_iff_lt, UInt32.lt_iff_toNat_lt, hmax, hlength]
    split
    · rename_i hgt
      rw [hmax, Nat.min_eq_right (Nat.le_of_lt (hlt.mp hgt))]
    · rename_i hgt
      rw [hlength, Nat.min_eq_left (Nat.le_of_not_lt (fun hl => hgt (hlt.mpr hl)))]
  have hn : (buf.take writeLen.toNat).length ≤ st.maxWrite := by
    rw [List.length_take, hval]
    omega
  obtain ⟨sb', hwrite, href, hacked, hcap⟩ := h.sendBufferWrite hfit
    (by rw [hval]; exact Nat.min_le_left _ _) hn
  refine ⟨writeLen.toNat, sb', hn, hval, ?_, href, hacked, hcap⟩
  unfold cmuWriteIteration
  simp only [← hdef]
  by_cases hpos : writeLen > 0
  · simp only [if_pos hpos, hwrite, bind, pure, Except.bind, Except.pure]
  · have hzero : writeLen = 0 := by
      apply UInt32.toNat_inj.mp
      rw [gt_iff_lt, UInt32.lt_iff_toNat_lt, UInt32.toNat_zero] at hpos
      rw [UInt32.toNat_zero]
      omega
    subst hzero
    have hsame : sb' = sock.sendBuf := by
      unfold sendBufferWrite at hwrite
      rw [cAssert_of (by
        rw [UInt32.le_iff_toNat_le, UInt32.toNat_zero]
        exact Nat.zero_le _)] at hwrite
      exact (Except.ok.inj hwrite).symm
    rw [if_neg hpos, hsame]
    simp only [UInt32.toNat_zero, List.drop_zero]
    rfl

end CmuTcp
