import CmuTcp.Ring.SendRuns
import CmuTcp.Ring.CopyOut

/-!
# What a First Transmission Reads

A dump of fresh bytes delivers them, and stays in the ring and in its destination, as
long as the bytes in flight and the bytes dumped lie in one stretch before the end of the
ring.  In every other position of the indices it reads past the ring, or faults: the first
when the stretch itself crosses the end, the second when it starts after the wrap.

Which branch a dump takes, and when that branch stays in the ring, is known from the module
on copies out of the ring.  Here both are put in terms of the three indices (`DumpsStraight`),
for every state of a run of the send ring.

Main result: `dump_readsBack_iff`, with the dump that leaves the ring.
-/

namespace CmuTcp

open FaultSystem (Run ok_of_bind_ok)
open CircularBuffer

/-- The copy is in bounds, and it has the bytes that the application wrote. -/
structure RingCopy.ReadsBack (copy : RingCopy) (bytes : List UInt8) : Prop where
  inBounds : copy.inBounds = true
  bytes : copy.bytes = bytes

/-- The positions of the ring indices for which a dump of `len` fresh bytes works. -/
structure SendBuffer.DumpsStraight (sb : SendBuffer) (len : UInt32) : Prop where
  inFlight : sb.lastByteAckedIndex ≤ sb.lastByteSentIndex
  fresh : sb.lastByteSentIndex.toNat + len.toNat < sb.capacity.toNat

/-- `send_buffer_dump` comes to its end, and its copy reads back. -/
def SendBuffer.DumpReadsBack (sb : SendBuffer) (beyond : ℕ → UInt8) (start len : UInt32)
    (bytes : List UInt8) : Prop :=
  ∃ r, sendBufferDump sb beyond start len = .ok r ∧ r.2.ReadsBack bytes

theorem SendBuffer.Refines.IsDump.readsBack_iff {sb : SendBuffer} {isn : ℕ}
    {st : SendStream UInt8} (h : sb.Refines isn st) (hw : sb.NoWrap) {start len : UInt32}
    (hd : IsDump sb st start len) (beyond : ℕ → UInt8) :
    sb.DumpReadsBack beyond start len (slice st.written st.sent len.toNat) ↔
      sb.DumpsStraight len := by
  have hne : ¬ len = 0 := by
    rintro rfl
    exact absurd hd.pos (by decide)
  have hbounds := hd.inBounds_iff h hw beyond
  have hstraight : sb.DumpsStraight len ↔ st.acked % st.capacity ≤ st.sent % st.capacity ∧
      st.sent % st.capacity + len.toNat < st.capacity := by
    rw [← h.ackedIndex, ← h.sentIndex, ← h.capacity, ← UInt32.le_iff_toNat_le]
    exact ⟨fun hs => ⟨hs.inFlight, hs.fresh⟩, fun hs => ⟨hs.1, hs.2⟩⟩
  have hcopy := hd.copy h hw beyond
  unfold SendBuffer.DumpReadsBack
  simp only [CmuTcp.sendBufferDump, if_neg hne]
  rw [hstraight, ← hbounds]
  constructor
  · rintro ⟨r, hr, hback⟩
    obtain ⟨copy, hok, hret⟩ := ok_of_bind_ok hr
    obtain rfl := Except.ok.inj hret
    -- the copy has not faulted, so it is the single `memcpy`
    rw [hcopy] at hok
    split at hok
    · rename_i hbehind
      exact ⟨hbehind, (Except.ok.inj hok) ▸ hback.inBounds⟩
    · exact absurd hok (by simp)
  · rintro ⟨hbehind, hin⟩
    rw [hcopy, if_pos hbehind]
    refine ⟨_, rfl, hin, ?_⟩
    have hlen : st.sent + (sb.copyOut beyond start len).bytes.length ≤ st.written.length := by
      rw [SendBuffer.length_copyOut]
      exact hd.le
    rw [(hd.isSlice h hw beyond hin).eq_slice hlen, SendBuffer.length_copyOut]

/-- **When a first transmission reads back what was written**: in every state of a run and
    for every number of fresh bytes, `send_buffer_dump` delivers the bytes after the last
    one sent, from inside the ring and into its destination, if and only if neither the
    bytes in flight nor the bytes dumped cross the end of the ring. -/
theorem dump_readsBack_iff {type : CmuSocketType} {recvCapacity capacity : UInt32}
    {env : SocketEnv} (hcap : 2 ≤ capacity.toNat) {tr : List (SendRun × SendLabel)}
    {s : SendRun} (h : Run (sendSystem type recvCapacity capacity env) SendRun.NoWrap tr s)
    {len : UInt32} (hpos : 1 ≤ len) (hlen : len ≤ sendBufferMaxNewDump s.sock.sendBuf)
    (beyond : ℕ → UInt8) :
    s.sock.sendBuf.DumpReadsBack beyond
        ((s.sock.sendBuf.lastByteSentIndex + 1) % s.sock.sendBuf.capacity) len
        (slice s.written s.dumped len.toNat) ↔
      s.sock.sendBuf.DumpsStraight len := by
  obtain ⟨st, href, _, hwritten, hsent, _⟩ := (SendRun.invariant_of_run hcap h).refines
  have hw : s.sock.sendBuf.NoWrap := h.kept
  rw [UInt32.le_iff_toNat_le, UInt32.toNat_one] at hpos
  rw [UInt32.le_iff_toNat_le, href.sendBufferMaxNewDump] at hlen
  have hd : SendBuffer.Refines.IsDump s.sock.sendBuf st
      ((s.sock.sendBuf.lastByteSentIndex + 1) % s.sock.sendBuf.capacity) len :=
    ⟨rfl, hpos, by omega⟩
  rw [← hwritten, ← hsent]
  exact hd.readsBack_iff href hw beyond

/-- The labels of a run on a ring of four cells: one byte is sent and acknowledged, and
    three more are written. -/
def secondLapLabels : List SendLabel :=
  [.writeCall [1], .writeIteration, .dump 1, .updateAck 102 0,
    .writeCall [2, 3, 4], .writeIteration]

/-- The two bytes before the end of the ring. -/
theorem dump_readsBack_iff_straight : ∃ tr s,
    Run (sendSystem .tcpInitiator 4 4 (.zeroed 100)) SendRun.NoWrap tr s ∧
    s.sock.sendBuf.DumpReadsBack (fun _ => 0)
      ((s.sock.sendBuf.lastByteSentIndex + 1) % s.sock.sendBuf.capacity) 2 [2, 3] := by
  have hinit : Run (sendSystem .tcpInitiator 4 4 (.zeroed 100)) SendRun.NoWrap []
      ⟨_, [], [], 0, []⟩ := .init ⟨_, rfl, rfl⟩ (by decide)
  have hrun := hinit.exec secondLapLabels rfl
  exact ⟨_, _, hrun, (dump_readsBack_iff (by decide) hrun (show 1 ≤ (2 : UInt32) by decide)
    (by decide) (fun _ => 0)).mpr ⟨by decide, by decide⟩⟩

/-- Three bytes that cross the end of the ring: the dump reads the cell behind it. -/
theorem dump_leaves_ring : ∃ tr s r,
    Run (sendSystem .tcpInitiator 4 4 (.zeroed 100)) SendRun.NoWrap tr s ∧
    s.written = [1, 2, 3, 4] ∧ s.dumped = 1 ∧ sendBufferMaxNewDump s.sock.sendBuf = 3 ∧
    sendBufferDump s.sock.sendBuf (fun _ => 0)
      ((s.sock.sendBuf.lastByteSentIndex + 1) % s.sock.sendBuf.capacity) 3 = .ok r ∧
    r.2 = ⟨[2, 3, 0], false⟩ ∧
    ¬ s.sock.sendBuf.DumpReadsBack (fun _ => 0)
      ((s.sock.sendBuf.lastByteSentIndex + 1) % s.sock.sendBuf.capacity) 3
      (slice s.written s.dumped 3) := by
  have hinit : Run (sendSystem .tcpInitiator 4 4 (.zeroed 100)) SendRun.NoWrap []
      ⟨_, [], [], 0, []⟩ := .init ⟨_, rfl, rfl⟩ (by decide)
  have hrun := hinit.exec secondLapLabels rfl
  refine ⟨_, _, _, hrun, rfl, rfl, rfl, rfl, rfl, ?_⟩
  rintro ⟨r, hr, hback⟩
  obtain rfl := Except.ok.inj hr
  exact absurd hback.inBounds (by decide)

end CmuTcp
