import CmuTcp.Library.FaultSystem
import CmuTcp.Ring.Send

/-!
# Runs of the Send Ring

The send side of one socket on its own: calls of `cmu_write` of any length, each an
arbitrary number of loop iterations, dumps as `multiple_send` makes them, and acks up to
one past the last byte sent, in any order.

Along every such run the wrapped indices agree with the counts of what happened: the
bytes written, the bytes dumped, and the greatest ack.

A dump is here what it does to the indices.  The copy that comes with it can leave the
ring or end the process; what it does, and in which of these states, is the subject of the
modules on `send_buffer_dump` and `multiple_send`.  A run of the program is a run of this
system up to the first copy that faults, so whatever holds in all these states holds in
all of the program's.
-/

namespace CmuTcp

open FaultSystem (System Run)
open CircularBuffer

/-- A socket, the rest of the `cmu_write` call in progress, and what has happened. -/
structure SendRun where
  sock : CmuSocket
  pending : List UInt8
  -- the bytes that iterations of `cmu_write` have put into the ring
  written : List UInt8
  -- the number of bytes dumped
  dumped : ℕ
  -- the arguments of `send_buffer_update_ack`
  acks : List UInt32

inductive SendLabel where
  | writeCall (data : List UInt8)
  | writeIteration
  | dump (len : UInt32)
  | updateAck (hdrAck : UInt32) (now : Int)

/-- The buffer after a dump of `len` bytes from behind the last one sent, whatever its copy
    did. -/
def dumpedIndices (sb : SendBuffer) (len : UInt32) : SendBuffer :=
  if len = 0 then sb
  else dumpIndex sb ((sb.lastByteSentIndex + 1) % sb.capacity) len

/-- It is what `send_buffer_dump` leaves if its copy does not fault. -/
theorem sendBufferDump_dumpedIndices {sb : SendBuffer} {beyond : ℕ → UInt8} {len : UInt32}
    {r : SendBuffer × RingCopy}
    (h : sendBufferDump sb beyond ((sb.lastByteSentIndex + 1) % sb.capacity) len = .ok r) :
    r.1 = dumpedIndices sb len := by
  unfold sendBufferDump at h
  unfold dumpedIndices
  split at h
  · rename_i hzero
    rw [if_pos hzero, ← Except.ok.inj h]
  · rename_i hne
    obtain ⟨copy, _, hret⟩ := FaultSystem.ok_of_bind_ok h
    rw [if_neg hne, ← Except.ok.inj hret]

def SendRun.step (s : SendRun) : SendLabel → Option (Except Fault SendRun)
  | .writeCall data =>
    -- the length of a `cmu_write` call is a nonnegative `int`
    if s.pending = [] ∧ data.length < 2 ^ 31 then some (.ok { s with pending := data })
    else none
  | .writeIteration =>
    if s.pending = [] then none
    else some do
      let (rest, sock) ← cmuWriteIteration s.sock s.pending
      return { s with
        sock := sock
        pending := rest
        written := s.written ++ s.pending.take (s.pending.length - rest.length) }
  | .dump len =>
    let sb := s.sock.sendBuf
    if len ≤ sendBufferMaxNewDump sb then
      some (.ok { s with
        sock := { s.sock with sendBuf := dumpedIndices sb len }
        dumped := s.dumped + len.toNat })
    else none
  | .updateAck hdrAck now =>
    if hdrAck - 1 ≤ getLastByteSentSeqnum s.sock.sendBuf then some do
      let sb ← sendBufferUpdateAck s.sock.sendBuf hdrAck now
      return { s with sock := { s.sock with sendBuf := sb }, acks := s.acks ++ [hdrAck] }
    else none

/-- Runs start with a socket that `cmu_socket` has made. -/
def sendSystem (type : CmuSocketType) (recvCapacity capacity : UInt32) (env : SocketEnv) :
    System SendRun SendLabel Fault where
  init s := ∃ sock, cmuSocket type recvCapacity capacity env = .ok sock ∧
    s = ⟨sock, [], [], 0, []⟩
  step := SendRun.step

/-- No sequence number of the send buffer overflows. -/
def SendRun.NoWrap (s : SendRun) : Prop := s.sock.sendBuf.NoWrap

instance : DecidablePred SendRun.NoWrap := fun s =>
  inferInstanceAs (Decidable s.sock.sendBuf.NoWrap)

/-- The greatest of the ISN and the sequence numbers acknowledged. -/
def greatestAck (isn : UInt32) (acks : List UInt32) : ℕ :=
  (acks.map fun h => (h - 1).toNat).foldl max isn.toNat

/-- The send ring holds a stream with three counters. -/
structure SendRun.IsStream (isn capacity : UInt32) (s : SendRun) : Prop where
  nextWritten : (getNextByteWrittenSeqnum s.sock.sendBuf).toNat =
    isn.toNat + 1 + s.written.length
  lastSent : (getLastByteSentSeqnum s.sock.sendBuf).toNat = isn.toNat + s.dumped
  lastAcked : s.sock.sendBuf.lastByteAckedSeqnum.toNat = greatestAck isn s.acks
  acked_le_sent : s.sock.sendBuf.lastByteAckedSeqnum ≤ getLastByteSentSeqnum s.sock.sendBuf
  sent_lt_written : getLastByteSentSeqnum s.sock.sendBuf < getNextByteWrittenSeqnum s.sock.sendBuf
  written_le : (getNextByteWrittenSeqnum s.sock.sendBuf).toNat ≤
    s.sock.sendBuf.lastByteAckedSeqnum.toNat + capacity.toNat
  maxWrite : (sendBufferMaxWrite s.sock.sendBuf).toNat = capacity.toNat - 1 -
    (isn.toNat + s.written.length - s.sock.sendBuf.lastByteAckedSeqnum.toNat)
  cells : ∀ q, s.sock.sendBuf.lastByteAckedSeqnum.toNat < q →
    q < (getNextByteWrittenSeqnum s.sock.sendBuf).toNat →
    s.sock.sendBuf.buffer[(s.sock.sendBuf.lastByteAckedIndex.toNat +
      (q - s.sock.sendBuf.lastByteAckedSeqnum.toNat)) % capacity.toNat]? =
      s.written[q - (isn.toNat + 1)]?

/-! ## The invariant -/

/-- The buffer refines the stream that the record of the run describes. -/
structure SendRun.Invariant (isn capacity : UInt32) (s : SendRun) : Prop where
  pending : s.pending.length < 2 ^ 31
  refines : ∃ st : SendStream UInt8, s.sock.sendBuf.Refines isn.toNat st ∧
    st.capacity = capacity.toNat ∧ st.written = s.written ∧ st.sent = s.dumped ∧
    isn.toNat + st.acked = greatestAck isn s.acks

theorem greatestAck_append (isn : UInt32) (acks : List UInt32) (h : UInt32) :
    greatestAck isn (acks ++ [h]) = max (greatestAck isn acks) (h - 1).toNat := by
  simp [greatestAck]

theorem SendBuffer.Refines.dumpedIndices {sb : SendBuffer} {isn : ℕ} {st : SendStream UInt8}
    (h : sb.Refines isn st) (hw : sb.NoWrap) {len : UInt32}
    (hlen : st.sent + len.toNat ≤ st.written.length) :
    (dumpedIndices sb len).Refines isn (st.dump len.toNat hlen) := by
  unfold CmuTcp.dumpedIndices
  by_cases hzero : len = 0
  · subst hzero
    exact h
  · rw [if_neg hzero]
    exact h.dumpIndex hw rfl (toNat_pos_of_ne_zero hzero) hlen

section Steps

variable {isn capacity : UInt32} {s s' : SendRun}

/-- No step of a state with the invariant faults, and every step keeps it. -/
theorem SendRun.Invariant.step (h : s.Invariant isn capacity) (hw : s.NoWrap) {l : SendLabel}
    {r : Except Fault SendRun} (hstep : s.step l = some r) :
    ∃ s', r = .ok s' ∧ s'.Invariant isn capacity := by
  obtain ⟨st, href, hcap, hwritten, hsent, hacked⟩ := h.refines
  cases l with
  -- a call of `cmu_write` leaves the ring alone
  | writeCall data =>
    simp only [SendRun.step] at hstep
    split at hstep
    · rename_i hcall
      exact ⟨_, (Option.some.inj hstep).symm, hcall.2, st, href, hcap, hwritten, hsent, hacked⟩
    · exact absurd hstep (by simp)
  | writeIteration =>
    simp only [SendRun.step] at hstep
    split at hstep
    · exact absurd hstep (by simp)
    -- an iteration appends what fits, and the rest is pending
    · have hpending := h.pending
      obtain ⟨n, sb', hn, hmin, hwrite, href', _⟩ :=
        cmuWriteIteration_refines href (href.indicesFit hw) (lt_trans hpending (by decide))
      have hle : n ≤ s.pending.length := hmin ▸ Nat.min_le_left _ _
      rw [hwrite] at hstep
      refine ⟨_, (Option.some.inj hstep).symm, ?_, _, href', hcap, ?_, hsent, hacked⟩
      · show (s.pending.drop n).length < 2 ^ 31
        rw [List.length_drop]
        omega
      · show st.written ++ s.pending.take n =
          s.written ++ s.pending.take (s.pending.length - (s.pending.drop n).length)
        rw [hwritten, List.length_drop, Nat.sub_sub_self hle]
  | dump len =>
    simp only [SendRun.step] at hstep
    split at hstep
    -- a dump is of bytes that have been written
    · rename_i hmax
      rw [UInt32.le_iff_toNat_le, href.sendBufferMaxNewDump] at hmax
      have hle : st.sent + len.toNat ≤ st.written.length := by
        have := st.sent_le_written
        omega
      refine ⟨_, (Option.some.inj hstep).symm, h.pending, _,
        href.dumpedIndices hw hle, hcap, hwritten, ?_, hacked⟩
      simp only [SendStream.dump, hsent]
    · exact absurd hstep (by simp)
  | updateAck hdrAck now =>
    simp only [SendRun.step] at hstep
    split at hstep
    -- the ack is of a byte that has been sent
    · rename_i hle
      rw [UInt32.le_iff_toNat_le, href.getLastByteSentSeqnum hw] at hle
      obtain ⟨sb', hack, href', _⟩ := href.sendBufferUpdateAck hw hle now
      rw [hack] at hstep
      refine ⟨_, (Option.some.inj hstep).symm, h.pending, _, href', hcap, hwritten, hsent, ?_⟩
      rw [greatestAck_append, ← hacked]
      simp only [SendStream.ack]
      omega
    · exact absurd hstep (by simp)

end Steps

theorem SendRun.invariant_of_run {type : CmuSocketType} {recvCapacity capacity : UInt32}
    {env : SocketEnv} (hcap : 2 ≤ capacity.toNat) {tr : List (SendRun × SendLabel)}
    {s : SendRun} (h : Run (sendSystem type recvCapacity capacity env) SendRun.NoWrap tr s) :
    s.Invariant env.rand capacity := by
  apply h.invariant
  · rintro s ⟨sock, hsock, rfl⟩ _
    obtain ⟨sb, hinit, href, _⟩ := refines_initialize capacity env.sendMem env.rand env.now hcap
    simp only [cmuSocket, hinit] at hsock
    obtain rfl := Except.ok.inj hsock
    exact ⟨by simp, _, href, rfl, rfl, rfl, rfl⟩
  · intro s l s' hinv hw _ hstep
    obtain ⟨t, ht, hinv'⟩ := hinv.step hw hstep
    exact Except.ok.inj ht ▸ hinv'

/-- What the invariant says about the numbers that the code computes. -/
theorem SendRun.Invariant.isStream {isn capacity : UInt32} {s : SendRun}
    (h : s.Invariant isn capacity) (hw : s.NoWrap) : s.IsStream isn capacity := by
  obtain ⟨st, href, hcap, hwritten, hsent, hacked⟩ := h.refines
  -- the three numbers are those of the counters of the stream
  have hnext := href.getNextByteWrittenSeqnum hw
  have hlast := href.getLastByteSentSeqnum hw
  have hmax := href.sendBufferMaxWrite
  have hroom := st.room
  have hle := st.acked_le_sent
  have hle' := st.sent_le_written
  rw [hwritten] at hnext hroom hle'
  exact {
    nextWritten := by omega
    lastSent := by omega
    lastAcked := by rw [href.acked, hacked]
    acked_le_sent := by
      rw [UInt32.le_iff_toNat_le, href.acked, hlast]
      omega
    sent_lt_written := by
      rw [UInt32.lt_iff_toNat_lt, hnext, hlast]
      omega
    written_le := by
      rw [hnext, href.acked, ← hcap]
      omega
    maxWrite := by
      rw [hmax, href.acked, ← hcap, SendStream.maxWrite, hwritten]
      omega
    cells := by
      -- the cell of `q` is that of its position
      intro q hlo hhi
      rw [href.acked] at hlo ⊢
      rw [hnext] at hhi
      have hcell := href.cells (q - isn.toNat)
        ⟨by omega, by rw [hwritten]; omega⟩
      rw [href.ackedIndex, ← hcap, Nat.mod_add_mod,
        show st.acked + (q - (isn.toNat + st.acked)) = q - isn.toNat by omega, hcell, hwritten,
        fromOne, if_neg (by omega)]
      congr 1 }

/-! ## Main result -/

/-- **The send ring refines an unbounded stream with three counters**: in every run no write
    and no ack fails an assertion, an iteration of `cmu_write` appends as much as fits, and
    the indices and cells of the ring are those of the stream of all bytes written. -/
theorem sendRing_refines_stream {type : CmuSocketType} {recvCapacity capacity : UInt32}
    {env : SocketEnv} (hcap : 2 ≤ capacity.toNat) {tr : List (SendRun × SendLabel)}
    {s : SendRun} (h : Run (sendSystem type recvCapacity capacity env) SendRun.NoWrap tr s) :
    s.IsStream env.rand capacity ∧
    (∀ l f, s.step l ≠ some (.error f)) ∧
    ∀ s', s.step .writeIteration = some (.ok s') →
      s'.written = s.written ++ s.pending.take
        (min s.pending.length (sendBufferMaxWrite s.sock.sendBuf).toNat) := by
  have hinv := SendRun.invariant_of_run hcap h
  have hw : s.NoWrap := h.kept
  -- no step fails
  refine ⟨hinv.isStream hw, ?_, ?_⟩
  · intro l f hfault
    obtain ⟨s', hs', _⟩ := hinv.step hw hfault
    exact absurd hs' (by simp)
  -- an iteration writes as many bytes as there is room for
  · intro s' hstep
    obtain ⟨st, href, _⟩ := hinv.refines
    obtain ⟨n, sb', hn, hmin, hwrite, _⟩ := cmuWriteIteration_refines href (href.indicesFit hw)
      (lt_trans hinv.pending (by decide))
    have hle : n ≤ s.pending.length := hmin ▸ Nat.min_le_left _ _
    simp only [SendRun.step] at hstep
    split at hstep
    · exact absurd hstep (by simp)
    · rw [hwrite] at hstep
      obtain rfl := Except.ok.inj (Option.some.inj hstep)
      rw [href.sendBufferMaxWrite, ← hmin]
      show s.written ++ s.pending.take (s.pending.length - (s.pending.drop n).length) = _
      rw [List.length_drop, Nat.sub_sub_self hle]

/-- A ring of four cells, five bytes written in two iterations around an ack. -/
theorem sendRing_refines_stream_wrapping :
    ∃ tr s, Run (sendSystem .tcpInitiator 4 4 (.zeroed 100)) SendRun.NoWrap tr s ∧
      s.written = [1, 2, 3, 4, 5] ∧ s.IsStream 100 4 := by
  have hinit : Run (sendSystem .tcpInitiator 4 4 (.zeroed 100)) SendRun.NoWrap []
      ⟨_, [], [], 0, []⟩ := .init ⟨_, rfl, rfl⟩ (by decide)
  have hrun := hinit.exec ([.writeCall [1, 2, 3, 4, 5], .writeIteration,
    .dump 2, .updateAck 103 0, .writeIteration] : List SendLabel) rfl
  exact ⟨_, _, hrun, rfl, (sendRing_refines_stream (by decide) hrun).1⟩

end CmuTcp
