import CmuTcp.Ring.SendRuns
import CmuTcp.Connection.Sending

/-!
# What a Retransmission Reads

`resend_unacknowledged` hands `create_packet` a pointer into the ring.  A packet whose
bytes cross the end of the ring is filled from the memory behind it, so a retransmission
agrees with the stream exactly if none of its packets does.

The sequence numbers may wrap here: a dump that ends past the greatest of them is not
recorded, so the bytes that count as sent, and the acks of them, never get there.

1. `SendRun.Stored` is what survives of the refinement when numbers wrap: the ring still
   holds the stream, although fewer bytes count as sent than have been dumped.
2. The packets of the loop tile a stretch of the ring (`Sent.Tiles`), so "no packet crosses
   the end" is a condition on the positions at which they start.
3. Such a packet has the bytes of the stream; any other is copied from outside the ring.

Main result: `resend_agrees_iff`.
-/

namespace CmuTcp

open FaultSystem (Run ok_of_bind_ok)
open CircularBuffer

/-! ## Runs past the greatest sequence number -/

/-- No index that the code forms overflows: the ring is not larger than half of the 32-bit
    range, or no sequence number wraps. -/
def SendRun.NoOverflow (s : SendRun) : Prop :=
  s.sock.sendBuf.capacity.toNat ≤ 2 ^ 31 ∨ s.NoWrap

instance : DecidablePred SendRun.NoOverflow := fun s =>
  inferInstanceAs (Decidable (s.sock.sendBuf.capacity.toNat ≤ 2 ^ 31 ∨ s.NoWrap))

/-- The buffer holds what was written, whether all dumps are recorded or not. -/
structure SendRun.Stored (isn capacity : UInt32) (s : SendRun) : Prop where
  pending : s.pending.length < 2 ^ 31
  refines : ∃ st : SendStream UInt8, s.sock.sendBuf.Refines isn.toNat st ∧
    st.capacity = capacity.toNat ∧ st.written = s.written ∧ isn.toNat + st.sent < 2 ^ 32

section Steps

variable {isn capacity : UInt32} {s s' : SendRun}

theorem SendBuffer.Refines.indicesFit_of_noOverflow {isn : ℕ} {st : SendStream UInt8}
    (h : s.sock.sendBuf.Refines isn st) (ho : s.NoOverflow) : s.sock.sendBuf.IndicesFit := by
  rcases ho with hcap | hw
  · exact h.indicesFit_of_capacity_le (h.capacity ▸ hcap)
  · exact h.indicesFit hw

theorem SendRun.Stored.step (h : s.Stored isn capacity) (ho : s.NoOverflow) {l : SendLabel}
    (hstep : s.step l = some (.ok s')) : s'.Stored isn capacity := by
  obtain ⟨st, href, hcap, hwritten, hlast⟩ := h.refines
  have hfit := href.indicesFit_of_noOverflow ho
  cases l with
  | writeCall data =>
    simp only [SendRun.step] at hstep
    split at hstep
    · rename_i hcall
      obtain rfl := Except.ok.inj (Option.some.inj hstep)
      exact ⟨hcall.2, st, href, hcap, hwritten, hlast⟩
    · exact absurd hstep (by simp)
  | writeIteration =>
    simp only [SendRun.step] at hstep
    split at hstep
    · exact absurd hstep (by simp)
    · have hpending := h.pending
      obtain ⟨n, sb', hn, hmin, hwrite, href', _⟩ := cmuWriteIteration_refines href hfit
        (lt_trans hpending (by decide))
      have hle : n ≤ s.pending.length := hmin ▸ Nat.min_le_left _ _
      rw [hwrite] at hstep
      obtain rfl := Except.ok.inj (Option.some.inj hstep)
      -- the iteration has moved a prefix of what is pending into the ring
      refine ⟨?_, _, href', hcap, ?_, hlast⟩
      · show (s.pending.drop n).length < 2 ^ 31
        rw [List.length_drop]
        omega
      · show st.written ++ s.pending.take n =
          s.written ++ s.pending.take (s.pending.length - (s.pending.drop n).length)
        rw [hwritten, List.length_drop, Nat.sub_sub_self hle]
  | dump len =>
    simp only [SendRun.step] at hstep
    split at hstep
    · rename_i hmax
      rw [UInt32.le_iff_toNat_le, href.sendBufferMaxNewDump] at hmax
      obtain rfl := Except.ok.inj (Option.some.inj hstep)
      have hsent := st.sent_le_written
      by_cases hzero : len = 0
      · subst hzero
        exact ⟨h.pending, st, href, hcap, hwritten, hlast⟩
      · have hpos : 0 < len.toNat := toNat_pos_of_ne_zero hzero
        have hcases := href.dumpIndex_cases hfit hlast rfl hpos
          (show st.sent + len.toNat ≤ st.written.length by omega)
        refine ⟨h.pending, ?_⟩
        simp only [dumpedIndices, if_neg hzero]
        split at hcases
        · rename_i hnowrap
          exact ⟨_, hcases, hcap, hwritten, by simpa only [SendStream.dump, ← Nat.add_assoc]⟩
        · -- the dump is not recorded
          rw [hcases]
          exact ⟨st, href, hcap, hwritten, hlast⟩
    · exact absurd hstep (by simp)
  | updateAck hdrAck now =>
    simp only [SendRun.step] at hstep
    split at hstep
    · rename_i hle
      rw [UInt32.le_iff_toNat_le, href.getLastByteSentSeqnum_mod, Nat.mod_eq_of_lt hlast] at hle
      -- only an ack whose asserts hold leads to another state
      obtain ⟨sb', hack, hret⟩ := ok_of_bind_ok (Option.some.inj hstep)
      obtain rfl := Except.ok.inj hret
      exact ⟨h.pending, _, (href.sendBufferUpdateAck_ok hfit hle hack).1, hcap, hwritten, hlast⟩
    · exact absurd hstep (by simp)

end Steps

theorem SendRun.stored_of_run {type : CmuSocketType} {recvCapacity capacity : UInt32}
    {env : SocketEnv} (hcap : 2 ≤ capacity.toNat) {tr : List (SendRun × SendLabel)}
    {s : SendRun} (h : Run (sendSystem type recvCapacity capacity env) SendRun.NoOverflow tr s) :
    s.Stored env.rand capacity := by
  apply h.invariant
  · rintro s ⟨sock, hsock, rfl⟩ _
    obtain ⟨sb, hinit, href, _⟩ := refines_initialize capacity env.sendMem env.rand env.now hcap
    simp only [cmuSocket, hinit] at hsock
    obtain rfl := Except.ok.inj hsock
    exact ⟨by simp, _, href, rfl, rfl, env.rand.toNat_lt⟩
  · intro s l s' hstored ho _ hstep
    exact hstored.step ho hstep

/-! ## Retransmissions -/

/-- The copies are in bounds, and every packet has the bytes that the application wrote
    for its sequence numbers. -/
structure Sent.Agrees (r : Sent) (isn : UInt32) (written : List UInt8) : Prop where
  inBounds : r.inBounds = true
  seq : ∀ p ∈ r.packets, isn < p.header.seqNum
  payload : ∀ p ∈ r.packets, getPayload p =
    slice written (p.header.seqNum.toNat - (isn.toNat + 1)) (getPayloadLen p).toNat

/-- No packet of a retransmission crosses the end of the ring. -/
def CmuSocket.ResendsStraight (sock : CmuSocket) : Prop :=
  SegmentsFit sock.sendBuf.capacity.toNat (sock.sendBuf.lastByteAckedIndex.toNat + 1)
    (max 1 (min (getUnacknowledgedCount sock.sendBuf).toNat
      sock.window.rcvdAdvertisedWindow.toNat))

theorem segmentsFit_mod {C k len : ℕ} :
    SegmentsFit C (k % C + 1) len ↔ SegmentsFit C (k + 1) len := by
  have hcell : ∀ j, (k % C + 1 + 1375 * j) % C = (k + 1 + 1375 * j) % C := by
    intro j
    rw [Nat.add_assoc, Nat.mod_add_mod, Nat.add_assoc]
  unfold SegmentsFit
  simp only [hcell]

theorem SendBuffer.Refines.resend_agrees {sock : CmuSocket} {isn : UInt32}
    {st : SendStream UInt8} (h : sock.sendBuf.Refines isn.toNat st)
    (hfit : sock.sendBuf.IndicesFit) (hlast : isn.toNat + st.sent < 2 ^ 32)
    (hunacked : 0 < CmuTcp.getUnacknowledgedCount sock.sendBuf) (beyond : ℕ → UInt8) :
    (∃ r, resendUnacknowledged sock beyond = .ok r ∧ r.Agrees isn st.written) ↔
      sock.ResendsStraight := by
  rw [UInt32.lt_iff_toNat_lt, h.getUnacknowledgedCount, UInt32.toNat_zero] at hunacked
  obtain ⟨r, hr, _, _, hsends, hbounds, _⟩ :=
    resendUnacknowledged_spec h hfit hlast beyond (by omega)
  -- the resend stays in the array exactly when no chunk runs past the last cell
  have hstraight : sock.ResendsStraight ↔ r.inBounds = true := by
    rw [hbounds, resendLen_toNat h, CmuSocket.ResendsStraight, h.ackedIndex, h.capacity,
      segmentsFit_mod, h.getUnacknowledgedCount]
  rw [hstraight]
  constructor
  · rintro ⟨r', hr', hagrees⟩
    obtain rfl := Except.ok.inj (hr.symm.trans hr')
    exact hagrees.inBounds
  · intro hin
    -- inside the array each chunk is the slice of the stream that its sequence number names
    have hsent := st.sent_le_written
    have hlen := resendLen_toNat h
    refine ⟨r, hr, hin, ?_, ?_⟩
    · intro p hp
      obtain ⟨_, k, n, hcar, hlo, _, _⟩ := hsends p hp
      rw [UInt32.lt_iff_toNat_lt, hcar.seq]
      omega
    · intro p hp
      obtain ⟨hfrom, k, n, hcar, hlo, hhi, hslice⟩ := hsends p hp
      obtain ⟨a, rfl⟩ : ∃ a, k = a + 1 := Nat.exists_eq_succ_of_ne_zero (by omega)
      have hpayload := hfrom.payload
      rw [hcar.len] at hpayload
      rw [(hslice hin).eq_slice (by omega), hpayload, hcar.seq, hcar.len]
      congr 1
      omega

/-! ## Main result -/

/-- **When a retransmission agrees with the stream**: in every state of a run and for every
    window, each packet of `resend_unacknowledged` has the bytes that the application wrote
    for its sequence numbers, out of the cells of the ring, if and only if none of its
    packets crosses the end of the ring. -/
theorem resend_agrees_iff {type : CmuSocketType} {recvCapacity capacity : UInt32}
    {env : SocketEnv} (hcap : 2 ≤ capacity.toNat) {tr : List (SendRun × SendLabel)}
    {s : SendRun} (h : Run (sendSystem type recvCapacity capacity env) SendRun.NoOverflow tr s)
    {sock : CmuSocket} (hsock : sock.sendBuf = s.sock.sendBuf)
    (hunacked : 0 < getUnacknowledgedCount sock.sendBuf) (beyond : ℕ → UInt8) :
    (∃ r, resendUnacknowledged sock beyond = .ok r ∧ r.Agrees env.rand s.written) ↔
      sock.ResendsStraight := by
  obtain ⟨st, href, _, hwritten, hlast⟩ := (SendRun.stored_of_run hcap h).refines
  have hfit := href.indicesFit_of_noOverflow h.kept
  rw [← hsock] at href hfit
  rw [← hwritten]
  exact href.resend_agrees hfit hlast hunacked beyond

/-- Two bytes before the end of the ring. -/
theorem resend_agrees_iff_straight : ∃ tr s r,
    Run (sendSystem .tcpInitiator 4 4 (.zeroed 100)) SendRun.NoOverflow tr s ∧
    resendUnacknowledged s.sock (fun _ => 0) = .ok r ∧ r.Agrees 100 [1, 2, 3] := by
  have hinit : Run (sendSystem .tcpInitiator 4 4 (.zeroed 100)) SendRun.NoOverflow []
      ⟨_, [], [], 0, []⟩ := .init ⟨_, rfl, rfl⟩ (by decide)
  have hrun := hinit.exec ([.writeCall [1], .writeIteration, .dump 1,
    .updateAck 102 0, .writeCall [2, 3], .writeIteration, .dump 2] :
      List SendLabel) rfl
  obtain ⟨r, hr, hagrees⟩ := (resend_agrees_iff (by decide) hrun rfl (by decide)
    (fun _ => 0)).mpr (segmentsFit_of_le (by decide))
  exact ⟨_, _, r, hrun, hr, hagrees⟩

/-- Two unacknowledged bytes in the last and in the first cell, dumped at once: the packet has
    the byte behind the ring in the place of the second. -/
theorem resend_leaves_ring : ∃ tr s r,
    Run (sendSystem .tcpInitiator 4 4 (.zeroed 100)) SendRun.NoOverflow tr s ∧
    s.written = [1, 2, 3, 4] ∧ getUnacknowledgedCount s.sock.sendBuf = 2 ∧
    resendUnacknowledged s.sock (fun _ => 0) = .ok r ∧ r.packets.map getPayload = [[3, 0]] ∧
    ¬ r.Agrees 100 s.written := by
  have hinit : Run (sendSystem .tcpInitiator 4 4 (.zeroed 100)) SendRun.NoOverflow []
      ⟨_, [], [], 0, []⟩ := .init ⟨_, rfl, rfl⟩ (by decide)
  have hrun := hinit.exec ([.writeCall [1, 2], .writeIteration, .dump 2,
    .updateAck 103 0, .writeCall [3, 4], .writeIteration, .dump 2] :
      List SendLabel) rfl
  exact ⟨_, _, _, hrun, rfl, rfl, rfl, rfl, fun hagrees => absurd hagrees.inBounds (by decide)⟩

end CmuTcp
