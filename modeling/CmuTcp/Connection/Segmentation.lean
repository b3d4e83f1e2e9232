import CmuTcp.Connection.Sending
import CmuTcp.Ring.SendRuns

/-!
# Segmentation

The two loops that cut a stretch of the stream into packets.  `multiple_send` starts each
packet behind the last byte sent, which the dump of the packet moves; `resend_unacknowledged`
counts the bytes it has sent and leaves the buffer alone.

`resend_unacknowledged` lays its packets end to end over exactly the stretch it was to send,
whatever the positions of the ring indices.  So does `multiple_send`, unless one of its
packets starts after the wrap: then it dies in the copy for that packet.  The module goes

1. from packets in a row and single segments,
2. over the loops, whose fuel does not matter once it is enough,
3. to the equivalence: `multiple_send` cuts the fresh bytes into segments if and only if every
   one of them starts behind the index of the last byte acknowledged.
-/

namespace CmuTcp

open FaultSystem (Run ok_of_bind_ok)

/-! ## Packets in a row -/

theorem Tiles.le (h : Tiles isn packets lo hi) : lo ≤ hi := by
  induction h with
  | nil lo => exact le_refl lo
  | cons hcar hrest ih => exact le_trans (Nat.le_add_right _ _) ih

/-- The same stretch, counted from another place. -/
theorem Tiles.shift {isn lo hi : ℕ} {packets : List Packet} (h : Tiles isn packets lo hi) :
    Tiles 0 packets (isn + lo) (isn + hi) := by
  induction h with
  | nil lo => exact .nil _
  | @cons p packets lo n hi hcar hrest ih =>
    refine .cons ⟨?_, hcar.len, hcar.pos⟩ (Nat.add_assoc isn lo n ▸ ih)
    rw [hcar.seq, Nat.zero_add, Nat.add_assoc]

/-! ## Single packets -/

/-- At most `MSS` bytes of payload behind a header without extension, and no length that
    lost bits in its 16-bit field. -/
structure Packet.IsSegment (p : Packet) : Prop where
  hlen : p.header.hlen = headerLen
  payload_le : (getPayload p).length ≤ mss.toNat
  payloadLen : (getPayloadLen p).toNat = (getPayload p).length
  plen : p.header.plen.toNat = 25 + (getPayload p).length
  plen_le : p.header.plen.toNat ≤ maxLen.toNat

theorem dataPacket_isSegment {sock : CmuSocket} {seq : UInt32} {payload : List UInt8}
    {payloadLen : UInt16} {p : Packet} (h : dataPacket sock seq payload payloadLen = some p)
    (hlen : payloadLen.toNat ≤ 1375) (hpayload : payload.length = payloadLen.toNat) :
    p.IsSegment := by
  have hsum : (headerLen + payloadLen).toNat = 25 + payloadLen.toNat := by
    rw [UInt16.toNat_add, show headerLen.toNat = 25 from rfl]
    omega
  -- the packet is the one that `create_packet` builds for these lengths
  obtain ⟨p', hp', hfrom, _, hplen, hpay⟩ := dataPacket_eq sock seq hlen hpayload
  obtain rfl := Option.some.inj (hp'.symm.trans h)
  have hheader : p'.header.hlen = headerLen ∧ p'.header.plen = headerLen + payloadLen := by
    unfold dataPacket createPacket at h
    split at h
    · exact absurd h (by simp)
    · split at h
      · exact absurd h (by simp)
      · obtain rfl := Option.some.inj h
        exact ⟨rfl, rfl⟩
  exact {
    hlen := hheader.1
    payload_le := by
      rw [hpay, hpayload, mss_toNat]
      exact hlen
    payloadLen := by rw [hpay, hpayload, hplen]
    plen := by rw [hheader.2, hsum, hpay, hpayload]
    plen_le := by
      rw [hheader.2, hsum, show maxLen.toNat = 1400 from rfl]
      omega }

/-- Every packet of the two functions is a segment. -/
theorem Packet.IsData.isSegment {p : Packet} {sock : CmuSocket} (h : p.IsData sock) :
    p.IsSegment := by
  obtain ⟨_, _, _, hlen, hpayload, hp⟩ := h
  exact dataPacket_isSegment hp hlen hpayload

/-! ## The loops end -/

/-- A loop whose body needs the loop only at smaller sizes has one result for all fuels that
    are enough for the size. -/
theorem loop_ends {σ ρ : Type} (loop : ℕ → σ → ρ) (size : σ → ℕ)
    (hdone : ∀ s fuel fuel', size s = 0 → loop fuel s = loop fuel' s)
    (hbody : ∀ s fuel fuel', 0 < size s → (∀ t, size t < size s → loop fuel t = loop fuel' t) →
      loop (fuel + 1) s = loop (fuel' + 1) s)
    {fuel fuel' : ℕ} (s : σ) (hfuel : size s ≤ fuel) (hfuel' : size s ≤ fuel') :
    loop fuel s = loop fuel' s := by
  induction fuel generalizing fuel' s with
  | zero => exact hdone s 0 fuel' (Nat.le_zero.mp hfuel)
  | succ fuel ih =>
    -- a state of size `0` needs no fuel, the others have some left
    rcases Nat.eq_zero_or_pos (size s) with hzero | hpos
    · exact hdone s (fuel + 1) fuel' hzero
    · obtain ⟨fuel', rfl⟩ := Nat.exists_eq_succ_of_ne_zero (show fuel' ≠ 0 by omega)
      exact hbody s fuel fuel' hpos fun t ht => ih t (by omega) (by omega)

/-- A chunk takes something off the target. -/
theorem toNat_sub_chunkLen_lt {target : UInt32} (hpos : 0 < target.toNat) :
    (target - (chunkLen target).toUInt32).toNat < target.toNat := by
  have hrest := sub_chunkLen_toNat target
  omega

theorem multipleSendLoop_done (sock : CmuSocket) (beyond : ℕ → UInt8) (fuel : ℕ)
    (sb : SendBuffer) {target : UInt32} (hzero : target.toNat = 0) :
    multipleSendLoop sock beyond fuel sb target = ⟨sb, [], true, none⟩ := by
  cases fuel with
  | zero => rfl
  | succ fuel =>
    have hpos : ¬ target > 0 := mt target_pos_iff.mp (Nat.not_lt.mpr (Nat.le_zero.mpr hzero))
    simp only [multipleSendLoop, if_neg hpos]

theorem resendLoop_done (sock : CmuSocket) (beyond : ℕ → UInt8) (startIndex startSeq : UInt32)
    (fuel : ℕ) (numSent : UInt32) {target : UInt32} (hzero : target.toNat = 0) :
    resendLoop sock beyond startIndex startSeq fuel numSent target = ([], true) := by
  cases fuel with
  | zero => rfl
  | succ fuel =>
    have hpos : ¬ target > 0 := mt target_pos_iff.mp (Nat.not_lt.mpr (Nat.le_zero.mpr hzero))
    simp only [resendLoop, if_neg hpos]

/-- Every iteration of the loop of `multiple_send` sends a byte: with `target` iterations
    left or more, the loop ends by its own test. -/
theorem multipleSendLoop_ends (sock : CmuSocket) (beyond : ℕ → UInt8) {fuel fuel' : ℕ}
    (sb : SendBuffer) {target : UInt32} (hfuel : target.toNat ≤ fuel)
    (hfuel' : target.toNat ≤ fuel') :
    multipleSendLoop sock beyond fuel sb target = multipleSendLoop sock beyond fuel' sb target := by
  refine loop_ends (fun fuel (x : SendBuffer × UInt32) => multipleSendLoop sock beyond fuel x.1 x.2)
    (fun x => x.2.toNat) ?_ ?_ (sb, target) hfuel hfuel'
  · intro x fuel fuel' hzero
    rw [multipleSendLoop_done _ _ _ _ hzero, multipleSendLoop_done _ _ _ _ hzero]
  · -- a chunk is sent and the loop goes on, or the copy has faulted in both
    rintro ⟨sb, target⟩ fuel fuel' hpos ih
    have hnext : ∀ sb, multipleSendLoop sock beyond fuel sb
        (target - (chunkLen target).toUInt32) = multipleSendLoop sock beyond fuel' sb _ :=
      fun sb => ih (sb, _) (toNat_sub_chunkLen_lt hpos)
    simp only [multipleSendLoop, if_pos (target_pos_iff.mpr hpos), hnext]

theorem resendLoop_ends (sock : CmuSocket) (beyond : ℕ → UInt8) (startIndex startSeq : UInt32)
    {fuel fuel' : ℕ} (numSent : UInt32) {target : UInt32} (hfuel : target.toNat ≤ fuel)
    (hfuel' : target.toNat ≤ fuel') :
    resendLoop sock beyond startIndex startSeq fuel numSent target =
      resendLoop sock beyond startIndex startSeq fuel' numSent target := by
  refine loop_ends
    (fun fuel (x : UInt32 × UInt32) => resendLoop sock beyond startIndex startSeq fuel x.1 x.2)
    (fun x => x.2.toNat) ?_ ?_ (numSent, target) hfuel hfuel'
  · intro x fuel fuel' hzero
    rw [resendLoop_done _ _ _ _ _ _ hzero, resendLoop_done _ _ _ _ _ _ hzero]
  · rintro ⟨numSent, target⟩ fuel fuel' hpos ih
    have hnext : ∀ numSent, resendLoop sock beyond startIndex startSeq fuel numSent
        (target - (chunkLen target).toUInt32) =
          resendLoop sock beyond startIndex startSeq fuel' numSent _ :=
      fun numSent => ih (numSent, _) (toNat_sub_chunkLen_lt hpos)
    simp only [resendLoop, if_pos (target_pos_iff.mpr hpos), hnext]

/-! ## Retransmissions -/

section Resend

variable {sock : CmuSocket} {isn : ℕ} {st : SendStream UInt8}

/-- The loop of `resend_unacknowledged` sends `target` bytes one after the other. -/
theorem resendLoop_tiles (sock : CmuSocket) (beyond : ℕ → UInt8) (startIndex startSeq : UInt32)
    (fuel : ℕ) {lo : ℕ} {numSent target : UInt32} (hstart : 0 < startSeq.toNat)
    (hseq : startSeq.toNat + numSent.toNat = isn + (lo + 1))
    (htop : isn + lo + target.toNat < 2 ^ 32) (hfuel : target.toNat ≤ fuel) :
    Tiles isn (resendLoop sock beyond startIndex startSeq fuel numSent target).1 lo
      (lo + target.toNat) := by
  induction fuel generalizing lo numSent target with
  | zero =>
    have hzero : target.toNat = 0 := by omega
    rw [hzero]
    exact .nil lo
  | succ fuel ih =>
    by_cases hpos : target > 0
    · have hpos' : 0 < target.toNat := target_pos_iff.mp hpos
      have hrest := sub_chunkLen_toNat target
      have hnum : (numSent + (chunkLen target).toUInt32).toNat =
          numSent.toNat + min target.toNat 1375 := by
        rw [UInt32.toNat_add, toNat_chunkLen]
        omega
      obtain ⟨p, _, hpseq, hplen, _, heq⟩ :=
        resendLoop_succ sock beyond startIndex startSeq fuel numSent hpos
      rw [heq]
      have hcar : p.Carries isn (lo + 1) (min target.toNat 1375) := by
        refine ⟨?_, by rw [hplen, chunkLen_toNat], by omega⟩
        rw [hpseq, UInt32.toNat_add]
        omega
      -- `num_sent` has moved on by the length of the packet
      have hnext : Tiles isn (resendLoop sock beyond startIndex startSeq fuel
          (numSent + (chunkLen target).toUInt32) (target - (chunkLen target).toUInt32)).1
          (lo + min target.toNat 1375) _ := ih (by omega) (by omega) (by omega)
      rw [hrest, show lo + min target.toNat 1375 + (target.toNat - min target.toNat 1375) =
        lo + target.toNat by omega] at hnext
      exact .cons hcar hnext
    · have hzero : target.toNat = 0 := Nat.eq_zero_of_not_pos (mt target_pos_iff.mpr hpos)
      rw [resendLoop_done _ _ _ _ _ _ hzero, hzero]
      exact .nil lo

/-- How many bytes `resend_unacknowledged` sends: one if the window is `0`. -/
def CmuSocket.resendCount (sock : CmuSocket) : ℕ := max 1 (resendLen sock).toNat

/-- They are the first unacknowledged ones. -/
theorem resendUnacknowledged_tiles (h : sock.sendBuf.Refines isn st)
    (hlast : isn + st.sent < 2 ^ 32) {beyond : ℕ → UInt8} {sent : Sent}
    (hok : resendUnacknowledged sock beyond = .ok sent) :
    Tiles isn sent.packets st.acked (st.acked + sock.resendCount) ∧
      st.acked + sock.resendCount ≤ st.sent := by
  have hlen := resendLen_toNat h
  obtain ⟨_, hassert, hok⟩ := ok_of_bind_ok hok
  have hpos : 0 < (getUnacknowledgedCount sock.sendBuf).toNat := by
    by_contra hzero
    have hfails : cAssert (getUnacknowledgedCount sock.sendBuf > 0) .resendUnacknowledged =
        .error (.assertion .resendUnacknowledged) := by
      exact if_neg (mt target_pos_iff.mp hzero)
    exact absurd (hfails.symm.trans hassert) (by simp)
  rw [h.getUnacknowledgedCount] at hpos
  have hseq : (sock.sendBuf.lastByteAckedSeqnum + 1).toNat = isn + (st.acked + 1) := by
    rw [UInt32.toNat_add, UInt32.toNat_one, h.acked]
    omega
  unfold CmuSocket.resendCount
  refine ⟨?_, by omega⟩
  dsimp only at hok
  split at hok
  · rename_i hzero
    -- a zero window probe
    obtain rfl := Except.ok.inj hok
    have hzero' : (resendLen sock).toNat = 0 := by rw [hzero]; rfl
    obtain ⟨p, hp, _, hpseq, hplen, _⟩ := probe_packet sock beyond
    have hcar : p.Carries isn (st.acked + 1) 1 :=
      ⟨by rw [hpseq, hseq], by rw [hplen]; rfl, Nat.one_pos⟩
    rw [hzero', hp]
    exact .cons hcar (.nil _)
  · rename_i hne
    obtain rfl := Except.ok.inj hok
    have hpos := toNat_pos_of_ne_zero hne
    rw [Nat.max_eq_right (by omega)]
    exact resendLoop_tiles sock beyond _ _ _ (by omega)
      (by rw [hseq, UInt32.toNat_zero, Nat.add_zero]) (by omega) (le_refl _)

end Resend

/-! ## Main result -/

/-- The packets are segments, and have the sequence numbers behind `lo` up to `hi`, one
    stretch after the other. -/
structure Segments (packets : List Packet) (lo hi : ℕ) : Prop where
  tiles : Tiles 0 packets lo hi
  segment : ∀ p ∈ packets, p.IsSegment

/-- The fresh bytes that fit the peer's window next to those in flight. -/
def CmuSocket.freshCount (sock : CmuSocket) : ℕ :=
  let unacknowledged := (getUnacknowledgedCount sock.sendBuf).toNat
  let window := sock.window.rcvdAdvertisedWindow.toNat
  if unacknowledged < window then
    min (sendBufferMaxNewDump sock.sendBuf).toNat (window - unacknowledged)
  else 0

/-- `multiple_send` cuts the fresh bytes that fit into segments. -/
structure CmuSocket.SegmentsFresh (sock : CmuSocket) (beyond : ℕ → UInt8) : Prop where
  finishes : (multipleSend sock beyond).fault = none
  segments : Segments (multipleSend sock beyond).packets
    (getLastByteSentSeqnum sock.sendBuf).toNat
    ((getLastByteSentSeqnum sock.sendBuf).toNat + sock.freshCount)
  lastSent : (getLastByteSentSeqnum (multipleSend sock beyond).sendBuf).toNat =
    (getLastByteSentSeqnum sock.sendBuf).toNat + sock.freshCount
  unacknowledged : (getUnacknowledgedCount (multipleSend sock beyond).sendBuf).toNat ≤
    max sock.window.rcvdAdvertisedWindow.toNat (getUnacknowledgedCount sock.sendBuf).toNat
  ends : ∀ fuel, sock.freshCount ≤ fuel →
    multipleSendLoop sock beyond fuel sock.sendBuf (freshSendLen sock) = multipleSend sock beyond

/-- No packet of `multiple_send` starts after the wrap. -/
def CmuSocket.StartsBehind (sock : CmuSocket) : Prop :=
  ∀ j, 1375 * j < sock.freshCount → sock.sendBuf.lastByteAckedIndex.toNat <
    (sock.sendBuf.lastByteSentIndex.toNat + 1 + 1375 * j) % sock.sendBuf.capacity.toNat

/-- The unacknowledged bytes that fit the peer's window, or one if the window is `0`. -/
def CmuSocket.unacknowledgedCount (sock : CmuSocket) : ℕ :=
  if sock.window.rcvdAdvertisedWindow.toNat = 0 then 1
  else min (getUnacknowledgedCount sock.sendBuf).toNat sock.window.rcvdAdvertisedWindow.toNat

/-- `resend_unacknowledged` cuts the first unacknowledged bytes into segments. -/
structure CmuSocket.SegmentsUnacknowledged (sock : CmuSocket) (beyond : ℕ → UInt8) (r : Sent) :
    Prop where
  result : resendUnacknowledged sock beyond = .ok r
  segments : Segments r.packets sock.sendBuf.lastByteAckedSeqnum.toNat
    (sock.sendBuf.lastByteAckedSeqnum.toNat + sock.unacknowledgedCount)
  le_lastSent : sock.sendBuf.lastByteAckedSeqnum.toNat + sock.unacknowledgedCount ≤
    (getLastByteSentSeqnum sock.sendBuf).toNat
  sendBuf : r.sendBuf = sock.sendBuf
  ends : sock.window.rcvdAdvertisedWindow ≠ 0 → ∀ fuel, sock.unacknowledgedCount ≤ fuel →
    resendLoop sock beyond
      ((sock.sendBuf.lastByteAckedIndex + 1) % sock.sendBuf.capacity)
      (sock.sendBuf.lastByteAckedSeqnum + 1) fuel 0 (resendLen sock) = (r.packets, r.inBounds)

section Runs

variable {sock : CmuSocket} {isn : ℕ} {st : SendStream UInt8}

theorem freshSendLen_eq_freshCount (sock : CmuSocket) :
    (freshSendLen sock).toNat = sock.freshCount := by
  rw [freshSendLen_toNat]
  unfold CmuSocket.freshCount
  dsimp only
  split
  · rfl
  · omega

/-- The condition, in the positions of the stream. -/
theorem startsBehind_iff (h : sock.sendBuf.Refines isn st) : sock.StartsBehind ↔
    SegmentsBehind st.capacity st.acked (st.sent + 1) (freshSendLen sock).toNat := by
  unfold CmuSocket.StartsBehind SegmentsBehind
  rw [h.ackedIndex, h.sentIndex, h.capacity, freshSendLen_eq_freshCount]
  have hcell : ∀ j, (st.sent % st.capacity + 1 + 1375 * j) % st.capacity =
      (st.sent + 1 + 1375 * j) % st.capacity := by
    intro j
    rw [Nat.add_assoc, Nat.mod_add_mod, Nat.add_assoc]
  simp only [hcell]

theorem segmentsFresh_iff (h : sock.sendBuf.Refines isn st) (hw : sock.sendBuf.NoWrap)
    (beyond : ℕ → UInt8) : sock.SegmentsFresh beyond ↔ sock.StartsBehind := by
  obtain ⟨n, hsends⟩ := multipleSend_spec h hw beyond
  rw [startsBehind_iff h, ← hsends.finishes]
  refine ⟨fun hfresh => hfresh.finishes, fun hnone => ?_⟩
  have hcount := freshSendLen_eq_freshCount sock
  obtain ⟨hle, hwindow⟩ := freshSendLen_le h
  -- the loop has come to its end, so it has sent everything
  obtain rfl := hsends.all hnone
  have hw' : (multipleSend sock beyond).sendBuf.NoWrap :=
    hsends.sendBuf.noWrap_iff.mpr (h.noWrap hw)
  have hlast := h.getLastByteSentSeqnum hw
  have hlast' : (getLastByteSentSeqnum (multipleSend sock beyond).sendBuf).toNat =
      isn + (st.sent + (freshSendLen sock).toNat) := hsends.sendBuf.getLastByteSentSeqnum hw'
  have hunacked := h.getUnacknowledgedCount
  have hunacked' : (getUnacknowledgedCount (multipleSend sock beyond).sendBuf).toNat =
      st.sent + (freshSendLen sock).toNat - st.acked := hsends.sendBuf.getUnacknowledgedCount
  refine ⟨hnone, ?_, ?_, ?_, ?_⟩
  · refine ⟨?_, fun p hp => (multipleSendLoop_isData p hp).isSegment⟩
    rw [hlast, ← hcount, Nat.add_assoc]
    exact hsends.tiles.shift
  · rw [hlast', hlast, hcount, Nat.add_assoc]
  · rw [hunacked', hunacked]
    omega
  · intro fuel hfuel
    exact multipleSendLoop_ends sock beyond _ (by omega) (le_refl _)

theorem segmentsUnacknowledged_of_refines (h : sock.sendBuf.Refines isn st)
    (hw : sock.sendBuf.NoWrap) (beyond : ℕ → UInt8)
    (hunacked : 0 < getUnacknowledgedCount sock.sendBuf) :
    ∃ r, sock.SegmentsUnacknowledged beyond r := by
  have hlast : isn + st.sent < 2 ^ 32 := by
    have := h.sent_lt hw
    omega
  have hcount := h.getUnacknowledgedCount
  have hlen := resendLen_toNat h
  rw [UInt32.lt_iff_toNat_lt, hcount, UInt32.toNat_zero] at hunacked
  obtain ⟨r, hr, hsb, _⟩ := resendUnacknowledged_spec h (h.indicesFit hw) hlast beyond (by omega)
  obtain ⟨htiles, hle⟩ := resendUnacknowledged_tiles h hlast hr
  -- at most what is unacknowledged is sent again, so only the window can be `0`
  have hsame : sock.resendCount = sock.unacknowledgedCount := by
    unfold CmuSocket.resendCount CmuSocket.unacknowledgedCount
    rw [hlen, hcount]
    split
    · omega
    · omega
  refine ⟨r, hr, ⟨?_, fun p hp => (resendUnacknowledged_isData hr p hp).isSegment⟩, ?_, hsb, ?_⟩
  · rw [h.acked, ← hsame, Nat.add_assoc]
    exact htiles.shift
  · rw [h.acked, h.getLastByteSentSeqnum hw, ← hsame]
    omega
  · intro hopen fuel hfuel
    have hne : sock.window.rcvdAdvertisedWindow.toNat ≠ 0 := fun h0 =>
      hopen (UInt16.toNat_inj.mp h0)
    unfold CmuSocket.unacknowledgedCount at hfuel
    rw [if_neg hne, hcount] at hfuel
    have hloop : ¬ resendLen sock = 0 := by
      intro h0
      rw [h0, UInt32.toNat_zero] at hlen
      omega
    -- with an open window the packets are those of the loop
    obtain ⟨_, _, hr⟩ := ok_of_bind_ok hr
    rw [if_neg hloop] at hr
    obtain rfl := Except.ok.inj hr
    exact resendLoop_ends sock beyond _ _ 0 (by omega) (le_refl _)

/-- **Segmentation**: in every state of a run and for every window, `resend_unacknowledged`
    cuts the unacknowledged bytes that fit the window, or the first one, into segments that
    lie end to end in sequence space; and `multiple_send` does so with the fresh bytes that
    fit, if and only if none of its packets starts after the wrap.  Both loops then end by
    their own test. -/
theorem segmentation_iff {type : CmuSocketType} {recvCapacity capacity : UInt32}
    {env : SocketEnv} (hcap : 2 ≤ capacity.toNat) {tr : List (SendRun × SendLabel)}
    {s : SendRun} (h : Run (sendSystem type recvCapacity capacity env) SendRun.NoWrap tr s)
    {sock : CmuSocket} (hsock : sock.sendBuf = s.sock.sendBuf) (beyond : ℕ → UInt8) :
    (0 < getUnacknowledgedCount sock.sendBuf → ∃ r, sock.SegmentsUnacknowledged beyond r) ∧
    (sock.SegmentsFresh beyond ↔ sock.StartsBehind) := by
  obtain ⟨st, href, _⟩ := (SendRun.invariant_of_run hcap h).refines
  have hw : s.sock.sendBuf.NoWrap := h.kept
  rw [← hsock] at href hw
  exact ⟨segmentsUnacknowledged_of_refines href hw beyond, segmentsFresh_iff href hw beyond⟩

end Runs

/-- A ring of four cells: two fresh bytes next to one in flight, and that one again. -/
theorem segmentation_iff_small : ∃ tr s r,
    Run (sendSystem .tcpInitiator 4 4 (.zeroed 100)) SendRun.NoWrap tr s ∧
    s.sock.freshCount = 2 ∧ s.sock.SegmentsFresh (fun _ => 0) ∧
    s.sock.unacknowledgedCount = 1 ∧ s.sock.SegmentsUnacknowledged (fun _ => 0) r := by
  have hinit : Run (sendSystem .tcpInitiator 4 4 (.zeroed 100)) SendRun.NoWrap []
      ⟨_, [], [], 0, []⟩ := .init ⟨_, rfl, rfl⟩ (by decide)
  have hrun := hinit.exec ([.writeCall [1, 2, 3], .writeIteration, .dump 1] :
    List SendLabel) rfl
  obtain ⟨hresend, hfresh⟩ := segmentation_iff (by decide) hrun rfl (fun _ => 0)
  obtain ⟨r, hr⟩ := hresend (by decide)
  refine ⟨_, _, r, hrun, rfl, hfresh.mpr fun j hj => ?_, rfl, hr⟩
  have hj' : 1375 * j < 2 := hj
  obtain rfl : j = 0 := by omega
  decide

/-- Three bytes are sent and acknowledged, and a fourth is written into the first cell of the
    ring: the window is open, and `multiple_send` dies without sending it. -/
theorem segmentation_dies : ∃ tr s,
    Run (sendSystem .tcpInitiator 4 4 (.zeroed 100)) SendRun.NoWrap tr s ∧
    s.sock.freshCount = 1 ∧ (multipleSend s.sock (fun _ => 0)).packets = [] ∧
    (multipleSend s.sock (fun _ => 0)).fault = some .memory ∧
    ¬ s.sock.SegmentsFresh (fun _ => 0) := by
  have hinit : Run (sendSystem .tcpInitiator 4 4 (.zeroed 100)) SendRun.NoWrap []
      ⟨_, [], [], 0, []⟩ := .init ⟨_, rfl, rfl⟩ (by decide)
  have hrun := hinit.exec ([.writeCall [1, 2, 3], .writeIteration, .dump 3, .updateAck 104 0,
    .writeCall [4], .writeIteration] : List SendLabel) rfl
  exact ⟨_, _, hrun, rfl, rfl, rfl, fun hfresh => absurd hfresh.finishes (by decide)⟩

end CmuTcp
