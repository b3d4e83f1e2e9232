import CmuTcp.Connection.Local
import CmuTcp.Connection.Payload
import CmuTcp.Connection.Sending
import CmuTcp.Model.Network
import CmuTcp.Ring.Moved

/-!
# One Endpoint Under Any Packets

What stays true of an endpoint when nothing is known of its peer: the send ring holds a
stream, and the numbers of the receive ring are in order.  It takes two things of the
packets that arrive: none of them acknowledges a byte that has not been sent, and no
payload ends at the greatest sequence number.

No sequence number is assumed not to wrap.  A dump that ends past the greatest one is not
recorded, so what counts as sent, and with it every ack, stays below.

1. The receive ring is in order, or shut for ever because the peer's ISN is the greatest
   number (`RecvBuffer.Steady`); either way a guarded receive fails no assertion.
2. The loop of `multiple_send` sends bytes of the stream wherever the numbers are
   (`multipleSendLoop_sound`), and some of them may then not count as sent (`SendsFresh`).
3. `Endpoint.Sound` joins the two; every step with packets that the endpoint bears keeps it,
   and `Endpoint.Streams` says what the step does to the stream.

Main result: `sound_of_run`, on which the timer and the ack numbers build.
-/

namespace CmuTcp

open FaultSystem Lockstep

/-! ## The receive ring -/

/-- The peer's ISN is the greatest sequence number, and no segment is newer. -/
structure RecvBuffer.Shut (rb : RecvBuffer) : Prop where
  read : rb.lastByteReadSeqnum.toNat = 2 ^ 32 - 1
  empty : recvBufferMaxRead rb = 0

/-- The numbers of the ring and of its segments are in order, or nothing ever arrives. -/
inductive RecvBuffer.Steady (rb : RecvBuffer) : Prop
  | moving (h : rb.Shifted 0 rb)
  | shut (h : rb.Shut)

theorem RecvBuffer.Shut.refuses {rb : RecvBuffer} (h : rb.Shut) (seqnum len : UInt32) :
    recvBufferCanReceive rb seqnum len ≠ 0 := by
  intro hcan
  have hlow := (recvBufferCanReceive_eq_zero_iff.mp hcan).1
  rw [UInt32.lt_iff_toNat_lt, h.read] at hlow
  have := seqnum.toNat_lt
  omega

/-- Right after `recv_buffer_initialize`. -/
theorem RecvBuffer.steady_initialize {capacity isn : UInt32} (hcap : 2 ≤ capacity.toNat)
    (hcap' : capacity.toNat ≤ 2 ^ 31) (mem : Garbage) (fresh : LinkedHeap.Ptr → Segment)
    {rb : RecvBuffer}
    (h : recvBufferInitialize (recvBufferCreate capacity mem fresh) isn = .ok rb) :
    rb.Steady := by
  by_cases hmax : isn.toNat + 1 < 2 ^ 32
  · apply RecvBuffer.Steady.moving
    exact RecvBuffer.Shifted.of_initialize hcap hcap' mem fresh (Carried.self isn) hmax hmax h h
  · obtain rfl := Except.ok.inj h
    have hlt := isn.toNat_lt
    refine .shut ⟨show isn.toNat = _ by omega, ?_⟩
    show (if (1 : UInt32) > 0 then 1 - 0 + isn else _) - isn - 1 = 0
    rw [if_pos (by decide), UInt32.sub_zero, UInt32.add_sub_cancel]
    rfl

/-- A guarded receive does not violate an assert. -/
theorem RecvBuffer.Steady.receivePayload {rb : RecvBuffer} (h : rb.Steady)
    {seqnum len : UInt32} (hend : recvBufferCanReceive rb seqnum len = 0 → seqnum + len ≠ 0)
    (data : List UInt8) : FailsOnly (· = .memory) (receivePayload rb seqnum len data) ∧
      ∀ r, CmuTcp.receivePayload rb seqnum len data = .ok r → r.Steady := by
  cases h with
  | shut h =>
    rw [receivePayload_refused (h.refuses seqnum len)]
    exact ⟨.ok rb, fun r hr => Except.ok.inj hr ▸ .shut h⟩
  | moving h =>
    have hlast : recvBufferCanReceive rb seqnum len = 0 →
        (seqnum + len - 1).toNat + 1 < 2 ^ 32 := by
      intro hcan
      have hne : (seqnum + len).toNat ≠ 0 := fun h0 => hend hcan (UInt32.toNat_inj.mp h0)
      have hlt := (seqnum + len).toNat_lt
      rw [UInt32.toNat_sub, UInt32.toNat_one]
      omega
    have hself := h.receivePayload (Carried.self seqnum) (fun _ => Carried.self _)
      (fun hcan => ⟨hlast hcan, hlast hcan⟩) data
    exact ⟨hself.failsOnly, fun r hr => .moving (hself.of_ok hr)⟩

theorem RecvBuffer.Steady.recvBufferRead {rb r : RecvBuffer} (h : rb.Steady) {len : UInt32}
    {data : List UInt8} (hread : recvBufferRead rb len = .ok (data, r)) : r.Steady := by
  cases h with
  | shut h =>
    unfold CmuTcp.recvBufferRead at hread
    obtain ⟨_, hassert, hret⟩ := ok_of_bind_ok hread
    by_cases hlen : len = 0
    · rw [if_pos hlen] at hret
      obtain ⟨_, rfl⟩ := Prod.mk.inj (Except.ok.inj hret)
      exact .shut h
    · -- there is nothing to read
      rw [h.empty, cAssert, if_neg (fun hle => hlen (UInt32.le_zero_iff.mp hle))] at hassert
      exact absurd hassert (by simp)
  | moving h => exact .moving ((h.recvBufferRead len).of_ok hread).2

theorem RecvBuffer.Steady.cmuRead {sock : CmuSocket} (h : sock.recvBuf.Steady)
    {length count : Int} {flags : CmuReadMode} {data : List UInt8} {rb : RecvBuffer}
    (hread : cmuRead sock length flags = .ok (count, data, { sock with recvBuf := rb })) :
    rb.Steady := by
  have hsame : ∀ {n : Int} {d : List UInt8},
      (.ok (n, d, sock) : Except Fault (Int × List UInt8 × CmuSocket)) =
        .ok (count, data, { sock with recvBuf := rb }) → rb.Steady := by
    intro n d heq
    obtain ⟨_, hret⟩ := Prod.mk.inj (Except.ok.inj heq)
    have hrb : sock.recvBuf = rb := congrArg CmuSocket.recvBuf (Prod.mk.inj hret).2
    exact hrb ▸ h
  unfold CmuTcp.cmuRead at hread
  split at hread
  · exact hsame hread
  · split at hread
    · exact hsame hread
    · unfold cmuReadAvailable at hread
      dsimp only at hread
      split at hread
      · obtain ⟨⟨_, r⟩, hr, hret⟩ := ok_of_bind_ok hread
        obtain ⟨_, hret⟩ := Prod.mk.inj (Except.ok.inj hret)
        have hrb : r = rb := congrArg CmuSocket.recvBuf (Prod.mk.inj hret).2
        exact hrb ▸ h.recvBufferRead hr
      · exact hsame hread

/-! ## The send ring -/

/-- Packets with bytes of the stream after `isn` from behind `lo` up to `top`, among them
    all bytes up to `hi`. -/
structure SendsFresh (packets : List Packet) (isn lo hi top : ℕ) : Prop where
  le : lo ≤ hi
  after : ∀ p ∈ packets, ∃ k, lo < k ∧ p.header.seqNum.toNat = (isn + k) % 2 ^ 32 ∧
    k + (getPayloadLen p).toNat ≤ top + 1
  covers : ∀ k q, lo < k → k ≤ hi → q.toNat = isn + k → ∃ p ∈ packets, p.Covers q

theorem SendsFresh.nil (isn lo top : ℕ) : SendsFresh [] isn lo lo top :=
  ⟨le_refl _, by simp, fun _ _ hlo hhi _ => absurd hlo (Nat.not_lt.mpr hhi)⟩

/-- One packet more in front, with the bytes behind `lo` up to `mid` if they count as sent. -/
theorem SendsFresh.cons {p : Packet} {packets : List Packet} {isn lo mid hi top : ℕ}
    (hle : lo ≤ mid) (hseq : p.header.seqNum.toNat = (isn + (lo + 1)) % 2 ^ 32)
    (htop : lo + (getPayloadLen p).toNat ≤ top)
    (hmid : ∀ k q, lo < k → k ≤ mid → q.toNat = isn + k → p.Covers q)
    (h : SendsFresh packets isn mid hi top) : SendsFresh (p :: packets) isn lo hi top := by
  refine ⟨le_trans hle h.le, fun q hq => ?_, fun k q hlo hhi hq => ?_⟩
  · rcases List.mem_cons.mp hq with rfl | hq
    · exact ⟨lo + 1, Nat.lt_succ_self lo, hseq, by omega⟩
    · obtain ⟨k, hk, hrest⟩ := h.after q hq
      exact ⟨k, lt_of_le_of_lt hle hk, hrest⟩
  · rcases Nat.lt_or_ge mid k with hgt | hle'
    · obtain ⟨p', hp', hcovers⟩ := h.covers k q hgt hhi hq
      exact ⟨p', List.mem_cons_of_mem p hp', hcovers⟩
    · exact ⟨p, List.mem_cons_self, hmid k q hlo hle' hq⟩

/-- The loop of `multiple_send`, wherever the sequence numbers are. -/
theorem multipleSendLoop_sound (sock : CmuSocket) (beyond : ℕ → UInt8) (fuel : ℕ) {isn : ℕ}
    {sb : SendBuffer} {st : SendStream UInt8} {target : UInt32} (h : sb.Refines isn st)
    (hcap : st.capacity ≤ 2 ^ 31) (hlast : isn + st.sent < 2 ^ 32)
    (hle : st.sent + target.toNat ≤ st.written.length) :
    ∃ st', (multipleSendLoop sock beyond fuel sb target).sendBuf.Refines isn st' ∧
      st'.capacity = st.capacity ∧ st'.acked = st.acked ∧ st'.written = st.written ∧
      isn + st'.sent < 2 ^ 32 ∧
      SendsFresh (multipleSendLoop sock beyond fuel sb target).packets isn st.sent st'.sent
        st.written.length := by
  induction fuel generalizing sb st target with
  | zero => exact ⟨st, h, rfl, rfl, rfl, hlast, .nil ..⟩
  | succ fuel ih =>
    by_cases hpos : target > 0
    -- the packet starts at the number after the last byte sent, modulo `2 ^ 32`
    · have hpos' : 0 < target.toNat := target_pos_iff.mp hpos
      have hchunk := toNat_chunkLen target
      have hrest := sub_chunkLen_toNat target
      have hseq : (getLastByteSentSeqnum sb + 1).toNat = (isn + (st.sent + 1)) % 2 ^ 32 := by
        rw [UInt32.toNat_add, UInt32.toNat_one, h.getLastByteSentSeqnum_mod, ← Nat.add_assoc,
          Nat.mod_add_mod]
      have hfits : st.sent + (chunkLen target).toUInt32.toNat ≤ st.written.length := by omega
      -- the dump moves the index, unless its last number has wrapped around
      have hcases := h.dumpIndex_cases (h.indicesFit_of_capacity_le hcap) hlast rfl (by omega)
        hfits
      obtain ⟨f, _, heq⟩ | ⟨_, p, _, _, hpseq, hplen, _, heq⟩ :=
        multipleSendLoop_succ sock beyond fuel sb hpos
      · -- the copy has faulted
        rw [heq]
        exact ⟨st, h, rfl, rfl, rfl, hlast, .nil ..⟩
      rw [heq]
      have hpseq' : p.header.seqNum.toNat = (isn + (st.sent + 1)) % 2 ^ 32 := hpseq ▸ hseq
      have hplen' : (getPayloadLen p).toNat = (chunkLen target).toUInt32.toNat := by
        rw [hplen, UInt16.toNat_toUInt32]
      split at hcases
      · -- the dump is recorded
        rename_i hnowrap
        obtain ⟨st', href, hcap', hacked, hwritten, hlast', hsends⟩ := ih hcases hcap
          (by rwa [SendStream.dump, ← Nat.add_assoc])
          (show (st.dump _ _).sent + (target - (chunkLen target).toUInt32).toNat ≤ _ by
            simp only [SendStream.dump, hrest]
            omega)
        refine ⟨st', href, hcap', hacked, hwritten, hlast', ?_⟩
        refine .cons (Nat.le_add_right _ _) hpseq' (by omega) (fun k q hlo hhi hq => ?_) hsends
        show (q - p.header.seqNum).toNat < (getPayloadLen p).toNat
        rw [UInt32.toNat_sub, hpseq', hplen', hq]
        have hmid : k ≤ st.sent + (chunkLen target).toUInt32.toNat := hhi
        omega
      · -- it ends past the greatest sequence number
        rw [hcases]
        obtain ⟨st', href, hcap', hacked, hwritten, hlast', hsends⟩ := ih h hcap hlast
          (show st.sent + (target - (chunkLen target).toUInt32).toNat ≤ _ by omega)
        refine ⟨st', href, hcap', hacked, hwritten, hlast', ?_⟩
        exact .cons (le_refl _) hpseq' (by omega)
          (fun k q hlo hhi _ => absurd hlo (Nat.not_lt.mpr hhi)) hsends
    · simp only [multipleSendLoop, if_neg hpos]
      exact ⟨st, h, rfl, rfl, rfl, hlast, .nil ..⟩

/-! ## Endpoints -/

/-- A payload that can be received does not end at the greatest sequence number. -/
def CmuSocket.PayloadFits (sock : CmuSocket) (p : Packet) : Prop :=
  getPayloadLen p ≠ 0 → recvBufferCanReceive sock.recvBuf p.header.seqNum
    (getPayloadLen p).toUInt32 = 0 → p.header.seqNum + (getPayloadLen p).toUInt32 ≠ 0

/-- A packet that the endpoint bears: it acknowledges no byte that has not been sent, and
    its payload fits. -/
structure CmuSocket.Bears (sock : CmuSocket) (p : Packet) : Prop where
  ack : p.header.ackNum - 1 ≤ getLastByteSentSeqnum sock.sendBuf
  payload : sock.PayloadFits p

instance (sock : CmuSocket) (p : Packet) : Decidable (sock.PayloadFits p) :=
  inferInstanceAs (Decidable (_ → _ → _))

instance (sock : CmuSocket) (p : Packet) : Decidable (sock.Bears p) :=
  decidable_of_iff (_ ∧ _) ⟨fun h => ⟨h.1, h.2⟩, fun h => ⟨h.ack, h.payload⟩⟩

/-- The condition of a step: a packet that is looked at is one that the endpoint bears. -/
def Endpoint.Bears (e : Endpoint) : Event → Prop
  | .receive _ _ p => p.hasFlag finFlagMask = false → e.sock.Bears p
  | _ => True

instance (e : Endpoint) : DecidablePred e.Bears
  | .receive _ _ _ => inferInstanceAs (Decidable (_ → _))
  | .backend _ _ => isTrue trivial
  | .writeCall _ => isTrue trivial
  | .write => isTrue trivial
  | .read _ _ => isTrue trivial
  | .close => isTrue trivial

/-- An endpoint in its loop, whose send ring holds the stream `st`. -/
structure Endpoint.Sound (e : Endpoint) (isn : ℕ) (st : SendStream UInt8) : Prop where
  loop : e.InLoop
  pending : e.pending.length < 2 ^ 31
  sendBuf : e.sock.sendBuf.Refines isn st
  capacity : st.capacity ≤ 2 ^ 31
  sent : isn + st.sent < 2 ^ 32
  lastAck : e.sock.window.lastAckReceived - 1 ≤ e.sock.sendBuf.lastByteAckedSeqnum
  recvBuf : e.sock.recvBuf.Steady

/-- How the stream of an endpoint changes, but for what is sent. -/
structure SendStream.Grows (st st' : SendStream UInt8) : Prop where
  capacity : st'.capacity = st.capacity
  acked : st.acked ≤ st'.acked

/-- What a step does to what counts as sent, and the packets it transmits. -/
inductive Endpoint.Streams (e : Endpoint) (isn : ℕ) (st st' : SendStream UInt8) :
    Event → List Packet → Prop
  | resend {now : Int} {beyond : ℕ → UInt8} {sent : Sent} (hpc : e.pc = .transmit)
      (hdue : resendDue e.sock now = true)
      (hsent : resendUnacknowledged e.sock beyond = .ok sent) (hst : st' = st) :
      Streams e isn st st' (.backend now beyond) sent.packets
  | fresh {now : Int} {beyond : ℕ → UInt8} {packets : List Packet} (hpc : e.pc = .transmit)
      (hdue : ¬ resendDue e.sock now = true) (hacked : st'.acked = st.acked)
      (hsends : SendsFresh packets isn st.sent st'.sent st.written.length) :
      Streams e isn st st' (.backend now beyond) packets
  | other {ev : Event} {packets : List Packet}
      (hev : ∀ now beyond, ev = .backend now beyond → e.pc ≠ .transmit)
      (hsent : st'.sent = st.sent) : Streams e isn st st' ev packets

theorem SendStream.Grows.refl (st : SendStream UInt8) : st.Grows st := ⟨rfl, le_refl _⟩

namespace Endpoint.Sound

variable {e : Endpoint} {isn : ℕ} {st : SendStream UInt8} {now : Int}

theorem indicesFit (h : e.Sound isn st) : e.sock.sendBuf.IndicesFit :=
  h.sendBuf.indicesFit_of_capacity_le h.capacity

theorem lastSent (h : e.Sound isn st) :
    (getLastByteSentSeqnum e.sock.sendBuf).toNat = isn + st.sent := by
  rw [h.sendBuf.getLastByteSentSeqnum_mod, Nat.mod_eq_of_lt h.sent]

/-- The ack update, for an ack of bytes that have been sent. -/
theorem handleAck (h : e.Sound isn st) {acknum : UInt32}
    (hack : acknum - 1 ≤ getLastByteSentSeqnum e.sock.sendBuf) {sock : CmuSocket}
    (hok : handleAck e.sock acknum now = .ok sock) :
    ∃ st', sock.sendBuf.Refines isn st' ∧ st.Grows st' ∧ st'.sent = st.sent ∧
      sock.window.lastAckReceived - 1 ≤ sock.sendBuf.lastByteAckedSeqnum := by
  have hlast := h.lastAck
  rw [UInt32.le_iff_toNat_le, h.lastSent] at hack
  rcases handleAck_eq_ok hok with ⟨_, rfl⟩ | ⟨sb, hupdate, rfl⟩
  · exact ⟨st, h.sendBuf, .refl st, rfl, hlast⟩
  · obtain ⟨href, _⟩ := h.sendBuf.sendBufferUpdateAck_ok h.indicesFit hack hupdate
    refine ⟨_, href, ⟨rfl, le_max_left _ _⟩, rfl, ?_⟩
    rw [UInt32.le_iff_toNat_le, h.sendBuf.acked] at hlast
    show cMax e.sock.window.lastAckReceived acknum - 1 ≤ sb.lastByteAckedSeqnum
    rw [UInt32.le_iff_toNat_le, href.acked]
    show _ ≤ isn + max st.acked ((acknum - 1).toNat - isn)
    unfold cMax
    split
    · omega
    · omega

/-- A packet that the endpoint bears. -/
theorem receive (h : e.Sound isn st) {source : SockAddr} {p : Packet} {sock : CmuSocket}
    {replies : List Packet} (hbears : p.hasFlag finFlagMask = false → e.sock.Bears p)
    (hmsg : handleMessage (e.sock.heardFrom source) p now = .ok (sock, replies)) :
    ∃ st', Endpoint.Sound { e with
      sock := sock, pc := .transmit, acksHandled := e.acksHandled ++ [p.header.ackNum] } isn st' ∧
      st.Grows st' ∧ st'.sent = st.sent := by
  have hloop : ∀ acks, Endpoint.InLoop { e with
      sock := sock, pc := .transmit, acksHandled := acks } := fun _ => ⟨by simp, by simp⟩
  -- a FIN is not looked at
  rcases handleMessage_ok hmsg with ⟨_, rfl⟩ | ⟨hfin, hhandles⟩
  · exact ⟨st, ⟨hloop _, h.pending, h.sendBuf, h.capacity, h.sent, h.lastAck, h.recvBuf⟩,
      .refl st, rfl⟩
  · obtain ⟨sock₁, hack, hsb, hlast⟩ := hhandles.ack
    have hsound : Endpoint.Sound { e with sock := e.sock.heardFrom source } isn st :=
      ⟨⟨h.loop.notEntry, h.loop.notHandshake⟩, h.pending, h.sendBuf, h.capacity, h.sent, h.lastAck,
        h.recvBuf⟩
    -- the ack is of bytes that have been sent
    obtain ⟨st', href, hgrows, hsent, hlast'⟩ := hsound.handleAck (hbears hfin).ack hack
    refine ⟨st', ⟨hloop _, h.pending, hsb ▸ href, hgrows.capacity ▸ h.capacity, hsent ▸ h.sent,
      ?_, ?_⟩, hgrows, hsent⟩
    -- the copy of the ack state does not get ahead of the send buffer
    · show sock.window.lastAckReceived - 1 ≤ sock.sendBuf.lastByteAckedSeqnum
      rw [hlast, hsb]
      exact hlast'
    -- the receive ring takes in the payload, if it has been looked at
    · show sock.recvBuf.Steady
      rcases hhandles.data with hsame | ⟨hlen, hrb⟩
      · rw [hsame]
        exact h.recvBuf
      · exact (h.recvBuf.receivePayload ((hbears hfin).payload hlen) _).2 _ hrb

/-- The sending part of an iteration. -/
theorem transmit (h : e.Sound isn st) {beyond : ℕ → UInt8} {sent : Sent}
    (hpc : e.pc = .transmit) (hsent : transmit e.sock now beyond = .ok sent) :
    ∃ st', Endpoint.Sound { e with
      sock := { e.sock with sendBuf := sent.sendBuf }
      pc := sent.pc
      strayed := e.strayed || !sent.inBounds } isn st' ∧ st.Grows st' ∧
      e.Streams isn st st' (.backend now beyond) sent.packets := by
  have hloop : ∀ sb strayed, Endpoint.InLoop { e with
      sock := { e.sock with sendBuf := sb }, pc := sent.pc, strayed := strayed } :=
    fun _ _ => ⟨sent.pc_ne.1, sent.pc_ne.2.1⟩
  unfold CmuTcp.transmit at hsent
  -- a retransmission leaves the send buffer as it is
  split at hsent
  · rename_i hdue
    have hsb := resendUnacknowledged_sendBuf hsent
    refine ⟨st, ⟨hloop _ _, h.pending, ?_, h.capacity, h.sent, ?_, h.recvBuf⟩, .refl st,
      .resend hpc hdue hsent rfl⟩
    · show sent.sendBuf.Refines isn st
      rw [hsb]
      exact h.sendBuf
    · show e.sock.window.lastAckReceived - 1 ≤ sent.sendBuf.lastByteAckedSeqnum
      rw [hsb]
      exact h.lastAck
  -- fresh data is dumped, and nothing is acknowledged by it
  · rename_i hdue
    obtain rfl := Except.ok.inj hsent
    have hfresh := freshSendLen_toNat e.sock
    rw [h.sendBuf.sendBufferMaxNewDump] at hfresh
    have hle := st.sent_le_written
    have hfits : st.sent + (freshSendLen e.sock).toNat ≤ st.written.length := by omega
    obtain ⟨st', href, hcap, hacked, _, hlast, hsends⟩ := multipleSendLoop_sound e.sock beyond
      (freshSendLen e.sock).toNat h.sendBuf h.capacity h.sent hfits
    refine ⟨st', ⟨hloop _ _, h.pending, href, hcap ▸ h.capacity, hlast, ?_, h.recvBuf⟩,
      ⟨hcap, hacked.ge⟩, .fresh hpc hdue hacked hsends⟩
    have hlast := h.lastAck
    rw [UInt32.le_iff_toNat_le, h.sendBuf.acked] at hlast
    show e.sock.window.lastAckReceived - 1 ≤
      (multipleSend e.sock beyond).sendBuf.lastByteAckedSeqnum
    rw [UInt32.le_iff_toNat_le, multipleSend, href.acked, hacked]
    exact hlast

/-- **Every step** that the endpoint bears. -/
theorem step (h : e.Sound isn st) {ev : Event} {e' : Endpoint} {packets : List Packet}
    (hbears : e.Bears ev) (hact : e.LoopAct ev e' packets) :
    ∃ st', e'.Sound isn st' ∧ st.Grows st' ∧ e.Streams isn st st' ev packets := by
  -- only the sending part and an ack do something to what counts as sent
  cases hact with
  | advance hpc hentry hhandshake _ _ =>
    exact ⟨st, ⟨⟨hentry, hhandshake⟩, h.pending, h.sendBuf, h.capacity, h.sent, h.lastAck,
      h.recvBuf⟩, .refl st, .other (fun _ _ _ => hpc) rfl⟩
  | transmit hpc hsent =>
    obtain ⟨st', hsound, hgrows, hstreams⟩ := h.transmit hpc hsent
    exact ⟨st', hsound, hgrows, hstreams⟩
  | receive _ hmsg =>
    obtain ⟨st', hsound, hgrows, hsent⟩ := h.receive hbears hmsg
    exact ⟨st', hsound, hgrows, .other (by simp) hsent⟩
  | writeCall _ _ hlen =>
    exact ⟨st, ⟨⟨h.loop.notEntry, h.loop.notHandshake⟩, hlen, h.sendBuf, h.capacity, h.sent,
      h.lastAck, h.recvBuf⟩, .refl st, .other (by simp) rfl⟩
  -- `cmu_write` makes the stream longer
  | write _ _ hwrite =>
    obtain ⟨n, sb', hn, _, hwrite', href, hacked, _⟩ := cmuWriteIteration_refines h.sendBuf
      h.indicesFit (lt_trans h.pending (by decide))
    obtain ⟨hrest, hsock⟩ := Prod.mk.inj (Except.ok.inj (hwrite.symm.trans hwrite'))
    obtain rfl := congrArg CmuSocket.sendBuf hsock
    refine ⟨_, ⟨⟨h.loop.notEntry, h.loop.notHandshake⟩, ?_, href, h.capacity, h.sent, ?_,
      h.recvBuf⟩, ⟨rfl, le_refl _⟩, .other (by simp) rfl⟩
    · rw [hrest, List.length_drop]
      exact lt_of_le_of_lt (Nat.sub_le _ _) h.pending
    · show e.sock.window.lastAckReceived - 1 ≤ SendBuffer.lastByteAckedSeqnum _
      rw [hacked]
      exact h.lastAck
  | read hread =>
    exact ⟨st, ⟨⟨h.loop.notEntry, h.loop.notHandshake⟩, h.pending, h.sendBuf, h.capacity, h.sent,
      h.lastAck, h.recvBuf.cmuRead hread⟩, .refl st, .other (by simp) rfl⟩
  | close _ =>
    exact ⟨st, ⟨⟨h.loop.notEntry, h.loop.notHandshake⟩, h.pending, h.sendBuf, h.capacity, h.sent,
      h.lastAck, h.recvBuf⟩, .refl st, .other (by simp) rfl⟩

end Endpoint.Sound

/-! ## Runs -/

section Runs

variable {cfg : Config} {x : Side}

/-- An endpoint right after the handshake. -/
theorem Config.established_sound (hsend : 2 ≤ (cfg.sendCapacity x).toNat)
    (hsend' : (cfg.sendCapacity x).toNat ≤ 2 ^ 31) (hrecv : 2 ≤ (cfg.recvCapacity x).toNat)
    (hrecv' : (cfg.recvCapacity x).toNat ≤ 2 ^ 31) :
    (cfg.established.ep x).Sound (cfg.isn x).toNat
      (.empty (cfg.sendCapacity x).toNat (by omega)) := by
  obtain ⟨sb, hsb, href, _⟩ := refines_initialize (cfg.sendCapacity x) (cfg.env x).sendMem
    (cfg.isn x) (cfg.env x).now hsend
  obtain rfl := Except.ok.inj hsb
  refine ⟨⟨by simp [Config.established], by simp [Config.established]⟩, Nat.two_pow_pos 31, href,
    hsend', (cfg.isn x).toNat_lt, ?_, ?_⟩
  · show cfg.isn x + 1 - 1 ≤ cfg.isn x
    rw [UInt32.add_sub_cancel]
    exact UInt32.le_refl _
  · exact RecvBuffer.steady_initialize hrecv hrecv' _ _ (recvBufferInitialize_eq cfg x)

/-- **Along every run** whose packets the endpoint bears. -/
theorem sound_of_run (hsend : 2 ≤ (cfg.sendCapacity x).toNat)
    (hsend' : (cfg.sendCapacity x).toNat ≤ 2 ^ 31) (hrecv : 2 ≤ (cfg.recvCapacity x).toNat)
    (hrecv' : (cfg.recvCapacity x).toNat ≤ 2 ^ 31) {tr : List (Endpoint × Event)} {e : Endpoint}
    (h : Run (loneSystem cfg x) (fun _ => True) tr e) (hbears : ∀ p ∈ tr, p.1.Bears p.2) :
    ∃ st, e.Sound (cfg.isn x).toNat st := by
  apply h.invariant_of_steps (I := fun e => ∃ st, e.Sound (cfg.isn x).toNat st) _ _ hbears
  · rintro e rfl _
    exact ⟨_, Config.established_sound hsend hsend' hrecv hrecv'⟩
  · rintro e ev e' ⟨st, hsound⟩ _ _ hbears hstep
    obtain ⟨r, hr, hret⟩ := Option.map_eq_some_iff.mp hstep
    obtain ⟨⟨_, packets⟩, rfl, rfl⟩ := ok_of_map_ok hret
    obtain ⟨st', hsound', _⟩ := hsound.step hbears (hsound.loop.act hr)
    exact ⟨st', hsound'⟩

end Runs

end CmuTcp
