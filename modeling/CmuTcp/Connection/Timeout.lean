import CmuTcp.Connection.Segmentation
import CmuTcp.Connection.Sound

/-!
# The Retransmission Timer

The loop of `begin_backend` retransmits when the last new ack is more than
`DEFAULT_TIMEOUT` back and something is unacknowledged.  The time of the last new ack is
the only timestamp: no transmission sets it, neither of fresh data nor by
`resend_unacknowledged`.

This module says exactly which retransmissions come too early.  The bytes that a
retransmission covers may have been sent in many packets at many times; it turns out that
two of these times decide, that of the previous retransmission and that of the last byte.

1. The packets of one transmission lie one behind the other, so each byte is in one of them.
2. A record of all transmissions goes along with the endpoint.  `TimedEndpoint.Recorded`
   says what it contains: the bytes behind those of a fresh packet were sent at the same time
   or later, and a retransmission is older than the last new ack or has the first byte
   unacknowledged.
3. So the bytes of the next retransmission were last sent at the time of the previous one,
   or for the first time, and the last of them latest (`TimedEndpoint.Recorded.waited_iff`).

Main result: `no_premature_retransmission_iff`.
-/

namespace CmuTcp

open FaultSystem

/-! ## Packets in a row -/

theorem Packet.Carries.covers_iff {p : Packet} {isn k n : ℕ} (h : p.Carries isn k n)
    (hlt : isn + k + n ≤ 2 ^ 32) (q : UInt32) :
    p.Covers q ↔ isn + k ≤ q.toNat ∧ q.toNat < isn + k + n := by
  unfold Packet.Covers
  have := q.toNat_lt
  rw [h.len, UInt32.toNat_sub, h.seq]
  omega

section Tiles

variable {isn lo hi : ℕ} {packets : List Packet}

/-- No packet has a byte outside. -/
theorem Tiles.within (h : Tiles isn packets lo hi) (hlt : isn + hi < 2 ^ 32) {p : Packet}
    (hp : p ∈ packets) {q : UInt32} (hq : p.Covers q) :
    isn + lo < q.toNat ∧ q.toNat ≤ isn + hi := by
  induction h with
  | nil lo => exact absurd hp List.not_mem_nil
  | @cons p' packets lo n hi hcar hrest ih =>
    have hle := hrest.le
    rcases List.mem_cons.mp hp with rfl | hp
    · have hbounds := (hcar.covers_iff (by omega) q).mp hq
      omega
    · have hbounds := ih hlt hp
      omega

/-- Every byte is in a packet. -/
theorem Tiles.covers (h : Tiles isn packets lo hi) (hlt : isn + hi < 2 ^ 32) {q : UInt32}
    (hlo : isn + lo < q.toNat) (hhi : q.toNat ≤ isn + hi) : ∃ p ∈ packets, p.Covers q := by
  induction h with
  | nil lo => omega
  | @cons p packets lo n hi hcar hrest ih =>
    have hle := hrest.le
    by_cases hfirst : q.toNat ≤ isn + (lo + n)
    · refine ⟨p, List.mem_cons_self, (hcar.covers_iff (by omega) q).mpr ?_⟩
      omega
    · obtain ⟨p', hp', hcovers⟩ := ih hlt (by omega) hhi
      exact ⟨p', List.mem_cons_of_mem p hp', hcovers⟩

/-- No byte is in two packets. -/
theorem Tiles.disjoint (h : Tiles isn packets lo hi) (hlt : isn + hi < 2 ^ 32) :
    packets.Pairwise fun p p' => ∀ q, p.Covers q → ¬ p'.Covers q := by
  induction h with
  | nil lo => exact .nil
  | @cons p packets lo n hi hcar hrest ih =>
    have hle := hrest.le
    refine .cons (fun p' hp' q hq hq' => ?_) (ih hlt)
    have hfirst := (hcar.covers_iff (by omega) q).mp hq
    have hsecond := hrest.within hlt hp' hq'
    omega

end Tiles

/-! ## What sets the timer -/

/-- A new ack sets the timer. -/
theorem handleAck_timer {sock sock' : CmuSocket} {acknum : UInt32} {now : Int}
    (h : handleAck sock acknum now = .ok sock') :
    sock.sendBuf.SameAcked sock'.sendBuf ∨ sock'.sendBuf.lastByteAckedTs = now := by
  rcases handleAck_eq_ok h with ⟨_, rfl⟩ | ⟨sb, hupdate, rfl⟩
  · exact Or.inl (.refl _)
  · rcases sendBufferUpdateAck_eq_ok hupdate with ⟨_, idx, _, rfl⟩ | ⟨_, rfl⟩
    · exact Or.inr rfl
    · exact Or.inl (.refl _)

/-- Nothing else does. -/
theorem Endpoint.LoopAct.timer {e e' : Endpoint} {ev : Event} {packets : List Packet}
    (h : e.LoopAct ev e' packets) : e.sock.sendBuf.SameAcked e'.sock.sendBuf ∨
      ev.time = some e'.sock.sendBuf.lastByteAckedTs := by
  cases h with
  | advance _ _ _ _ _ => exact Or.inl (.refl _)
  | transmit _ hsent => exact Or.inl (transmit_sameAcked hsent)
  | @receive now source p sock replies _ hmsg =>
    rcases handleMessage_ok hmsg with ⟨_, rfl⟩ | ⟨_, hhandles⟩
    · exact Or.inl (.refl _)
    · obtain ⟨sock₁, hack, hsb, _⟩ := hhandles.ack
      show e.sock.sendBuf.SameAcked sock.sendBuf ∨ some now = some sock.sendBuf.lastByteAckedTs
      rw [hsb]
      exact (handleAck_timer hack).imp id fun hnow => congrArg some hnow.symm
  | writeCall _ _ _ => exact Or.inl (.refl _)
  | write _ _ hwrite => exact Or.inl (cmuWriteIteration_sameAcked hwrite)
  | read _ => exact Or.inl (.refl _)
  | close _ => exact Or.inl (.refl _)

/-! ## The record -/

/-- More than `DEFAULT_TIMEOUT` lies between a retransmission and the transmissions of its
    bytes before it. -/
def Transmission.Spaced (t u : Transmission) : Prop :=
  u.resent = true → ∀ q, t.packet.Covers q → u.packet.Covers q →
    t.time + defaultTimeout < u.time

/-- No retransmission of the record came too early. -/
def TimedEndpoint.Spaced (s : TimedEndpoint) : Prop :=
  s.sent.Pairwise Transmission.Spaced

/-- The last byte that a retransmission covers. -/
def CmuSocket.lastResentSeqnum (sock : CmuSocket) : UInt32 :=
  sock.sendBuf.lastByteAckedSeqnum + max 1 (resendLen sock)

/-- The previous retransmission, and the first transmission of the last byte that the next
    one covers, are more than `DEFAULT_TIMEOUT` back. -/
structure TimedEndpoint.Waited (s : TimedEndpoint) (now : Int) : Prop where
  resent : ∀ t ∈ s.sent, t.resent = true → t.time + defaultTimeout < now
  fresh : ∀ t ∈ s.sent, t.resent = false → t.packet.Covers s.ep.sock.lastResentSeqnum →
    t.time + defaultTimeout < now

instance (s : TimedEndpoint) (now : Int) : Decidable (s.Waited now) :=
  decidable_of_iff (_ ∧ _) ⟨fun h => ⟨h.1, h.2⟩, fun h => ⟨h.resent, h.fresh⟩⟩

/-- The condition of a step. -/
def TimedEndpoint.Waits (s : TimedEndpoint) : Event → Prop
  | .backend now _ => s.ep.pc = .transmit → resendDue s.ep.sock now = true → s.Waited now
  | _ => True

instance (s : TimedEndpoint) : DecidablePred s.Waits
  | .backend _ _ => inferInstanceAs (Decidable (_ → _ → _))
  | .receive _ _ _ => isTrue trivial
  | .writeCall _ => isTrue trivial
  | .write => isTrue trivial
  | .read _ _ => isTrue trivial
  | .close => isTrue trivial

/-- The byte at position `j` has been sent for the first time by a packet of the record, at
    `time` or later. -/
def TimedEndpoint.SentSince (s : TimedEndpoint) (isn j : ℕ) (time : Int) : Prop :=
  ∀ q : UInt32, q.toNat = isn + j →
    ∃ t ∈ s.sent, t.resent = false ∧ t.packet.Covers q ∧ time ≤ t.time

/-- What the record says about the stream of the endpoint. -/
structure TimedEndpoint.Recorded (s : TimedEndpoint) (isn : ℕ) (st : SendStream UInt8) :
    Prop where
  sound : s.ep.Sound isn st
  times : ∀ t ∈ s.sent, t.time ≤ s.clock
  -- the bytes behind those of a packet of fresh data were sent at the same time or later
  fresh : ∀ t ∈ s.sent, t.resent = false → ∃ k,
    t.packet.header.seqNum.toNat = (isn + k) % 2 ^ 32 ∧
    k + (getPayloadLen t.packet).toNat ≤ st.acked + st.capacity ∧
    ∀ j, k ≤ j → j ≤ st.sent → s.SentSince isn j t.time
  -- a retransmission before the last new ack, or one of the first byte unacknowledged
  resent : ∀ t ∈ s.sent, t.resent = true →
    t.time ≤ s.ep.sock.sendBuf.lastByteAckedTs ∨ ∃ u ∈ s.sent, u.time = t.time ∧
      u.packet.Covers (s.ep.sock.sendBuf.lastByteAckedSeqnum + 1)

section Record

variable {s s' : TimedEndpoint} {isn : ℕ} {st : SendStream UInt8} {ev : Event}

theorem TimedEndpoint.SentSince.mono {j : ℕ} {time time' : Int} (h : s.SentSince isn j time)
    (hsent : ∀ t ∈ s.sent, t ∈ s'.sent) (htime : time' ≤ time) : s'.SentSince isn j time' := by
  intro q hq
  obtain ⟨t, ht, hfresh, hcovers, hle⟩ := h q hq
  exact ⟨t, hsent t ht, hfresh, hcovers, le_trans htime hle⟩

theorem CmuSocket.lastResentSeqnum_toNat {sock : CmuSocket} (h : sock.sendBuf.Refines isn st)
    (hlast : isn + st.sent < 2 ^ 32) (hle : st.acked + sock.resendCount ≤ st.sent) :
    sock.lastResentSeqnum.toNat = isn + (st.acked + sock.resendCount) := by
  unfold CmuSocket.lastResentSeqnum CmuSocket.resendCount at *
  rw [UInt32.toNat_add, toNat_max, UInt32.toNat_one, h.acked]
  omega

/-- What a step adds to the record. -/
theorem TimedEndpoint.step_ok (hstep : s.step ev = some (.ok s')) :
    ∃ packets, s.ep.act ev = some (.ok (s'.ep, packets)) ∧
      s'.sent = s.sent ++ s.ep.transmissions packets ev ∧ s.clock ≤ s'.clock ∧
      ∀ now ∈ ev.time, s'.clock = now := by
  unfold TimedEndpoint.step at hstep
  split at hstep
  · rename_i hclock
    obtain ⟨r, hr, hret⟩ := Option.map_eq_some_iff.mp hstep
    obtain ⟨⟨e, packets⟩, rfl, rfl⟩ := ok_of_map_ok hret
    refine ⟨packets, hr, rfl, ?_, ?_⟩
    · show s.clock ≤ ev.time.getD s.clock
      cases htime : ev.time with
      | none => exact le_refl _
      | some now => exact hclock now htime
    · intro now hnow
      show ev.time.getD s.clock = now
      rw [Option.mem_def.mp hnow]
      rfl
  · exact absurd hstep (by simp)

/-- A step that transmits no data. -/
theorem Endpoint.transmissions_eq_nil {e : Endpoint}
    (hev : ∀ now beyond, ev = .backend now beyond → e.pc ≠ .transmit) (packets : List Packet) :
    e.transmissions packets ev = [] := by
  cases ev with
  | backend now beyond => exact if_neg (hev now beyond rfl)
  | _ => rfl

/-- A packet of fresh data that has a byte that a retransmission may cover starts there or
    before. -/
theorem TimedEndpoint.Recorded.start_le (h : s.Recorded isn st) {p : Packet} {k j : ℕ}
    {q : UInt32} (hseq : p.header.seqNum.toNat = (isn + k) % 2 ^ 32)
    (hend : k + (getPayloadLen p).toNat ≤ st.acked + st.capacity) (hj : st.acked < j)
    (hq : q.toNat = isn + j) (hcovers : p.Covers q) : k ≤ j := by
  have hcap := h.sound.capacity
  have hlt := q.toNat_lt
  have hlen := (getPayloadLen p).toNat_lt
  unfold Packet.Covers at hcovers
  rw [UInt32.toNat_sub, hseq, hq] at hcovers
  by_contra hgt
  omega

/-- Transmissions at one time, after which more may count as sent: those of fresh data start
    behind what did before, and the others have the first byte unacknowledged. -/
theorem TimedEndpoint.Recorded.append (h : s.Recorded isn st) {st' : SendStream UInt8}
    {packets : List Packet} {new : List Transmission} (hloop : s.ep.LoopAct ev s'.ep packets)
    (hsound : s'.ep.Sound isn st') (hgrows : st.Grows st') (hrecord : s'.sent = s.sent ++ new)
    (hclock : s.clock ≤ s'.clock) (hnow : ∀ now ∈ ev.time, s'.clock = now)
    (htime : ∀ t ∈ new, t.time = s'.clock)
    (hsince : ∀ j, st.sent < j → j ≤ st'.sent → s'.SentSince isn j s'.clock)
    (hfresh : ∀ t ∈ new, t.resent = false → ∃ k, st.sent < k ∧
      t.packet.header.seqNum.toNat = (isn + k) % 2 ^ 32 ∧
      k + (getPayloadLen t.packet).toNat ≤ st'.acked + st'.capacity)
    (hresent : ∀ t ∈ new, t.resent = true → ∃ u ∈ new,
      u.packet.Covers (s'.ep.sock.sendBuf.lastByteAckedSeqnum + 1)) : s'.Recorded isn st' := by
  have hold : ∀ t ∈ s.sent, t ∈ s'.sent := by
    intro t ht
    rw [hrecord]
    exact List.mem_append_left _ ht
  have htimes : ∀ t ∈ s.sent, t.time ≤ s'.clock := fun t ht => le_trans (h.times t ht) hclock
  -- the times, then the fresh transmissions, then the resent ones
  refine ⟨hsound, fun t ht => ?_, fun t ht hfirst => ?_, fun t ht hres => ?_⟩
  · rw [hrecord] at ht
    rcases List.mem_append.mp ht with ht | ht
    · exact htimes t ht
    · exact (htime t ht).le
  · rw [hrecord] at ht
    rcases List.mem_append.mp ht with ht | ht
    · -- what counts as sent since is sent later than an earlier transmission
      obtain ⟨k, hseq, hend, hbefore⟩ := h.fresh t ht hfirst
      refine ⟨k, hseq, ?_, fun j hk hj => ?_⟩
      · rw [hgrows.capacity]
        exact le_trans hend (Nat.add_le_add_right hgrows.acked _)
      · rcases Nat.lt_or_ge st.sent j with hlo | hle
        · exact (hsince j hlo hj).mono (fun _ hu => hu) (htimes t ht)
        · exact (hbefore j hk hle).mono hold (le_refl _)
    -- a transmission of this step covers what it sends for the first time
    · obtain ⟨k, hlo, hseq, hend⟩ := hfresh t ht hfirst
      refine ⟨k, hseq, hend, fun j hk hj => ?_⟩
      rw [htime t ht]
      exact hsince j (lt_of_lt_of_le hlo hk) hj
  · rw [hrecord] at ht
    -- an earlier resend stays after the timer's start, or the timer starts anew
    rcases List.mem_append.mp ht with ht | ht
    · rcases hloop.timer with hsame | hset
      · rw [hsame.ts, hsame.seqnum]
        rcases h.resent t ht hres with hbefore | ⟨u, hu, hrest⟩
        · exact Or.inl hbefore
        · exact Or.inr ⟨u, hold u hu, hrest⟩
      · -- a new ack
        exact Or.inl (le_trans (htimes t ht) (hnow _ (Option.mem_def.mpr hset)).le)
    -- a resend of this step has its covering transmission in the same step
    · obtain ⟨u, hu, hcovers⟩ := hresent t ht hres
      refine Or.inr ⟨u, ?_, (htime u hu).trans (htime t ht).symm, hcovers⟩
      rw [hrecord]
      exact List.mem_append_right _ hu

/-- **Every step** keeps the record. -/
theorem TimedEndpoint.Recorded.step (h : s.Recorded isn st) (hbears : s.ep.Bears ev)
    (hstep : s.step ev = some (.ok s')) : ∃ st', s'.Recorded isn st' := by
  obtain ⟨packets, hact, hrecord, hclock, hnow⟩ := TimedEndpoint.step_ok hstep
  have hloop := h.sound.loop.act hact
  obtain ⟨st', hsound, hgrows, hstreams⟩ := h.sound.step hbears hloop
  refine ⟨st', ?_⟩
  cases hstreams with
  | @resend now beyond sent hpc hdue hsent hst =>
    -- a retransmission sends no byte for the first time
    have hsame : st'.sent = st.sent := congrArg SendStream.sent hst
    obtain ⟨htiles, hle⟩ := resendUnacknowledged_tiles h.sound.sendBuf h.sound.sent hsent
    rw [Endpoint.transmissions, if_pos hpc, hdue] at hrecord
    apply h.append hloop hsound hgrows hrecord hclock hnow
    · intro t ht
      obtain ⟨p, _, rfl⟩ := List.mem_map.mp ht
      exact (hnow now rfl).symm
    · exact fun j hlo hj => absurd hlo (by omega)
    · intro t ht hfirst
      obtain ⟨p, _, rfl⟩ := List.mem_map.mp ht
      exact absurd hfirst (by simp)
    · -- the first unacknowledged byte is among those sent again
      intro _ _ _
      have hlast := h.sound.sent
      have hcount : 1 ≤ s.ep.sock.resendCount := le_max_left _ _
      have hfirst : (s'.ep.sock.sendBuf.lastByteAckedSeqnum + 1).toNat = isn + (st.acked + 1) := by
        rw [UInt32.toNat_add, UInt32.toNat_one, hsound.sendBuf.acked, hst]
        omega
      obtain ⟨p, hp, hcovers⟩ := htiles.covers (by omega)
        (q := s'.ep.sock.sendBuf.lastByteAckedSeqnum + 1) (by omega) (by omega)
      exact ⟨_, List.mem_map.mpr ⟨p, hp, rfl⟩, hcovers⟩
  | @fresh now beyond packets hpc hdue hacked hsends =>
    rw [Endpoint.transmissions, if_pos hpc, Bool.eq_false_iff.mpr hdue] at hrecord
    apply h.append hloop hsound hgrows hrecord hclock hnow
    · intro t ht
      obtain ⟨p, _, rfl⟩ := List.mem_map.mp ht
      exact (hnow now rfl).symm
    · -- every new byte is in one of the packets, and they are sent now
      intro j hlo hj q hq
      obtain ⟨p, hp, hcovers⟩ := hsends.covers j q hlo hj hq
      refine ⟨⟨now, false, p⟩, ?_, rfl, hcovers, (hnow now rfl).le⟩
      rw [hrecord]
      exact List.mem_append_right _ (List.mem_map.mpr ⟨p, hp, rfl⟩)
    · intro t ht _
      obtain ⟨p, hp, rfl⟩ := List.mem_map.mp ht
      obtain ⟨k, hlo, hseq, hend⟩ := hsends.after p hp
      have hwle := st.written_le
      have hcap := h.sound.sendBuf.capacity_pos
      refine ⟨k, hlo, hseq, ?_⟩
      rw [hacked, hgrows.capacity]
      show k + (getPayloadLen p).toNat ≤ st.acked + st.capacity
      omega
    · intro t ht hres
      obtain ⟨p, _, rfl⟩ := List.mem_map.mp ht
      exact absurd hres (by simp)
  | other hev hsent =>
    rw [Endpoint.transmissions_eq_nil hev] at hrecord
    apply h.append hloop hsound hgrows hrecord hclock hnow
    · exact fun t ht => absurd ht List.not_mem_nil
    · exact fun j hlo hj => absurd hlo (by omega)
    · exact fun t ht => absurd ht List.not_mem_nil
    · exact fun t ht => absurd ht List.not_mem_nil

/-- Every byte of a retransmission was last sent long ago, if the two times are. -/
theorem TimedEndpoint.Recorded.waited_iff (h : s.Recorded isn st) {now : Int}
    {beyond : ℕ → UInt8} {sent : Sent} (hdue : resendDue s.ep.sock now = true)
    (hsent : resendUnacknowledged s.ep.sock beyond = .ok sent) :
    (∀ t ∈ s.sent, ∀ p ∈ sent.packets, t.Spaced ⟨now, true, p⟩) ↔ s.Waited now := by
  obtain ⟨htiles, hle⟩ := resendUnacknowledged_tiles h.sound.sendBuf h.sound.sent hsent
  have hlast := h.sound.sent
  have hcount : 1 ≤ s.ep.sock.resendCount := le_max_left _ _
  have hend := CmuSocket.lastResentSeqnum_toNat h.sound.sendBuf hlast hle
  constructor
  · intro hspaced
    refine ⟨fun t ht hres => ?_, fun t ht _ hcovers => ?_⟩
    · rcases h.resent t ht hres with hbefore | ⟨u, hu, htime, hcovers⟩
      · -- the last new ack is long ago
        have hlong := of_decide_eq_true (Bool.and_eq_true_iff.mp hdue).1
        omega
      · have hfirst : (s.ep.sock.sendBuf.lastByteAckedSeqnum + 1).toNat =
            isn + (st.acked + 1) := by
          rw [UInt32.toNat_add, UInt32.toNat_one, h.sound.sendBuf.acked]
          omega
        obtain ⟨p, hp, hcovers'⟩ := htiles.covers (by omega)
          (q := s.ep.sock.sendBuf.lastByteAckedSeqnum + 1) (by omega) (by omega)
        rw [← htime]
        exact hspaced u hu p hp rfl _ hcovers hcovers'
    · obtain ⟨p, hp, hcovers'⟩ := htiles.covers (by omega) (q := s.ep.sock.lastResentSeqnum)
        (by omega) (by omega)
      exact hspaced t ht p hp rfl _ hcovers hcovers'
  · intro hwaited t ht p hp _ q hcovers hcovers'
    obtain ⟨hlo, hhi⟩ := htiles.within (by omega) hp hcovers'
    cases hres : t.resent with
    | true => exact hwaited.resent t ht hres
    | false =>
      -- the last byte was sent with this one or later
      obtain ⟨k, hseq, hbound, hsince⟩ := h.fresh t ht hres
      have hk := h.start_le (j := q.toNat - isn) hseq hbound (by omega) (by omega) hcovers
      obtain ⟨u, hu, hfresh, hcovers'', hlater⟩ :=
        hsince (st.acked + s.ep.sock.resendCount) (by omega) hle s.ep.sock.lastResentSeqnum hend
      exact lt_of_le_of_lt (Int.add_le_add_right hlater _) (hwaited.fresh u hu hfresh hcovers'')

/-- A step keeps the record spaced exactly if it waits. -/
theorem TimedEndpoint.Recorded.spaced_iff (h : s.Recorded isn st) (hspaced : s.Spaced)
    (hbears : s.ep.Bears ev) (hstep : s.step ev = some (.ok s')) : s'.Spaced ↔ s.Waits ev := by
  obtain ⟨packets, hact, hrecord, _, _⟩ := TimedEndpoint.step_ok hstep
  obtain ⟨st', _, _, hstreams⟩ := h.sound.step hbears (h.sound.loop.act hact)
  unfold TimedEndpoint.Spaced at hspaced ⊢
  rw [hrecord, List.pairwise_append, and_iff_right hspaced]
  cases hstreams with
  | @resend now beyond sent hpc hdue hsent hst =>
    rw [Endpoint.transmissions, if_pos hpc, hdue]
    obtain ⟨htiles, hle⟩ := resendUnacknowledged_tiles h.sound.sendBuf h.sound.sent hsent
    -- the packets of one retransmission have no byte in common
    have hnew : (sent.packets.map fun p => (⟨now, true, p⟩ : Transmission)).Pairwise
        Transmission.Spaced := by
      rw [List.pairwise_map]
      refine (htiles.disjoint (by have := h.sound.sent; omega)).imp ?_
      exact fun hdisjoint _ q hcovers hcovers' => absurd hcovers' (hdisjoint q hcovers)
    rw [and_iff_right hnew]
    have hwaits : s.Waits (.backend now beyond) ↔ s.Waited now :=
      ⟨fun hw => hw hpc hdue, fun hw _ _ => hw⟩
    rw [hwaits, ← h.waited_iff hdue hsent]
    exact forall₂_congr fun t _ => List.forall_mem_map
  | @fresh now beyond packets hpc hdue hacked hsends =>
    rw [Endpoint.transmissions, if_pos hpc, Bool.eq_false_iff.mpr hdue]
    have hfirst : ∀ u ∈ packets.map fun p => (⟨now, false, p⟩ : Transmission),
        ∀ t : Transmission, t.Spaced u := by
      intro u hu t hres
      obtain ⟨p, _, rfl⟩ := List.mem_map.mp hu
      exact absurd hres (by simp)
    refine iff_of_true ⟨?_, fun t _ u hu => hfirst u hu t⟩ fun _ hdue' => absurd hdue' hdue
    exact List.pairwise_of_forall_mem_list fun t _ u hu => hfirst u hu t
  | other hev hsent =>
    rw [Endpoint.transmissions_eq_nil hev]
    refine iff_of_true ⟨.nil, fun t _ u hu => absurd hu List.not_mem_nil⟩ ?_
    cases ev with
    | backend now beyond => exact fun hpc => absurd hpc (hev now beyond rfl)
    | _ => trivial

end Record

/-! ## Runs -/

section Runs

variable {cfg : Config} {x : Side} {tr : List (TimedEndpoint × Event)} {s : TimedEndpoint}

theorem TimedEndpoint.recorded_of_run (hsend : 2 ≤ (cfg.sendCapacity x).toNat)
    (hsend' : (cfg.sendCapacity x).toNat ≤ 2 ^ 31) (hrecv : 2 ≤ (cfg.recvCapacity x).toNat)
    (hrecv' : (cfg.recvCapacity x).toNat ≤ 2 ^ 31)
    (h : Run (timedSystem cfg x) (fun _ => True) tr s)
    (hbears : ∀ p ∈ tr, p.1.ep.Bears p.2) : ∃ st, s.Recorded (cfg.isn x).toNat st := by
  apply h.invariant_of_steps (C := fun s ev => s.ep.Bears ev)
    (I := fun s => ∃ st, s.Recorded (cfg.isn x).toNat st) _ _ hbears
  · rintro s rfl _
    refine ⟨_, Config.established_sound hsend hsend' hrecv hrecv', ?_, ?_, ?_⟩
    · simp
    · simp
    · simp
  · rintro s ev s' ⟨st, hrecorded⟩ _ _ hbears hstep
    exact hrecorded.step hbears hstep

/-- **Which retransmissions are not premature**: along every run of the loop of
    `begin_backend` with a clock that does not run backwards, writes at any time and packets
    that the endpoint bears, every byte that `resend_unacknowledged` transmits was last
    transmitted more than `DEFAULT_TIMEOUT` ago, if and only if at each retransmission the
    previous one and the first transmission of the last byte that it covers are. -/
theorem no_premature_retransmission_iff (hsend : 2 ≤ (cfg.sendCapacity x).toNat)
    (hsend' : (cfg.sendCapacity x).toNat ≤ 2 ^ 31) (hrecv : 2 ≤ (cfg.recvCapacity x).toNat)
    (hrecv' : (cfg.recvCapacity x).toNat ≤ 2 ^ 31)
    (h : Run (timedSystem cfg x) (fun _ => True) tr s)
    (hbears : ∀ p ∈ tr, p.1.ep.Bears p.2) :
    (∀ t ∈ visited tr s, t.Spaced) ↔ ∀ p ∈ tr, p.1.Waits p.2 := by
  apply h.forall_visited_iff_of_steps (B := fun s ev => s.ep.Bears ev)
    (I := fun s => ∃ st, s.Recorded (cfg.isn x).toNat st) _ _ _ hbears
  · intro tr s hrun hbears
    exact TimedEndpoint.recorded_of_run hsend hsend' hrecv hrecv' hrun hbears
  · rintro s rfl _
    exact .nil
  · rintro s ev s' ⟨st, hrecorded⟩ hspaced _ hbears hstep
    exact hrecorded.spaced_iff hspaced hbears hstep

end Runs

/-- A byte is written, and sent in an iteration at `first`; other iterations follow. -/
def iterationsAt (first : Int) (others : List Int) : List Event :=
  [.writeCall [7], .write] ++
    (first :: others).flatMap fun now => List.replicate 4 (.backend now fun _ => 0)

/-- Sent at once, and again when its first timeout fires. -/
theorem no_premature_retransmission_iff_once : ∃ tr s,
    Run (timedSystem (smallConfig 4) .client) (fun _ => True) tr s ∧
    s.sent.map (fun t => (t.time, t.resent)) = [(0, false), (3001, true)] ∧
    ∀ t ∈ visited tr s, t.Spaced := by
  have hinit : Run (timedSystem (smallConfig 4) .client) (fun _ => True) []
      ⟨(smallConfig 4).established.ep .client, 0, []⟩ := .init rfl trivial
  have hrun := hinit.exec (iterationsAt 0 [3001]) rfl
  refine ⟨_, _, hrun, rfl, ?_⟩
  exact (no_premature_retransmission_iff (by decide) (by decide) (by decide) (by decide) hrun
    (by decide)).mpr (by decide)

/-- The connection has been idle for five seconds when the byte is written: the iteration
    that sends it is followed by iterations that all send it again, at the same time. -/
theorem retransmitted_at_once : ∃ tr s,
    Run (timedSystem (smallConfig 4) .client) (fun _ => True) tr s ∧
    s.sent.map (fun t => (t.time, t.resent)) = [(5000, false), (5000, true), (5000, true)] ∧
    s.sent.map (fun t => t.packet.header.seqNum) = [101, 101, 101] ∧ ¬ s.Spaced := by
  have hinit : Run (timedSystem (smallConfig 4) .client) (fun _ => True) []
      ⟨(smallConfig 4).established.ep .client, 0, []⟩ := .init rfl trivial
  have hrun := hinit.exec (iterationsAt 5000 [5000, 5000]) rfl
  refine ⟨_, _, hrun, rfl, rfl, fun hspaced => ?_⟩
  have hfirst := List.rel_of_pairwise_cons hspaced (List.mem_cons_self ..)
  exact absurd (hfirst rfl 101 (by decide) (by decide)) (by decide)

end CmuTcp
