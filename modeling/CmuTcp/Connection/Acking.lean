import CmuTcp.Connection.Moves
import CmuTcp.Connection.Sound

/-!
# Acknowledgements

`handle_message` answers a packet with data by a pure ACK, whether it could take the data or
not, and no other packet.  This module says what that ACK announces, for an endpoint that has
heard well-formed packets only: the next byte expected, which is never less than what the
endpoint has announced before in whatever packet, and the room in the receive ring.

The peer is not part of the system here; a packet counts as its own if it could be.

1. `CmuSocket.Trusts` says of a packet what its receiver can tell: it acknowledges bytes that
   have been sent, and no number of its data wraps around.
2. `CmuSocket.Answers` is the whole of what `handle_message` makes of such a packet: the bytes
   that it releases, what it takes in, and the answer.  One packet is `CmuSocket.Trusts.answers`.
3. The record of the acks announced so far is bounded by what the reassembly expects
   (`AckingEndpoint.Invariant`), so the next announcement takes nothing back.

Main result: `ack_generation`.
-/

namespace CmuTcp

open FaultSystem

/-! ## Packets of an honest peer -/

/-- A bare header, the ACK flag without SYN and FIN, and the payload that `plen` counts. -/
structure Packet.WellFormed (p : Packet) : Prop extends p.IsPlain where
  hlen : p.header.hlen = headerLen
  extension : p.header.extensionLength = 0

/-- The packet may come from the peer that drew the ISN `peerIsn`: it acknowledges only
    bytes that have been sent, and no number of its data wraps around. -/
structure CmuSocket.Trusts (sock : CmuSocket) (isn peerIsn : UInt32) (p : Packet) : Prop where
  wellFormed : p.WellFormed
  ack_gt : isn < p.header.ackNum
  ack_le : p.header.ackNum - 1 ≤ getLastByteSentSeqnum sock.sendBuf
  data_gt : getPayloadLen p ≠ 0 → peerIsn < p.header.seqNum
  noWrap : getPayloadLen p ≠ 0 →
    p.header.seqNum.toNat + (getPayloadLen p).toNat < 2 ^ 32

instance Packet.WellFormed.decidable (p : Packet) : Decidable p.WellFormed :=
  decidable_of_iff ((headerLen.toNat ≤ p.header.plen.toNat ∧
      p.body.length = p.header.plen.toNat - headerLen.toNat ∧ p.hasFlag ackFlagMask = true ∧
      p.hasFlag synFlagMask = false ∧ p.hasFlag finFlagMask = false) ∧
      p.header.hlen = headerLen ∧ p.header.extensionLength = 0)
    ⟨fun ⟨⟨h1, h2, h3, h4, h5⟩, h6, h7⟩ => ⟨⟨h1, h2, h3, h4, h5⟩, h6, h7⟩,
      fun h => ⟨⟨h.whole, h.body, h.ack, h.syn, h.fin⟩, h.hlen, h.extension⟩⟩

instance CmuSocket.Trusts.decidable (sock : CmuSocket) (isn peerIsn : UInt32) :
    DecidablePred (sock.Trusts isn peerIsn) :=
  fun _ => decidable_of_iff (_ ∧ _ ∧ _ ∧ _ ∧ _)
    ⟨fun ⟨h1, h2, h3, h4, h5⟩ => ⟨h1, h2, h3, h4, h5⟩,
      fun h => ⟨h.wellFormed, h.ack_gt, h.ack_le, h.data_gt, h.noWrap⟩⟩

theorem Packet.WellFormed.payloadLen {p : Packet} (h : p.WellFormed) :
    (getPayloadLen p).toNat = (getPayload p).length := by
  have hhdr : headerLen.toNat = 25 := rfl
  have hwhole := h.whole
  have hbody := h.body
  have hlt := p.header.plen.toNat_lt
  have hext : p.header.extensionLength.toNat = 0 := by rw [h.extension]; rfl
  unfold getPayloadLen getPayload
  rw [UInt16.toNat_sub, h.hlen, hext, List.drop_zero]
  omega

/-! ## The endpoint -/

/-- An endpoint, and the ack numbers of the packets that it has sent. -/
structure AckingEndpoint where
  ep : Endpoint
  acks : List UInt32

def AckingEndpoint.step (s : AckingEndpoint) (ev : Event) : Option (Except Fault AckingEndpoint) :=
  (s.ep.act ev).map fun r => r.map fun r => ⟨r.1, s.acks ++ r.2.map (·.header.ackNum)⟩

/-- The endpoint of the side `x` right after the handshake, in which it has acknowledged the
    ISN of its peer. -/
def ackingSystem (cfg : Config) (x : Side) : System AckingEndpoint Event Fault where
  init s := s = ⟨cfg.established.ep x, [cfg.isn x.other + 1]⟩
  step := AckingEndpoint.step

/-- No sequence number of the endpoint wraps around. -/
def AckingEndpoint.NoWrap (s : AckingEndpoint) : Prop := s.ep.sock.sendBuf.NoWrap

instance AckingEndpoint.NoWrap.decidable : DecidablePred AckingEndpoint.NoWrap := fun s =>
  inferInstanceAs (Decidable s.ep.sock.sendBuf.NoWrap)

/-- The condition of a step: a packet that arrives may come from the peer. -/
def AckingEndpoint.Hears (cfg : Config) (x : Side) (s : AckingEndpoint) : Event → Prop
  | .receive _ _ p => s.ep.sock.Trusts (cfg.isn x) (cfg.isn x.other) p
  | _ => True

instance AckingEndpoint.Hears.decidable (cfg : Config) (x : Side) (s : AckingEndpoint) :
    DecidablePred (s.Hears cfg x)
  | .receive _ _ _ => inferInstanceAs (Decidable (CmuSocket.Trusts ..))
  | .backend _ _ => isTrue trivial
  | .writeCall _ => isTrue trivial
  | .write => isTrue trivial
  | .read _ _ => isTrue trivial
  | .close => isTrue trivial

/-! ## What an answer is -/

/-- A pure ACK of the next byte expected, which takes back none of the acks before. -/
structure Packet.Acks (q : Packet) (sock : CmuSocket) (earlier : List UInt32) : Prop where
  flags : q.header.flags = ackFlagMask
  payloadLen : getPayloadLen q = 0
  payload : getPayload q = []
  ack : q.header.ackNum = getNextByteExpectedSeqnum sock.recvBuf
  earlier : ∀ a ∈ earlier, a ≤ q.header.ackNum
  window : sock.recvBuf.capacity.toNat ≤ 65536 →
    q.header.advertisedWindow.toNat = (recvBufferMaxReceive sock.recvBuf).toNat

/-- The byte with the sequence number `q`, if it is in the buffer. -/
def SendBuffer.byteOf (sb : SendBuffer) (q : UInt32) : Option UInt8 :=
  sb.buffer[(sb.lastByteAckedIndex.toNat + (q - sb.lastByteAckedSeqnum).toNat) %
    sb.capacity.toNat]?

/-- The bytes up to `acknum` are released, and all others are where they were. -/
structure SendBuffer.Releases (sb sb' : SendBuffer) (acknum : UInt32) : Prop where
  acked : sb'.lastByteAckedSeqnum.toNat = max sb.lastByteAckedSeqnum.toNat (acknum - 1).toNat
  capacity : sb'.capacity = sb.capacity
  lastSent : getLastByteSentSeqnum sb' = getLastByteSentSeqnum sb
  nextWritten : getNextByteWrittenSeqnum sb' = getNextByteWrittenSeqnum sb
  bytes : ∀ q, sb'.lastByteAckedSeqnum < q → q < getNextByteWrittenSeqnum sb →
    sb'.byteOf q = sb.byteOf q

/-- What `handle_message` makes of a packet of an honest peer. -/
structure CmuSocket.Answers (sock : CmuSocket) (p : Packet) (now : Int) (earlier : List UInt32)
    (sock' : CmuSocket) (replies : List Packet) : Prop where
  result : handleMessage sock p now = .ok (sock', replies)
  silent : getPayloadLen p = 0 → replies = []
  reply : getPayloadLen p ≠ 0 → ∃ q, replies = [q] ∧ q.Acks sock' earlier
  -- the ACK of data that continues the stream and fits covers it
  inOrder : p.header.seqNum = getNextByteExpectedSeqnum sock.recvBuf →
    p.header.seqNum.toNat + (getPayloadLen p).toNat - 1 ≤
      sock.recvBuf.lastByteReadSeqnum.toNat + sock.recvBuf.capacity.toNat - 1 →
    ∀ q ∈ replies, p.header.seqNum.toNat + (getPayloadLen p).toNat ≤ q.header.ackNum.toNat
  sendBuf : sock.sendBuf.Releases sock'.sendBuf p.header.ackNum

/-! ## One packet -/

section Packet

variable {sock : CmuSocket} {isn peerIsn : UInt32} {out : SendStream UInt8} {inn : Reassembly}
  {p : Packet}

/-- The cell of a number that is counted from the last byte acknowledged. -/
theorem SendBuffer.Refines.cell_toNat {sb : SendBuffer} {isn : ℕ} (h : sb.Refines isn out)
    {q : UInt32} (hlo : isn + out.acked ≤ q.toNat) :
    (sb.lastByteAckedIndex.toNat + (q - sb.lastByteAckedSeqnum).toNat) % sb.capacity.toNat =
      (q.toNat - isn) % out.capacity := by
  have hlt := q.toNat_lt
  rw [h.ackedIndex, UInt32.toNat_sub, h.acked, h.capacity,
    show (2 ^ 32 - (isn + out.acked) + q.toNat) % 2 ^ 32 = q.toNat - (isn + out.acked) by omega,
    Nat.mod_add_mod]
  congr 1
  omega

/-- An ack that leaves the cells alone, and moves the stream, releases what it covers. -/
theorem SendBuffer.Refines.releases {sb sb' : SendBuffer} {isn a : ℕ} {ha : a ≤ out.sent}
    (h : sb.Refines isn out) (h' : sb'.Refines isn (out.ack a ha)) {acknum : UInt32}
    (hack : acknum.toNat = isn + a + 1) (hbuffer : sb'.buffer = sb.buffer) :
    sb.Releases sb' acknum := by
  have hacked : sb'.lastByteAckedSeqnum.toNat = isn + max out.acked a := h'.acked
  have hcap : sb'.capacity = sb.capacity := by
    apply UInt32.toNat_inj.mp
    rw [h.capacity, h'.capacity]
    rfl
  refine ⟨?_, hcap, ?_, ?_, ?_⟩
  · have hq : (acknum - 1).toNat = isn + a := by
      have := acknum.toNat_lt
      rw [UInt32.toNat_sub, UInt32.toNat_one, hack]
      omega
    rw [hacked, h.acked, hq]
    omega
  · apply UInt32.toNat_inj.mp
    rw [h.getLastByteSentSeqnum_mod, h'.getLastByteSentSeqnum_mod]
    rfl
  · apply UInt32.toNat_inj.mp
    rw [h.getNextByteWrittenSeqnum_mod, h'.getNextByteWrittenSeqnum_mod]
    rfl
  · intro q hlo _
    rw [UInt32.lt_iff_toNat_lt, hacked] at hlo
    -- both name the cell of the same position, and the ring has the same size
    have hacked' : isn + out.acked ≤ q.toNat := by omega
    have hcell := h.cell_toNat hacked'
    have hcell' := h'.cell_toNat (show isn + max out.acked a ≤ q.toNat by omega)
    rw [SendStream.ack] at hcell'
    unfold SendBuffer.byteOf
    rw [hcell, hcell', hbuffer]

/-- A packet that may come from the peer is handled without a fault. -/
theorem CmuSocket.Trusts.handleMessage (hp : sock.Trusts isn peerIsn p)
    (h : sock.Refines isn.toNat peerIsn.toNat out inn) (hw : sock.sendBuf.NoWrap) (now : Int) :
    ∃ a ha sb' rb' inn' window' replies,
      handleMessage sock p now =
        .ok ({ sock with sendBuf := sb', recvBuf := rb', window := window' }, replies) ∧
      p.header.ackNum.toNat = isn.toNat + a + 1 ∧
      ({ sock with sendBuf := sb', recvBuf := rb', window := window' } : CmuSocket).Refines
        isn.toNat peerIsn.toNat (out.ack a ha) inn' ∧
      TakesData p peerIsn.toNat sock.recvBuf inn rb' inn' ∧
      Replies p { sock with sendBuf := sb', recvBuf := rb', window := window' } replies := by
  have hgt := UInt32.lt_iff_toNat_lt.mp hp.ack_gt
  have hle := hp.ack_le
  have hlt := p.header.ackNum.toNat_lt
  -- the number that the packet acknowledges is one past a byte that has been sent
  rw [UInt32.le_iff_toNat_le, UInt32.toNat_sub, UInt32.toNat_one,
    h.sendBuf.getLastByteSentSeqnum hw] at hle
  obtain ⟨sb', rb', inn', window', replies, hmsg, href, _, _, htakes, hreplies⟩ :=
    handleMessage_takes h hw hp.wellFormed.ack hp.wellFormed.syn hp.wellFormed.fin
      (show p.header.ackNum.toNat = isn.toNat + (p.header.ackNum.toNat - isn.toNat - 1) + 1 by
        omega)
      (show p.header.ackNum.toNat - isn.toNat - 1 ≤ out.sent by omega)
      -- its data comes after the ISN of the peer, and none of its numbers wraps around
      (le_of_eq hp.wellFormed.payloadLen) (fun hne => by
        have hseq := UInt32.lt_iff_toNat_lt.mp (hp.data_gt hne)
        have hwrap := hp.noWrap hne
        have hpos := payloadLen_pos hne
        exact ⟨p.header.seqNum.toNat - peerIsn.toNat, ⟨by omega, rfl, hpos⟩, by omega⟩) now
  exact ⟨_, _, sb', rb', inn', window', replies, hmsg, by omega, href, htakes, hreplies⟩

/-- A pure ACK of an endpoint that has announced nothing beyond what it expects. -/
theorem Packet.SentFrom.acks {q : Packet} (hq : q.SentFrom sock) (hlen : getPayloadLen q = 0)
    (h : sock.Refines isn.toNat peerIsn.toNat out inn) {earlier : List UInt32}
    (hearlier : ∀ a ∈ earlier, a ≤ sock.window.nextSeqExpected) : q.Acks sock earlier where
  flags := hq.flags
  payloadLen := hlen
  payload := List.eq_nil_of_length_eq_zero (by rw [hq.payload, hlen]; rfl)
  ack := by
    apply UInt32.toNat_inj.mp
    rw [hq.ack, h.nextSeq, h.recvBuf.getNextByteExpectedSeqnum]
  earlier := by
    rw [hq.ack]
    exact hearlier
  window hcap := by
    have hread := inn.read_lt_next
    rw [hq.window, UInt32.toNat_toUInt16, h.recvBuf.recvBufferMaxReceive]
    rw [h.recvBuf.capacity] at hcap
    omega

/-- Data that continues the stream and fits is accepted. -/
theorem TakesData.lt_next {peerIsn : ℕ} {rb rb' : RecvBuffer} {r r' : Reassembly} {k n : ℕ}
    (h : TakesData p peerIsn rb r rb' r') (hcar : p.Carries peerIsn k n) (hk : k = r.next)
    (hfits : k + n - 1 < r.read + r.capacity) : k + n ≤ r'.next := by
  have hpos := hcar.pos
  have hread := r.read_lt_next
  cases h with
  | @accept rb' k' n' hcar' hacc _ _ =>
    -- the packet carries one stretch only
    obtain rfl : n' = n := hcar'.len.symm.trans hcar.len
    obtain rfl : k' = k := Nat.add_left_cancel (hcar'.seq.symm.trans hcar.seq)
    have hlt := Reassembly.lt_accept_next hacc (le_of_eq hk)
    omega
  | refuse _ hrefused =>
    exact absurd ⟨by omega, by omega, by omega, hfits⟩ (hrefused k n hcar)

/-- **The answer** to a packet that may come from the peer. -/
theorem CmuSocket.Trusts.answers (hp : sock.Trusts isn peerIsn p)
    (h : sock.Refines isn.toNat peerIsn.toNat out inn) (hw : sock.sendBuf.NoWrap)
    {earlier : List UInt32} (hearlier : ∀ a ∈ earlier, a ≤ sock.window.nextSeqExpected)
    (now : Int) : ∃ sock' replies, sock.Answers p now earlier sock' replies := by
  obtain ⟨a, ha, sb', rb', inn', window', replies, hmsg, hack, href, htakes, hreplies⟩ :=
    hp.handleMessage h hw now
  have hnext := htakes.next_le
  -- what has been announced before is not beyond what is expected now
  have hearlier' : ∀ b ∈ earlier, b ≤ window'.nextSeqExpected := by
    intro b hb
    have hle := UInt32.le_iff_toNat_le.mp (hearlier b hb)
    rw [h.nextSeq] at hle
    rw [UInt32.le_iff_toNat_le, href.nextSeq]
    omega
  refine ⟨_, replies, hmsg, hreplies.none, fun hne => ?_, fun hseq hfits q hq => ?_, ?_⟩
  · -- the answer is built after the data has been taken
    obtain ⟨q, rfl⟩ := hreplies.single hne
    obtain ⟨hfrom, hlen⟩ := hreplies.sent q (List.mem_singleton_self q)
    exact ⟨q, rfl, hfrom.acks hlen href hearlier'⟩
  · -- data at the next byte expected is accepted, and moves it past the data
    by_cases hnone : getPayloadLen p = 0
    · rw [hreplies.none hnone] at hq
      exact absurd hq List.not_mem_nil
    · have hpos := payloadLen_pos hnone
      have hseq' : p.header.seqNum.toNat = peerIsn.toNat + inn.next := by
        rw [hseq, h.recvBuf.getNextByteExpectedSeqnum]
      rw [h.recvBuf.readSeqnum, h.recvBuf.capacity] at hfits
      have hlt := htakes.lt_next ⟨hseq', rfl, hpos⟩ rfl (by have := h.recvBuf.capacity_pos; omega)
      have hacknum : q.header.ackNum.toNat = peerIsn.toNat + inn'.next := by
        rw [(hreplies.sent q hq).1.ack, href.nextSeq]
      omega
  · -- the ack update moves the numbers of the last byte acked only
    have hbuffer : sb'.buffer = sock.sendBuf.buffer := by
      rcases handleMessage_ok hmsg with ⟨_, hsame⟩ | ⟨_, hhandles⟩
      · exact congrArg (fun s => s.sendBuf.buffer) hsame
      · obtain ⟨sock₁, hupdate, hsb, _⟩ := hhandles.ack
        rw [show sb' = sock₁.sendBuf from hsb]
        rcases handleAck_eq_ok hupdate with ⟨_, rfl⟩ | ⟨sb, hsb', rfl⟩
        · rfl
        · rcases sendBufferUpdateAck_eq_ok hsb' with ⟨_, _, _, rfl⟩ | ⟨_, rfl⟩
          · rfl
          · rfl
    exact h.sendBuf.releases href.sendBuf hack hbuffer

end Packet

/-! ## Runs -/

/-- The endpoint holds a stream and a reassembly, and has announced no more than it has. -/
structure AckingEndpoint.Invariant (s : AckingEndpoint) (isn peerIsn : UInt32)
    (out : SendStream UInt8) (inn : Reassembly) : Prop where
  loop : s.ep.InLoop
  pending : s.ep.pending.length < 2 ^ 31
  sock : s.ep.sock.Refines isn.toNat peerIsn.toNat out inn
  acks : ∀ a ∈ s.acks, a ≤ s.ep.sock.window.nextSeqExpected

section Runs

variable {cfg : Config} {x : Side} {s s' : AckingEndpoint} {out : SendStream UInt8}
  {inn : Reassembly}

/-- Packets that announce the next byte expected keep the order of the announcements. -/
theorem AckingEndpoint.Invariant.acks_append {isn peerIsn : UInt32}
    (h : s.Invariant isn peerIsn out inn) {packets : List Packet} {next : UInt32}
    (hnext : s.ep.sock.window.nextSeqExpected ≤ next)
    (hpackets : ∀ q ∈ packets, q.header.ackNum = next) :
    ∀ a ∈ s.acks ++ packets.map (·.header.ackNum), a ≤ next := by
  intro a ha
  rcases List.mem_append.mp ha with hold | hnew
  · exact UInt32.le_trans (h.acks a hold) hnext
  · obtain ⟨q, hq, rfl⟩ := List.mem_map.mp hnew
    exact UInt32.le_of_eq (hpackets q hq)

/-- **Every step** at which the endpoint hears its peer. -/
theorem AckingEndpoint.Invariant.step (h : s.Invariant (cfg.isn x) (cfg.isn x.other) out inn)
    (hw : s.NoWrap) {ev : Event} (hhears : s.Hears cfg x ev)
    (hstep : s.step ev = some (.ok s')) :
    ∃ out' inn', s'.Invariant (cfg.isn x) (cfg.isn x.other) out' inn' := by
  obtain ⟨r, hr, hret⟩ := Option.map_eq_some_iff.mp hstep
  obtain ⟨⟨e, packets⟩, rfl, rfl⟩ := ok_of_map_ok hret
  have hloop := h.loop
  have hact := hloop.act hr
  have hloop' := hact.inLoop hloop
  have hsame : ∀ a ∈ s.acks ++ [].map (fun q : Packet => q.header.ackNum),
      a ≤ s.ep.sock.window.nextSeqExpected := by simpa using h.acks
  cases hact with
  | advance _ _ _ _ _ => exact ⟨out, inn, hloop', h.pending, h.sock, hsame⟩
  | @transmit now beyond sent hpc hsent =>
    obtain ⟨r, n, hr, hdone⟩ := transmit_spec h.sock.sendBuf hw now beyond
    obtain rfl := Except.ok.inj (hr.symm.trans hsent)
    -- every packet sent carries the present next byte expected
    exact ⟨_, inn, hloop', h.pending,
      ⟨hdone.sendBuf, h.sock.recvBuf, h.sock.lastAck, h.sock.nextSeq⟩,
      h.acks_append (UInt32.le_refl _) fun q hq => (hdone.packets q hq).1.ack⟩
  | @receive now source p sock replies hpc hmsg =>
    have hheard : (s.ep.sock.heardFrom source).Refines (cfg.isn x).toNat
        (cfg.isn x.other).toNat out inn :=
      ⟨h.sock.sendBuf, h.sock.recvBuf, h.sock.lastAck, h.sock.nextSeq⟩
    have hp : (s.ep.sock.heardFrom source).Trusts (cfg.isn x) (cfg.isn x.other) p :=
      ⟨hhears.wellFormed, hhears.ack_gt, hhears.ack_le, hhears.data_gt, hhears.noWrap⟩
    obtain ⟨a, ha, sb', rb', inn', window', replies', hmsg', _, href, htakes, hreplies⟩ :=
      hp.handleMessage hheard hw now
    obtain ⟨rfl, rfl⟩ := Prod.mk.inj (Except.ok.inj (hmsg'.symm.trans hmsg))
    -- a packet moves the next byte expected forward only, so the earlier ACKs stay below it
    have hnext := htakes.next_le
    refine ⟨_, inn', hloop', h.pending, href, h.acks_append ?_ fun q hq =>
      (hreplies.sent q hq).1.ack⟩
    show s.ep.sock.window.nextSeqExpected ≤ window'.nextSeqExpected
    rw [UInt32.le_iff_toNat_le, h.sock.nextSeq, href.nextSeq]
    omega
  | writeCall _ _ hlen => exact ⟨out, inn, hloop', hlen, h.sock, hsame⟩
  | write _ _ hwrite =>
    obtain ⟨n, sb', hn, _, hwrite', href, _, _⟩ := cmuWriteIteration_refines h.sock.sendBuf
      (h.sock.sendBuf.indicesFit hw) (lt_trans h.pending (by decide))
    obtain ⟨hrest, hsock⟩ := Prod.mk.inj (Except.ok.inj (hwrite.symm.trans hwrite'))
    obtain rfl := congrArg CmuSocket.sendBuf hsock
    refine ⟨_, inn, hloop', ?_, ⟨href, h.sock.recvBuf, h.sock.lastAck, h.sock.nextSeq⟩, hsame⟩
    rw [hrest, List.length_drop]
    exact lt_of_le_of_lt (Nat.sub_le _ _) h.pending
  | @read length _ flags _ rb hread =>
    obtain ⟨_, n, hn, rb', hread', href, _⟩ := cmuRead_spec h.sock.recvBuf length flags
    obtain ⟨_, hret⟩ := Prod.mk.inj (Except.ok.inj (hread.symm.trans hread'))
    obtain rfl : rb = rb' := congrArg CmuSocket.recvBuf (Prod.mk.inj hret).2
    exact ⟨out, _, hloop', h.pending, ⟨h.sock.sendBuf, href, h.sock.lastAck, h.sock.nextSeq⟩,
      hsame⟩
  | close _ =>
    exact ⟨out, inn, hloop', h.pending,
      ⟨h.sock.sendBuf, h.sock.recvBuf, h.sock.lastAck, h.sock.nextSeq⟩, hsame⟩

/-- Right after the handshake. -/
theorem Config.established_acking (hsend : 2 ≤ (cfg.sendCapacity x).toNat)
    (hrecv : 2 ≤ (cfg.recvCapacity x).toNat)
    (hfresh : ∀ p, ((cfg.env x).freshSegment p).prev = none ∧
      ((cfg.env x).freshSegment p).next = none)
    (hpeer : (cfg.isn x.other).toNat + 1 < 2 ^ 32)
    (hw : AckingEndpoint.NoWrap ⟨cfg.established.ep x, [cfg.isn x.other + 1]⟩) :
    ∃ out inn, AckingEndpoint.Invariant ⟨cfg.established.ep x, [cfg.isn x.other + 1]⟩
      (cfg.isn x) (cfg.isn x.other) out inn := by
  -- the two buffers as `cmu_socket` and the handshake leave them
  obtain ⟨sb, hsb, hsend', _⟩ := refines_initialize (cfg.sendCapacity x) (cfg.env x).sendMem
    (cfg.isn x) (cfg.env x).now hsend
  obtain rfl := Except.ok.inj hsb
  obtain ⟨rb, hrb, hrecv'⟩ := recv_refines_initialize (cfg.recvCapacity x) (cfg.env x).recvMem
    (cfg.env x).freshSegment (cfg.isn x.other) hrecv hfresh hpeer
  obtain rfl := Except.ok.inj hrb
  -- the numbers behind the ISNs have not wrapped around
  have hisn : (cfg.isn x).toNat + 1 < 2 ^ 32 := by
    have hroom : (cfg.isn x).toNat + (cfg.sendCapacity x).toNat < 2 ^ 32 := hw
    omega
  have hlast : (cfg.isn x + 1).toNat = (cfg.isn x).toNat + 0 + 1 := by
    rw [UInt32.toNat_add, UInt32.toNat_one]
    exact Nat.mod_eq_of_lt hisn
  have hnext : (cfg.isn x.other + 1).toNat = (cfg.isn x.other).toNat + 1 := by
    rw [UInt32.toNat_add, UInt32.toNat_one]
    exact Nat.mod_eq_of_lt hpeer
  refine ⟨_, _, ⟨by simp [Config.established], by simp [Config.established]⟩, Nat.two_pow_pos 31,
    -- the only announcement so far is that of the handshake
    ⟨hsend', hrecv', hlast, hnext⟩, fun a ha => ?_⟩
  obtain rfl := List.mem_singleton.mp ha
  exact UInt32.le_refl _

/-- **Acknowledgements**: in every state of a run in which the endpoint heard only packets
    that may come from its peer, any such packet gets no answer if it has no data, and else
    one pure ACK of the next byte expected, which takes back no earlier ack of the endpoint,
    covers data that continue the stream and fit, and announces the room there is; the send
    buffer only releases what the packet acknowledges. -/
theorem ack_generation (hsend : 2 ≤ (cfg.sendCapacity x).toNat)
    (hrecv : 2 ≤ (cfg.recvCapacity x).toNat)
    (hfresh : ∀ p, ((cfg.env x).freshSegment p).prev = none ∧
      ((cfg.env x).freshSegment p).next = none)
    (hpeer : (cfg.isn x.other).toNat + 1 < 2 ^ 32) {tr : List (AckingEndpoint × Event)}
    (h : Run (ackingSystem cfg x) AckingEndpoint.NoWrap tr s)
    (hhears : ∀ p ∈ tr, p.1.Hears cfg x p.2) {p : Packet}
    (hp : s.ep.sock.Trusts (cfg.isn x) (cfg.isn x.other) p) (source : SockAddr) (now : Int) :
    ∃ sock' replies, (s.ep.sock.heardFrom source).Answers p now s.acks sock' replies := by
  have hinv : ∃ out inn, s.Invariant (cfg.isn x) (cfg.isn x.other) out inn := by
    apply h.invariant_of_steps (I := fun s : AckingEndpoint =>
      ∃ out inn, s.Invariant (cfg.isn x) (cfg.isn x.other) out inn) _ _ hhears
    · rintro s rfl hw
      exact Config.established_acking hsend hrecv hfresh hpeer hw
    · rintro s ev s' ⟨out, inn, hinv⟩ hw _ hhears hstep
      exact hinv.step hw hhears hstep
  obtain ⟨out, inn, hinv⟩ := hinv
  have hheard : (s.ep.sock.heardFrom source).Refines (cfg.isn x).toNat
      (cfg.isn x.other).toNat out inn :=
    ⟨hinv.sock.sendBuf, hinv.sock.recvBuf, hinv.sock.lastAck, hinv.sock.nextSeq⟩
  have hp' : (s.ep.sock.heardFrom source).Trusts (cfg.isn x) (cfg.isn x.other) p :=
    ⟨hp.wellFormed, hp.ack_gt, hp.ack_le, hp.data_gt, hp.noWrap⟩
  exact hp'.answers hheard h.kept hinv.acks now

end Runs

/-- A packet of the server of a small connection, with data. -/
def serverPacket (seq : UInt32) (payload : List UInt8) : Packet where
  header := ⟨packetIdentifier, 0, 0, seq, 101, headerLen, headerLen + payload.length.toUInt16,
    ackFlagMask, 10, 0⟩
  body := payload

/-- The second and third byte have come first; the ACK of the first two covers all three. -/
theorem ack_generation_gap : ∃ tr s sock' replies,
    Run (ackingSystem (smallConfig 8) .client) AckingEndpoint.NoWrap tr s ∧ s.acks = [501, 501] ∧
    (s.ep.sock.heardFrom ⟨0, 0⟩).Answers (serverPacket 501 [7, 8]) 0 s.acks sock' replies ∧
    replies.map (·.header.ackNum) = [504] := by
  have hinit : Run (ackingSystem (smallConfig 8) .client) AckingEndpoint.NoWrap []
      ⟨(smallConfig 8).established.ep .client, [501]⟩ := .init rfl (by decide)
  have hrun := hinit.exec ([.backend 0 (fun _ => 0), .backend 0 (fun _ => 0),
    .receive 0 ⟨0, 0⟩ (serverPacket 502 [8, 9])] : List Event) rfl
  obtain ⟨sock', replies, hanswers⟩ := ack_generation (by decide) (by decide)
    (fun _ => ⟨rfl, rfl⟩) (by decide) hrun (by decide) (p := serverPacket 501 [7, 8]) (by decide)
    ⟨0, 0⟩ 0
  refine ⟨_, _, sock', replies, hrun, rfl, hanswers, ?_⟩
  have hreplies := congrArg (fun r : Except Fault (CmuSocket × List Packet) =>
    r.map fun pair => pair.2.map (·.header.ackNum)) hanswers.result
  exact (Except.ok.inj hreplies).symm

end CmuTcp
