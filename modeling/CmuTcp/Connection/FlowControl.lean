import CmuTcp.Connection.Moves

/-!
# Flow Control

A sender keeps the greatest ack it has seen and the window of the last packet it has
handled.  Together they name a right edge, up to which it sends.  An ack and a window from
one packet never reach past the receiver's right edge; the greatest ack with the window of
a stale packet may.  As long as no stale packet makes the sender believe in more room than
there is, nothing is sent that the receiver cannot take, but for zero window probes.

The right edge of a receiver, the position after the last one that it has room for, never
moves back.  `Sys.Flow` keeps three right edges in order: those that the sender believes in,
those on their way to it, and the receiver's own.

1. Every move of the connection keeps them in order (`Sys.Moves.flow`); the only one that
   needs the condition is the handling of a packet.
2. Within the right edges, what is sent fits (`Sys.Flow.flowControlled`).

Main result: `flow_control`, with `flow_control_exceeded` for a window that comes too late.
-/

namespace CmuTcp

open FaultSystem

variable {cfg : Config} {tr : List (Sys × Label)} {s : Sys}

/-- No packet that the sending part of an iteration of `x` emits reaches past the right
    edge of its peer, a probe of a zero window apart, and no packet of more than one byte
    in flight from `x` is too long for its peer. -/
structure Sys.FlowControlled (s : Sys) (x : Side) : Prop where
  emitted : ∀ now beyond r, transmit (s.ep x).sock now beyond = .ok r → ∀ p ∈ r.packets,
    p.header.seqNum.toNat + (getPayloadLen p).toNat ≤
        (s.ep x.other).sock.recvBuf.lastByteReadSeqnum.toNat +
          (s.ep x.other).sock.recvBuf.capacity.toNat ∨
      (s.ep x).sock.window.rcvdAdvertisedWindow = 0 ∧ getPayloadLen p = 1
  taken : ∀ p ∈ s.net x.other, 1 < (getPayloadLen p).toNat →
    recvBufferCanReceive (s.ep x.other).sock.recvBuf p.header.seqNum
      (getPayloadLen p).toUInt32 ≠ 1

/-- A packet that is handled is not stale, or its window, counted from the greatest ack,
    stays within the right edge of the peer. -/
def Label.WindowFits (s : Sys) : Label → Prop
  | .receive x _ i => ∀ p ∈ (s.net x)[i]?,
      (s.ep x).sock.window.lastAckReceived ≤ p.header.ackNum ∨
      (s.ep x).sock.window.lastAckReceived.toNat +
          min p.header.advertisedWindow.toNat ((s.ep x).sock.sendBuf.capacity.toNat - 1) ≤
        (s.ep x.other).sock.recvBuf.lastByteReadSeqnum.toNat +
          (s.ep x.other).sock.recvBuf.capacity.toNat
  | _ => True

instance (s : Sys) : (l : Label) → Decidable (l.WindowFits s)
  | .receive x _ i => inferInstanceAs (Decidable (∀ p ∈ (s.net x)[i]?, _ ∨ _))
  | .backend .. | .writeCall .. | .write _ | .read .. | .close _ | .lose .. | .duplicate .. =>
    isTrue trivial

/-- The right edge that `x` believes in and the right edges that are on their way to it
    are not past that of the receiver, and neither is the data on its way there. -/
structure Sys.Flow (cfg : Config) (s : Sys) (out : SendStream UInt8) (inn : Reassembly)
    (x : Side) : Prop where
  advertised : ∀ p ∈ s.net x, p.header.ackNum.toNat + p.header.advertisedWindow.toNat ≤
    (cfg.isn x).toNat + inn.read + inn.capacity
  believed : out.acked +
    min (s.ep x).sock.window.rcvdAdvertisedWindow.toNat (out.capacity - 1) <
      inn.read + inn.capacity
  data : ∀ p ∈ s.net x.other, ∀ k n, p.Carries (cfg.isn x).toNat k n →
    k + n ≤ inn.read + inn.capacity ∨ n = 1

section Steps

variable {out : Side → SendStream UInt8} {inn : Side → Reassembly}

/-- An ack and a window that are sent together. -/
theorem Packet.SentFrom.edge {p : Packet} {sock : CmuSocket} {isn peerIsn : ℕ}
    {o : SendStream UInt8} {r : Reassembly} (h : p.SentFrom sock)
    (href : sock.Refines isn peerIsn o r) :
    p.header.ackNum.toNat + p.header.advertisedWindow.toNat ≤ peerIsn + r.read + r.capacity := by
  have hnext := r.next_le
  have hmax : (recvBufferMaxReceive sock.recvBuf).toUInt16.toNat ≤
      r.read + r.capacity - r.next := by
    rw [UInt32.toNat_toUInt16, ← href.recvBuf.recvBufferMaxReceive]
    exact Nat.mod_le _ _
  rw [h.ack, h.window, href.nextSeq]
  omega

theorem Sys.Flow.of_net {x : Side} {o : SendStream UInt8} {r : Reassembly}
    (h : s.Flow cfg o r x) {s' : Sys} (hep : s'.ep = s.ep)
    (hnet : ∀ y, ∀ p ∈ s'.net y, p ∈ s.net y) : s'.Flow cfg o r x where
  advertised p hp := h.advertised p (hnet x p hp)
  believed := hep ▸ h.believed
  data p hp := h.data p (hnet x.other p hp)

/-- An endpoint goes on. -/
theorem Sys.Flow.put (h : ∀ y, s.Flow cfg (out y) (inn y.other) y) {x : Side} {e : Endpoint}
    {packets : List Packet} {o : SendStream UInt8} {i : Reassembly}
    (hc : s.Continues cfg out inn x e packets o i) (hread : (inn x).read ≤ i.read)
    (hbelieved : o.acked + min e.sock.window.rcvdAdvertisedWindow.toNat (o.capacity - 1) <
      (inn x.other).read + (inn x.other).capacity)
    (hdata : ∀ p ∈ packets, ∀ k n, p.Carries (cfg.isn x).toNat k n →
      k + n ≤ (inn x.other).read + (inn x.other).capacity ∨ n = 1) :
    ∀ y, (s.put x (e, packets)).Flow cfg (Function.update out x o y)
      (Function.update inn x i y.other) y := by
  have hne := Side.other_ne x
  have hcap := hc.recvCapacity
  refine Side.forall_of x ?_ ?_
  · rw [Function.update_self, Function.update_of_ne hne]
    -- the packets of `x` stay below the edge of its peer, which has not moved
    refine ⟨?_, ?_, ?_⟩
    · rw [Sys.net_put_self]
      exact (h x).advertised
    · rw [Sys.ep_put_self]
      exact hbelieved
    · rw [Sys.net_put_other]
      intro p hp
      rcases List.mem_append.mp hp with hold | hnew
      · exact (h x).data p hold
      · exact hdata p hnew
  · -- the other direction sees the new right edge
    have hother := h x.other
    rw [Side.other_other] at hother
    rw [Side.other_other, Function.update_self, Function.update_of_ne hne]
    refine ⟨?_, ?_, ?_⟩
    · rw [Sys.net_put_other]
      intro p hp
      rcases List.mem_append.mp hp with hold | hnew
      · have := hother.advertised p hold
        omega
      · exact (hc.sentFrom p hnew).edge hc.refines.sock
    · rw [Sys.ep_put_other]
      have := hother.believed
      omega
    · rw [Side.other_other, Sys.net_put_self]
      intro p hp k n hcar
      have := hother.data p (by rw [Side.other_other]; exact hp) k n hcar
      omega

/-- What is believed bounds what is sent. -/
theorem Sys.Flow.edge {x : Side}
    (hf : s.Flow cfg (out x) (inn x.other) x) {k n : ℕ}
    (hwritten : k + n ≤ (out x).written.length + 1)
    (hedge : k + n ≤ (out x).acked + (s.ep x).sock.window.rcvdAdvertisedWindow.toNat + 1 ∨
      (s.ep x).sock.window.rcvdAdvertisedWindow.toNat = 0 ∧ n = 1) :
    k + n ≤ (inn x.other).read + (inn x.other).capacity ∨
      (s.ep x).sock.window.rcvdAdvertisedWindow.toNat = 0 ∧ n = 1 := by
  have hbelieved := hf.believed
  have hroom := (out x).room
  omega

/-- A step that handles no stale packet with too large a window keeps the right edges in
    order. -/
theorem Sys.Moves.flow {l : Label} {s' : Sys} {out' : Side → SendStream UInt8}
    {inn' : Side → Reassembly} (hm : Sys.Moves cfg s out inn l s' out' inn')
    (h : s.Invariant cfg out inn) (hf : ∀ y, s.Flow cfg (out y) (inn y.other) y)
    (hl : l.WindowFits s) : ∀ y, s'.Flow cfg (out' y) (inn' y.other) y := by
  cases hm with
  | @idle _ x e _ hidle hc =>
    refine Sys.Flow.put hf hc (le_refl _) ?_ (by simp)
    rw [hidle.window]
    exact (hf x).believed
  | @write x e o hc hacked hwindow _ =>
    refine Sys.Flow.put hf hc (le_refl _) ?_ (by simp)
    rw [hwindow, hacked, hc.sendCapacity]
    exact (hf x).believed
  | @read x _ _ e n hn hc hwindow _ =>
    refine Sys.Flow.put hf hc (Nat.le_add_right _ _) ?_ (by simp)
    rw [hwindow]
    exact (hf x).believed
  | @receive x now i p e replies a ha r hp hc hack htakes hreplies hwindow _ =>
    have hmem : p ∈ s.net x := List.mem_of_getElem? hp
    have hadv := (hf x).advertised p hmem
    have hsock := (h.endpoint x).sock
    have hpeer := (h.endpoint x.other).sock.recvBuf
    rw [Side.other_other] at hpeer
    have htake : ∀ y, (s.takePacket x i).Flow cfg (out y) (inn y.other) y :=
      fun y => (hf y).of_net rfl fun _ _ => s.mem_net_takePacket x i
    refine Sys.Flow.put htake hc (le_of_eq htakes.read.symm) ?_ ?_
    · show max (out x).acked a + min _ ((out x).capacity - 1) < _
      rw [hwindow]
      have hfits := hl p hp
      rw [UInt32.le_iff_toNat_le, hsock.lastAck, hsock.sendBuf.capacity, hpeer.capacity,
        hpeer.readSeqnum, hack] at hfits
      have hbelieved := (hf x).believed
      -- the window belongs to the greatest ack, unless the packet is stale
      rcases Nat.lt_or_ge a (out x).acked with hstale | hfresh
      · rw [max_eq_left (Nat.le_of_lt hstale)]
        omega
      · rw [max_eq_right hfresh]
        omega
    · intro q hq k n hcar
      exact absurd (hreplies.sent q hq).2 hcar.len_ne_zero
  | @transmit x now beyond e packets m ht hpc hm hall hc hwindow hedge _ =>
    refine Sys.Flow.put hf hc (le_refl _) ?_ ?_
    · rw [hwindow]
      exact (hf x).believed
    · intro p hp k n hcar
      have hle : k + n ≤ (out x).sent + m + 1 := ((hc.honest p hp).carries hcar).2
      rcases (hf x).edge (show k + n ≤ _ by omega) (hedge p hp k n hcar) with hin | ⟨_, hprobe⟩
      · exact Or.inl hin
      · exact Or.inr hprobe
  | lose => exact fun y => (hf y).of_net rfl fun _ _ => s.mem_net_takePacket _ _
  | duplicate hp => exact fun y => (hf y).of_net rfl fun _ _ => Sys.mem_net_duplicate hp

/-! ## Packets that fit -/

/-- Within the right edges the packets fit. -/
theorem Sys.Flow.flowControlled (h : s.Invariant cfg out inn) (hw : s.NoWrap)
    (hf : ∀ y, s.Flow cfg (out y) (inn y.other) y) (x : Side) : s.FlowControlled x := by
  have hsock := (h.endpoint x).sock
  have hpeer := (h.endpoint x.other).sock.recvBuf
  rw [Side.other_other] at hpeer
  constructor
  -- a packet sent: the window the peer advertised bounds it, or it is the probe of one byte
  case emitted =>
    intro now beyond r hr p hp
    obtain ⟨r', m, hr', hsent⟩ := transmit_spec hsock.sendBuf (hw.sendBuf x) now beyond
    obtain rfl : r' = r := Except.ok.inj (hr'.symm.trans hr)
    obtain ⟨_, k, n, hcar, _, hle, _⟩ := hsent.packets p hp
    have hm := hsent.written
    rw [hcar.seq, hcar.len, hpeer.readSeqnum, hpeer.capacity]
    rcases (hf x).edge (show k + n ≤ _ by omega) (hsent.edge p hp k n hcar) with hin | ⟨hzero, hone⟩
    · left
      omega
    · right
      exact ⟨UInt16.toNat_inj.mp hzero, UInt16.toNat_inj.mp (hcar.len.trans hone)⟩
  -- a packet taken in: an empty one is out of the question, and the rest carries stream bytes
  case taken =>
    intro p hp hlong
    have hne : getPayloadLen p ≠ 0 := by
      intro h0
      rw [h0] at hlong
      exact absurd hlong (by decide)
    obtain ⟨k, hcar, _, hle⟩ := (h.inFlight x p hp).data hne
    have hlen : (getPayloadLen p).toUInt32.toNat = (getPayloadLen p).toNat :=
      UInt16.toNat_toUInt32 _
    have hroom := hsock.sendBuf.noWrap (hw.sendBuf x)
    have hsent := (out x).sent_le_written
    have hwritten := (out x).room
    have hin : k + (getPayloadLen p).toNat ≤ (inn x.other).read + (inn x.other).capacity := by
      rcases (hf x).data p hp k _ hcar with hin | hone
      · exact hin
      · omega
    rw [hpeer.recvBufferCanReceive hcar.seq (by rw [hlen]; exact hcar.pos)
      (by rw [hlen]; omega), hlen]
    split
    · decide
    · split
      · decide
      -- the segment ends inside the window, so the answer is not `1`
      · rw [if_neg (by omega)]
        decide

end Steps

/-! ## Runs -/

/-- **Flow control**: in a run in which no stale packet is handled whose window reaches
    past the right edge, every state is flow controlled in both directions. -/
theorem flow_control (hcfg : cfg.Valid)
    (hroom : ∀ x, cfg.sendCapacity x ≤ cfg.recvCapacity x.other)
    (h : Run (systemFrom cfg.established) Sys.NoWrap tr s)
    (hfits : ∀ p ∈ tr, p.2.WindowFits p.1) :
    ∀ t ∈ visited tr s, ∀ x, t.FlowControlled x := by
  have hall := h.visited_of_steps (C := fun t l => l.WindowFits t)
    (I := fun t => t.NoWrap ∧ ∃ out inn, t.Invariant cfg out inn ∧
      ∀ y, t.Flow cfg (out y) (inn y.other) y) ?_ ?_ hfits
  · intro t ht
    obtain ⟨hw, out, inn, hinv, hf⟩ := hall t ht
    exact Sys.Flow.flowControlled hinv hw hf
  · rintro s rfl hw
    obtain ⟨out, inn, hinv⟩ := hcfg.established hw
    refine ⟨hw, out, inn, hinv, fun x => ⟨by simp [Config.established], ?_, by
      simp [Config.established]⟩⟩
    -- nothing is acknowledged, and the window is no more than the whole ring
    have hacked : (cfg.isn x).toNat = (cfg.isn x).toNat + (out x).acked :=
      (hinv.endpoint x).sock.sendBuf.acked
    have hle := UInt32.le_iff_toNat_le.mp (hroom x)
    have hpos := (hinv.endpoint x).sock.sendBuf.capacity_pos
    rw [← hinv.sendCapacity, ← hinv.recvCapacity] at hle
    omega
  · rintro s l s' ⟨hw, out, inn, hinv, hf⟩ _ hw' hl hstep
    obtain ⟨t, out', inn', ht, hm⟩ := hinv.step hw hstep
    obtain rfl := Except.ok.inj ht
    exact ⟨hw', out', inn', hm.invariant hinv, hm.flow hinv hf hl⟩

/-- Eight bytes for rings that have room for seven: the second window lets two more through,
    and the third is closed, while the application of the client waits to write the last. -/
def closingWindowLabels : List Label :=
  [.writeCall .client [1, 2, 3, 4, 5], .write .client] ++ silentIteration .client (fun _ => 0) ++
    receivingIteration .server 0 ++ [.writeCall .client [6, 7, 8], .write .client] ++
    receivingIteration .client 0 ++ receivingIteration .server 0 ++
    [.read .server 3 .noFlag] ++ receivingIteration .client 0

theorem flow_control_closing : ∃ tr s,
    Run (systemFrom (smallConfig 8).established) Sys.NoWrap tr s ∧
    (s.ep .client).sock.window.lastAckReceived = 108 ∧
    (s.ep .client).sock.window.rcvdAdvertisedWindow = 0 ∧
    (s.ep .client).pending = [8] ∧ ∀ t ∈ visited tr s, ∀ x, t.FlowControlled x := by
  have hinit : Run (systemFrom (smallConfig 8).established) Sys.NoWrap []
      (smallConfig 8).established := .init rfl (by decide)
  have hrun := hinit.exec closingWindowLabels rfl
  exact ⟨_, _, hrun, rfl, rfl, rfl, flow_control (smallConfig_valid (by decide))
    (fun _ => UInt32.le_refl _) hrun (by decide)⟩

/-- Three bytes are sent to a receiver that has room for one. -/
theorem flow_control_exceeded : ∃ tr s,
    Run (systemFrom (smallConfig 5).established) Sys.NoWrap tr s ∧
    ∃ p ∈ s.net .server, getPayloadLen p = 3 ∧
      (s.ep .server).sock.recvBuf.lastByteReadSeqnum.toNat +
        (s.ep .server).sock.recvBuf.capacity.toNat < p.header.seqNum.toNat + 3 ∧
      recvBufferCanReceive (s.ep .server).sock.recvBuf p.header.seqNum
        (getPayloadLen p).toUInt32 = 1 := by
  have hinit : Run (systemFrom (smallConfig 5).established) Sys.NoWrap []
      (smallConfig 5).established := .init rfl (by decide)
  have hrun := hinit.exec staleWindowLabels rfl
  exact ⟨_, _, hrun, _, List.mem_singleton.mpr rfl, rfl, by decide, rfl⟩

end CmuTcp
