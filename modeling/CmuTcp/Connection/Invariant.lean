import CmuTcp.Library.FaultSystem
import CmuTcp.Model.Network
import CmuTcp.Connection.Receiving

/-!
# The Invariant of a Connection

Two established endpoints are two send streams and two reassemblies, and the packets in
flight are honest about them.  One direction of the connection is the stream of `x` and
the reassembly of `x.other`; its numbers are in the order

  acknowledged < next expected <= sent + 1 <= written + 1

and as long as the sender has not copied from outside its ring, the receiver holds, and
its application has been given, the bytes of the stream.

A step of an endpoint keeps this if the endpoint `Continues` its stream and its
reassembly, whatever it did.

1. `Endpoint.Refines` is the part of one endpoint: its buffers refine a stream and a
   reassembly, and a thread that has left did so with everything acknowledged.
2. `Faithful` is the part of one direction that speaks of bytes.  It is about the packets
   in flight, the receiver's ring and what its application has been given at once, because
   a byte moves from one to the next.
3. `Sys.Invariant` puts two of each together.  `Sys.Invariant.put` is the one lemma by which
   every step of an endpoint keeps it; the network only takes packets out or doubles them.
-/

namespace CmuTcp

open CircularBuffer

/-! ## Putting an endpoint back -/

theorem Side.forall_of {P : Side → Prop} (x : Side) (hx : P x) (hother : P x.other) :
    ∀ y, P y := by
  intro y
  cases x <;> cases y <;> assumption

theorem Side.eq_other {x y : Side} (h : y ≠ x) : y = x.other := by
  revert h
  cases x <;> cases y <;> simp [Side.other]

section Put

variable (s : Sys) (x : Side) (r : Endpoint × List Packet) (i : ℕ)

@[simp] theorem Sys.ep_put_self : (s.put x r).ep x = r.1 :=
  Function.update_self ..

@[simp] theorem Sys.ep_put_other : (s.put x r).ep x.other = s.ep x.other :=
  Function.update_of_ne (Side.other_ne x) ..

@[simp] theorem Sys.net_put_self : (s.put x r).net x = s.net x :=
  Function.update_of_ne (Side.other_ne x).symm ..

@[simp] theorem Sys.net_put_other : (s.put x r).net x.other = s.net x.other ++ r.2 :=
  Function.update_self ..

/-- What the other side does, seen from here. -/
theorem Sys.put_other : (s.put x.other r).ep x = s.ep x ∧
    (s.put x.other r).net x = s.net x ++ r.2 := by
  have hep := s.ep_put_other x.other r
  have hnet := s.net_put_other x.other r
  rw [Side.other_other] at hep hnet
  exact ⟨hep, hnet⟩

/-- Taking a packet out leaves some of those that were in flight. -/
theorem Sys.mem_net_takePacket {y : Side} {p : Packet} (h : p ∈ (s.takePacket x i).net y) :
    p ∈ s.net y := by
  by_cases hy : y = x
  · subst hy
    simp only [Sys.takePacket, Function.update_self] at h
    exact List.mem_of_mem_eraseIdx h
  · simpa only [Sys.takePacket, Function.update_of_ne hy] using h

/-- A copy of a packet is one of those that were in flight. -/
theorem Sys.mem_net_duplicate {s : Sys} {x y : Side} {i : ℕ} {p q : Packet}
    (hp : (s.net x)[i]? = some p)
    (h : q ∈ ({ s with net := Function.update s.net x (s.net x ++ [p]) } : Sys).net y) :
    q ∈ s.net y := by
  by_cases hy : y = x
  · subst hy
    simp only [Function.update_self, List.mem_append, List.mem_singleton] at h
    rcases h with h | rfl
    · exact h
    · exact List.mem_of_getElem? hp
  · simpa only [Function.update_of_ne hy] using h

end Put

/-! ## One endpoint -/

/-- An established endpoint and what it refines.  A thread that has left its loop left
    it with everything acknowledged; a process that has died has died in a copy that is
    recorded. -/
structure Endpoint.Refines (e : Endpoint) (isn peerIsn : ℕ) (out : SendStream UInt8)
    (inn : Reassembly) : Prop where
  sock : e.sock.Refines isn peerIsn out inn
  passed : e.passed = out.written ++ e.pending
  pending : e.pending.length < 2 ^ 31
  notEntry : e.pc ≠ .entry
  notHandshake : ∀ packet, e.pc ≠ .handshake packet
  dying : e.sock.dying = true → e.pending = []
  leaving : e.pc = .exitTest true ∨ e.pc = .exited → e.sock.dying = true
  exited : e.pc = .exited → out.acked = out.written.length
  crashed : e.pc = .crashed → e.strayed = true

/-- The exit test of `begin_backend` is exact: no index confusion and no wrap of the sum
    makes it true while a byte is unacknowledged. -/
theorem exitTest_iff {sock : CmuSocket} {isn peerIsn : ℕ} {out : SendStream UInt8}
    {inn : Reassembly} (h : sock.Refines isn peerIsn out inn) (hw : sock.sendBuf.NoWrap)
    (death : Bool) :
    exitTest sock death = true ↔ death = true ∧ out.acked = out.written.length := by
  have hroom := h.sendBuf.noWrap hw
  have hwle := out.written_le
  have hacked := out.acked_le_sent
  have hsent := out.sent_le_written
  have hsum : (getUnacknowledgedCount sock.sendBuf + sendBufferMaxNewDump sock.sendBuf).toNat =
      out.written.length - out.acked := by
    rw [UInt32.toNat_add, h.sendBuf.getUnacknowledgedCount, h.sendBuf.sendBufferMaxNewDump]
    omega
  unfold exitTest
  rw [Bool.and_eq_true_iff, beq_iff_eq, ← UInt32.toNat_inj, hsum, UInt32.toNat_zero]
  exact and_congr_right fun _ => by omega

/-! ## One direction -/

/-- The bytes on their way from a sender that has always copied from inside its ring: in
    flight, in the receiver's ring and in the hands of its application they are those of
    the stream. -/
structure Faithful (isn : ℕ) (out : SendStream UInt8) (net : List Packet)
    (receiver : Endpoint) (inn : Reassembly) : Prop where
  firstLap : out.sent < out.capacity
  inFlight : ∀ p ∈ net, ∀ k n, p.Carries isn k n →
    IsSlice (fromOne out.written) k (getPayload p)
  holds : receiver.sock.recvBuf.Holds inn (fromOne out.written)
  delivered : receiver.delivered = out.written.take inn.read

/-- The sender goes on: it writes, sends the packets `packets`, or takes an ack. -/
theorem Faithful.extend {isn peerIsn next : ℕ} {out out' : SendStream UInt8}
    {net packets : List Packet} {receiver : Endpoint} {inn : Reassembly}
    (h : Faithful isn out net receiver inn) (hwithin : inn.Within out.sent)
    (hhonest : ∀ p ∈ net, p.Honest isn peerIsn out.sent next)
    (hpre : out.written <+: out'.written) (hlap : out'.sent < out'.capacity)
    (hnew : ∀ p ∈ packets, ∀ k n, p.Carries isn k n →
      IsSlice (fromOne out'.written) k (getPayload p)) :
    Faithful isn out' (net ++ packets) receiver inn := by
  have hsent := out.sent_le_written
  refine ⟨hlap, ?_, ?_, ?_⟩
  -- what was in flight has bytes that were sent, which are written already
  · intro p hp k n hcar
    rcases List.mem_append.mp hp with hold | hnew'
    · have hlen := (hhonest p hold).payload
      have hle := ((hhonest p hold).carries hcar).2
      rw [hcar.len] at hlen
      exact (h.inFlight p hold k n hcar).extend hpre (by omega)
    · exact hnew p hnew' k n hcar
  -- what the receiver holds was sent as well, so a longer stream agrees on it
  · obtain ⟨ws, hws⟩ := hpre
    refine h.holds.congr fun k hk => ?_
    have hk' : k ≤ out.sent := by
      rcases hk with ⟨_, hlt⟩ | ⟨y, hy, _, hle⟩
      · have := hwithin.next
        omega
      · exact le_trans hle (hwithin.held y hy)
    rw [← hws, fromOne_append_left ws (by omega)]
  -- and so was what its application has been given
  · obtain ⟨ws, hws⟩ := hpre
    have hread := inn.read_lt_next
    have hnext := hwithin.next
    rw [h.delivered, ← hws, List.take_append_of_le_length (by omega)]

/-! ## The invariant -/

/-- No sequence number of either side wraps around. -/
def Sys.NoWrap (s : Sys) : Prop :=
  (s.ep .client).sock.sendBuf.NoWrap ∧ (s.ep .server).sock.sendBuf.NoWrap

instance (s : Sys) : Decidable s.NoWrap :=
  inferInstanceAs (Decidable (_ ∧ _))

theorem Sys.NoWrap.sendBuf {s : Sys} (h : s.NoWrap) (x : Side) :
    (s.ep x).sock.sendBuf.NoWrap := by
  cases x with
  | client => exact h.1
  | server => exact h.2

/-- The endpoints refine the streams `out` and the reassemblies `inn`, and these and the
    packets in flight fit together. -/
structure Sys.Invariant (cfg : Config) (s : Sys) (out : Side → SendStream UInt8)
    (inn : Side → Reassembly) : Prop where
  endpoint : ∀ x, (s.ep x).Refines (cfg.isn x).toNat (cfg.isn x.other).toNat (out x) (inn x)
  sendCapacity : ∀ x, (out x).capacity = (cfg.sendCapacity x).toNat
  recvCapacity : ∀ x, (inn x).capacity = (cfg.recvCapacity x).toNat
  acked_lt : ∀ x, (out x).acked < (inn x.other).next
  within : ∀ x, (inn x.other).Within (out x).sent
  inFlight : ∀ x, ∀ p ∈ s.net x.other,
    p.Honest (cfg.isn x).toNat (cfg.isn x.other).toNat (out x).sent (inn x).next
  faithful : ∀ x, (s.ep x).strayed = false →
    Faithful (cfg.isn x).toNat (out x) (s.net x.other) (s.ep x.other) (inn x.other)

section Preservation

variable {cfg : Config} {s : Sys} {out : Side → SendStream UInt8} {inn : Side → Reassembly}

/-- Losing and duplicating packets keeps the invariant. -/
theorem Sys.Invariant.of_net (h : s.Invariant cfg out inn) {s' : Sys} (hep : s'.ep = s.ep)
    (hnet : ∀ y, ∀ p ∈ s'.net y, p ∈ s.net y) : s'.Invariant cfg out inn where
  endpoint x := hep ▸ h.endpoint x
  sendCapacity := h.sendCapacity
  recvCapacity := h.recvCapacity
  acked_lt := h.acked_lt
  within := h.within
  inFlight x p hp := h.inFlight x p (hnet _ p hp)
  faithful x hx := by
    rw [hep] at hx ⊢
    have hf := h.faithful x hx
    exact ⟨hf.firstLap, fun p hp => hf.inFlight p (hnet _ p hp), hf.holds, hf.delivered⟩

theorem Sys.Invariant.takePacket (h : s.Invariant cfg out inn) (x : Side) (i : ℕ) :
    (s.takePacket x i).Invariant cfg out inn :=
  h.of_net rfl fun _ _ hp => s.mem_net_takePacket x i hp

/-- An endpoint `x` goes on to `e`, sending `packets`, so that it refines `o` and `i`, and
    these continue the stream and the reassembly that it refined. -/
structure Sys.Continues (cfg : Config) (s : Sys) (out : Side → SendStream UInt8)
    (inn : Side → Reassembly) (x : Side) (e : Endpoint) (packets : List Packet)
    (o : SendStream UInt8) (i : Reassembly) : Prop where
  refines : e.Refines (cfg.isn x).toNat (cfg.isn x.other).toNat o i
  sendCapacity : o.capacity = (out x).capacity
  recvCapacity : i.capacity = (inn x).capacity
  written : (out x).written <+: o.written
  sent : (out x).sent ≤ o.sent
  next : (inn x).next ≤ i.next
  acked_lt : o.acked < (inn x.other).next
  within : i.Within (out x.other).sent
  sentFrom : ∀ p ∈ packets, p.SentFrom e.sock
  honest : ∀ p ∈ packets, p.Honest (cfg.isn x).toNat (cfg.isn x.other).toNat o.sent i.next
  strayed : e.strayed = false → (s.ep x).strayed = false
  stream : e.strayed = false → (out x).sent < (out x).capacity → o.sent < o.capacity ∧
    ∀ p ∈ packets, ∀ k n, p.Carries (cfg.isn x).toNat k n →
      IsSlice (fromOne o.written) k (getPayload p)
  received : (s.ep x.other).strayed = false →
    e.sock.recvBuf.Holds i (fromOne (out x.other).written) ∧
      e.delivered = (out x.other).written.take i.read

theorem Sys.Invariant.put (h : s.Invariant cfg out inn) {x : Side} {e : Endpoint}
    {packets : List Packet} {o : SendStream UInt8} {i : Reassembly}
    (hc : s.Continues cfg out inn x e packets o i) :
    (s.put x (e, packets)).Invariant cfg (Function.update out x o)
      (Function.update inn x i) := by
  have hne := Side.other_ne x
  constructor
  -- the endpoint of `x` has gone on, and that of its peer stays
  case endpoint =>
    refine Side.forall_of x ?_ ?_
    · simpa using hc.refines
    · simpa [Function.update_of_ne hne] using h.endpoint x.other
  case sendCapacity =>
    refine Side.forall_of x ?_ ?_
    · simpa using hc.sendCapacity.trans (h.sendCapacity x)
    · simpa [Function.update_of_ne hne] using h.sendCapacity x.other
  case recvCapacity =>
    refine Side.forall_of x ?_ ?_
    · simpa using hc.recvCapacity.trans (h.recvCapacity x)
    · simpa [Function.update_of_ne hne] using h.recvCapacity x.other
  -- what `x` knows as acknowledged, and what its peer does
  case acked_lt =>
    refine Side.forall_of x ?_ ?_
    · simpa [Function.update_of_ne hne] using hc.acked_lt
    · have hlt := h.acked_lt x.other
      rw [Side.other_other] at hlt
      simpa [Function.update_of_ne hne] using lt_of_lt_of_le hlt hc.next
  case within =>
    refine Side.forall_of x ?_ ?_
    · simpa [Function.update_of_ne hne] using (h.within x).mono hc.sent
    · simpa [Function.update_of_ne hne] using hc.within
  -- the packets towards the peer are the old ones and the new ones
  case inFlight =>
    refine Side.forall_of x ?_ ?_
    · intro p hp
      simp only [Sys.net_put_other, Function.update_self] at hp ⊢
      rcases List.mem_append.mp hp with hold | hnew
      · exact (h.inFlight x p hold).mono hc.sent hc.next
      · exact hc.honest p hnew
    -- those towards `x` are as before, and honest about what it has
    · intro p hp
      have hold := h.inFlight x.other
      simp only [Side.other_other, Sys.net_put_self, Function.update_of_ne hne] at hp hold ⊢
      exact hold p hp
  case faithful =>
    refine Side.forall_of x ?_ ?_
    · -- towards the other side the new packets join those in flight
      intro hx
      simp only [Sys.ep_put_self, Sys.ep_put_other, Sys.net_put_other, Function.update_self,
        Function.update_of_ne hne] at hx ⊢
      have hf := h.faithful x (hc.strayed hx)
      obtain ⟨hlap, hnew⟩ := hc.stream hx hf.firstLap
      exact hf.extend (h.within x) (h.inFlight x) hc.written hlap hnew
    · -- towards `x` no packet is new, but some data may have been taken
      intro hx
      have hf := h.faithful x.other
      simp only [Side.other_other, Sys.ep_put_self, Sys.ep_put_other, Sys.net_put_self,
        Function.update_self, Function.update_of_ne hne] at hx hf ⊢
      obtain ⟨hholds, hdelivered⟩ := hc.received hx
      exact ⟨(hf hx).firstLap, (hf hx).inFlight, hholds, hdelivered⟩

/-- Honest packets with the bytes of the stream may join those in flight. -/
theorem Sys.Invariant.send (h : s.Invariant cfg out inn) (x : Side) {packets : List Packet}
    (hhonest : ∀ p ∈ packets, p.Honest (cfg.isn x).toNat (cfg.isn x.other).toNat (out x).sent
      (inn x).next)
    (hslice : (s.ep x).strayed = false → ∀ p ∈ packets, ∀ k n,
      p.Carries (cfg.isn x).toNat k n → IsSlice (fromOne (out x).written) k (getPayload p)) :
    (s.put x (s.ep x, packets)).Invariant cfg out inn := by
  -- the endpoints stay
  have hep : (s.put x (s.ep x, packets)).ep = s.ep := Function.update_eq_self x s.ep
  constructor
  case endpoint =>
    rw [hep]
    exact h.endpoint
  case sendCapacity => exact h.sendCapacity
  case recvCapacity => exact h.recvCapacity
  case acked_lt => exact h.acked_lt
  case within => exact h.within
  case inFlight =>
    refine Side.forall_of x ?_ ?_
    -- the packets towards the peer are honest, the old ones and the new ones
    · intro p hp
      rw [Sys.net_put_other] at hp
      exact (List.mem_append.mp hp).elim (h.inFlight x p) (hhonest p)
    · intro p hp
      rw [Side.other_other, Sys.net_put_self] at hp
      have hold := h.inFlight x.other p
      rw [Side.other_other] at hold ⊢
      exact hold hp
  case faithful =>
    rw [hep]
    refine Side.forall_of x ?_ ?_
    -- and so are their bytes
    · intro hx
      have hf := h.faithful x hx
      rw [Sys.net_put_other]
      refine ⟨hf.firstLap, fun p hp => ?_, hf.holds, hf.delivered⟩
      exact (List.mem_append.mp hp).elim (hf.inFlight p) (hslice hx p)
    · intro hx
      rw [Side.other_other, Sys.net_put_self]
      have hf := h.faithful x.other hx
      rwa [Side.other_other] at hf

end Preservation

end CmuTcp
