import Mathlib.Data.List.Perm.Basic
import CmuTcp.Datagram.Framed
import CmuTcp.Datagram.Peer
import CmuTcp.Handshake.Lifetime
import CmuTcp.Library.FaultSystem

/-!
# Two Hosts Refine Two Endpoints

Between the hosts of one connection every datagram is a packet with a header that counts
its bytes, so the peeks, the read loops and the queues do not show: what two hosts do with
datagrams is what two endpoints do with packets.  A packet in flight is on the wire, in
the queue of the socket, or in the hands of a read loop.

1. `Host.Reads` lists the places at which a read loop can be with its packet: before the
   peek, behind it, and with all the bytes.  There is one lemma for the `recvfrom` at each.
2. `Udp.Refines` is the relation.  The packets in flight are a permutation of those on the
   way in the three places, because hosts and endpoints take them out in different orders.
3. `Udp.Matches` is what a step of the hosts may be on the packet level.  A `recvfrom` is
   nothing there; the end of a read loop is the step that receives.  A process that dies, or
   an assertion that fails, does so on both levels.
-/

namespace CmuTcp

open FaultSystem

/-! ## A host with a packet at the head of its queue -/

/-- `check_for_data` has read a datagram whose header has the SYN flag. -/
def Host.HandsSyn (h : Host) : Prop :=
  h.ep.pc = .checkData ∧ ∃ loop : ReadLoop, h.reading = some loop ∧
    loop.hdr.plen.toNat ≤ loop.pkt.length ∧ (⟨loop.hdr, []⟩ : Packet).hasFlag synFlagMask = true

/-- The thread is where a peek has a read loop follow. -/
def Endpoint.Peeks (e : Endpoint) : Prop :=
  e.pc = .checkData ∨
    e.sock.type = .tcpListener ∧ e.sock.state ≠ .listen ∧ ∃ packet, e.pc = .handshake packet

/-- The read loop of the host has the packets `read`, and the queue `queued` waits: no loop
    is in progress, or it has peeked at the head of the queue, or it has read a packet. -/
inductive Host.Reads (h : Host) : List Packet → List Packet → Prop
  | idle {queued : List Packet} (hreading : h.reading = none) : Reads h [] queued
  | peeked {p : Packet} {queued : List Packet} (hreading : h.reading = some ⟨p.header, []⟩)
      (hpeeks : h.ep.Peeks) : Reads h [] (p :: queued)
  | read {p : Packet} {queued : List Packet} (hreading : h.reading = some ⟨p.header, p.bytes⟩)
      (hpeeks : h.ep.Peeks) : Reads h [p] queued

section Head

variable {h : Host} {p : Packet} {source : SockAddr} {rest : List Datagram} {now : Int}

theorem Packet.Framed.header_len (hp : p.Framed) :
    ¬ p.bytes.length < headerLen.toNat ∧ 0 < p.header.plen.toNat := by
  have hlen := hp.length_bytes
  have hhdr : headerLen.toNat = 25 := rfl
  rw [Packet.Framed, hhdr] at hp
  omega

theorem Packet.Framed.parseHeader_take (hp : p.Framed) :
    parseHeader (p.bytes.take headerLen.toNat) = p.header ∧
      (p.bytes.take headerLen.toNat).length = headerLen.toNat := by
  have hhdr : headerLen.toNat = 25 := rfl
  constructor
  · rw [CmuTcp.parseHeader_take _ (Nat.le_of_eq hhdr.symm)]
    exact parseHeader_bytes p.header p.body
  · rw [List.length_take]
    exact Nat.min_eq_left (Nat.not_lt.mp hp.header_len.1)

/-- The peek of a read loop. -/
theorem Host.recvfrom_peek (now : Int) (hp : p.Framed)
    (hqueue : h.queue = p.datagram source :: rest) (hreading : h.reading = none)
    (hpeeks : h.ep.Peeks) :
    h.recvfrom now = some (.ok { h with
      ep := { h.ep with sock := h.ep.sock.heardFrom source }
      reading := some ⟨p.header, []⟩ }) ∧ h.recvfromSends now = [] := by
  obtain ⟨hparse, hlen⟩ := hp.parseHeader_take
  rw [hp.datagram] at hqueue
  rcases hpeeks with hpc | ⟨htype, hlisten, packet, hpc⟩
  · simp only [Host.recvfrom, Host.recvfromSends, hqueue, hreading, hpc, hparse, hlen, ge_iff_le,
      le_refl, if_true, and_self]
  · have htype' : (h.ep.sock.heardFrom source).type = .tcpListener := htype
    have hlisten' : (h.ep.sock.heardFrom source).state ≠ .listen := hlisten
    simp only [Host.recvfrom, Host.recvfromSends, hqueue, hreading, hpc, hparse, hlen, htype',
      if_true, hlisten', false_and, if_false, and_self]

/-- The `recvfrom` of a read loop takes the packet. -/
theorem Host.recvfrom_read (now : Int) (hp : p.Framed)
    (hqueue : h.queue = p.datagram source :: rest) (hreading : h.reading = some ⟨p.header, []⟩) :
    h.recvfrom now = some (.ok { h with
      ep := { h.ep with sock := h.ep.sock.heardFrom source }
      queue := rest, reading := some ⟨p.header, p.bytes⟩ }) ∧ h.recvfromSends now = [] := by
  have hpos : 0 < p.bytes.length := by
    rw [hp.length_bytes]
    exact hp.header_len.2
  rw [hp.datagram] at hqueue
  simp only [Host.recvfrom, Host.recvfromSends, hqueue, hreading, List.length_nil, hpos, if_true,
    Nat.sub_zero, List.nil_append, ← hp.length_bytes, List.take_length, and_self]

/-- A handshake that reads the header alone takes the packet as the packet level does. -/
theorem Host.recvfrom_header (now : Int) (hp : p.Framed)
    (hqueue : h.queue = p.datagram source :: rest) (hreading : h.reading = none)
    {packet : Option Packet} (hpc : h.ep.pc = .handshake packet)
    (htype : h.ep.sock.type = .tcpInitiator ∨
      h.ep.sock.type = .tcpListener ∧ h.ep.sock.state = .listen) :
    ∃ r, backendReceive h.ep now source p = some r ∧
      h.recvfrom now = some ({ h with queue := rest }.putResult r) ∧
      h.recvfromSends now = sentBy r := by
  obtain ⟨hparse, hlen⟩ := hp.parseHeader_take
  rw [hp.datagram] at hqueue
  -- the two handshakes read the header alone in the same way
  rcases htype with htype | ⟨htype, hlisten⟩
  · have htype' : (h.ep.sock.heardFrom source).type = .tcpInitiator := htype
    refine ⟨clientIteration { h.ep with sock := h.ep.sock.heardFrom source } packet (some p), ?_,
      ?_, ?_⟩
    · simp only [backendReceive, hpc, htype']
    · simp only [Host.recvfrom, hqueue, hreading, hpc, htype', hlen, hparse, if_true]
      rfl
    · simp only [Host.recvfromSends, hqueue, hreading, hpc, htype', hlen, hparse, if_true]
      rfl
  · have htype' : (h.ep.sock.heardFrom source).type = .tcpListener := htype
    have hlisten' : (h.ep.sock.heardFrom source).state = .listen := hlisten
    refine ⟨serverIteration { h.ep with sock := h.ep.sock.heardFrom source } packet p now, ?_,
      ?_, ?_⟩
    · simp only [backendReceive, hpc, htype']
    · simp only [Host.recvfrom, hqueue, hreading, hpc, htype', hlisten', hlen, hparse, if_true]
      simp only [serverIteration, hlisten', if_true]
      rfl
    · simp only [Host.recvfromSends, hqueue, hreading, hpc, htype', hlisten', hlen, hparse,
        and_self, if_true]
      simp only [serverIteration, hlisten', if_true]
      rfl

theorem backendReceive_checkData {e : Endpoint} (hpc : e.pc = .checkData) :
    backendReceive e now e.sock.conn p = some (checkForData e (some p) now) := by
  unfold backendReceive
  dsimp only
  split
  case h_1 packet hhandshake => exact absurd (hhandshake.symm.trans hpc) (by simp)
  case h_2 => rfl
  case h_3 hother => exact absurd hpc hother

theorem backendReceive_handshake {e : Endpoint} {packet : Option Packet}
    (hpc : e.pc = .handshake packet) (htype : e.sock.type = .tcpListener) :
    backendReceive e now e.sock.conn p = some (serverIteration e packet p now) := by
  unfold backendReceive
  dsimp only
  split
  case h_1 packet' hhandshake =>
    obtain rfl := BackendPc.handshake.inj (hhandshake.symm.trans hpc)
    split
    case h_1 hinitiator => exact absurd (htype.symm.trans hinitiator) (by decide)
    case h_2 => rfl
  case h_2 hcheck => exact absurd (hcheck.symm.trans hpc) (by simp)
  case h_3 hother _ => exact absurd hpc (hother packet)

/-- A read loop that has its packet hands it over. -/
theorem Host.backend_read (now : Int) (hp : p.Framed)
    (hreading : h.reading = some ⟨p.header, p.bytes⟩) (hpeeks : h.ep.Peeks)
    (hconn : h.ep.sock.conn = source) (beyond : ℕ → UInt8) :
    ∃ r, backendReceive h.ep now source p = some r ∧
      h.backend now beyond = some ({ h with reading := none }.putResult r) ∧
      h.backendSends now beyond = sentBy r := by
  have hwhole : ¬ p.bytes.length < p.header.plen.toNat := by rw [hp.length_bytes]; omega
  have hhdr := hp.header_len.1
  have hpkt : (⟨p.header, p.bytes.drop headerLen.toNat⟩ : Packet) = p := by
    have hdrop : p.bytes.drop headerLen.toNat = p.body := List.drop_left' (by simp [headerLen])
    rw [hdrop]
  subst hconn
  rcases hpeeks with hpc | ⟨htype, _, packet, hpc⟩
  · refine ⟨checkForData h.ep (some p) now, ?_, ?_, ?_⟩
    · exact backendReceive_checkData hpc
    · simp only [Host.backend, hreading, if_neg hwhole, hpc, if_neg hhdr, hpkt]
    · simp only [Host.backendSends, hreading, hpc, hpkt]
  · refine ⟨serverIteration h.ep packet p now, ?_, ?_, ?_⟩
    · exact backendReceive_handshake hpc htype
    · simp only [Host.backend, hreading, if_neg hwhole, hpc, hpkt]
      rw [if_neg fun hshort => hhdr hshort.2]
    · simp only [Host.backendSends, hreading, hpc, hpkt]

end Head

/-! ## Packets received -/

section Received

variable {e e' : Endpoint} {now : Int} {source : SockAddr} {p : Packet} {packets : List Packet}

theorem backendReceive_conn (h : backendReceive e now source p = some (.ok (e', packets))) :
    e'.sock.conn = source := by
  unfold backendReceive at h
  dsimp only at h
  split at h
  case h_1 =>
    split at h
    · have hiteration := Option.some.inj h
      exact clientIteration_conn hiteration
    · have hiteration := Option.some.inj h
      exact serverIteration_conn hiteration
  case h_2 =>
    have hcheck := Option.some.inj h
    exact checkForData_conn hcheck
  case h_3 => exact absurd h (by simp)

theorem Endpoint.KeepsFramed.receive (hkeeps : e.KeepsFramed)
    (h : backendReceive e now source p = some (.ok (e', packets))) :
    e'.KeepsFramed ∧ ∀ q ∈ packets, q.Framed := by
  have hheard : ({ e with sock := e.sock.heardFrom source } : Endpoint).KeepsFramed := hkeeps
  unfold backendReceive at h
  dsimp only at h
  split at h
  case h_1 packet hpc =>
    have hpc' : ({ e with sock := e.sock.heardFrom source } : Endpoint).pc =
      .handshake packet := hpc
    split at h
    · have hiteration := Option.some.inj h
      exact clientIteration_framed hiteration
    · have hiteration := Option.some.inj h
      exact serverIteration_framed hpc' hheard hiteration
  case h_2 =>
    have hcheck := Option.some.inj h
    exact checkForData_framed hcheck
  case h_3 => exact absurd h (by simp)

end Received

/-! ## The refinement -/

/-- The packets on their way to `x`: in the hands of its read loop, in the queue of its
    socket, and on the wire. -/
def Udp.OnTheWay (u : Udp) (x : Side) (packets : List Packet) : Prop :=
  ∃ read queued flying : List Packet, (u.host x).Reads read queued ∧
    (u.host x).queue = queued.map (Packet.datagram (u.addr x.other)) ∧
    u.wire x = flying.map (Packet.datagram (u.addr x.other)) ∧
    packets.Perm (read ++ queued ++ flying)

/-- Two hosts refine two endpoints that talk to each other. -/
structure Udp.Refines (u : Udp) (cfg : Config) (s : Sys) : Prop where
  ep : ∀ x, (u.host x).ep = s.ep x
  addr : s.addr = u.addr
  staged : s.Staged cfg
  conn : ∀ x, (s.ep x).sock.conn = s.addr x.other ∨ x = .server ∧ (s.ep x).Unopened cfg x
  keeps : ∀ x, (s.ep x).KeepsFramed
  framed : ∀ x, ∀ p ∈ s.net x, p.Framed
  onTheWay : ∀ x, u.OnTheWay x (s.net x)
  sentTo : ∀ x, ∀ a ∈ (u.host x).sentTo, a = s.addr x.other

/-- What a step of the hosts is on the packet level: nothing, or a step with the same
    outcome, which delivers a SYN to an endpoint in its loop only if `D`. -/
def Udp.Matches (cfg : Config) (s : Sys) (D : Prop) (r : Except HostFault Udp) : Prop :=
  (∃ u', r = .ok u' ∧ u'.Refines cfg s) ∨ ∃ l' r', s.step l' = some r' ∧
    (l'.DeliversSyn s → D) ∧ ((∃ f, r = .error (.fault f) ∧ r' = .error f) ∨
      ∃ u' s', r = .ok u' ∧ r' = .ok s' ∧ u'.Refines cfg s')

theorem Udp.Matches.imp {cfg : Config} {s : Sys} {D D' : Prop} {r : Except HostFault Udp}
    (h : Udp.Matches cfg s D r) (hD : D → D') : Udp.Matches cfg s D' r :=
  Or.imp id (fun ⟨l', r', hstep, hsyn, hr⟩ => ⟨l', r', hstep, fun hl => hD (hsyn hl), hr⟩) h

section Refines

variable {cfg : Config} {u : Udp} {s : Sys} {x : Side}

theorem Udp.put_nil (u : Udp) (x : Side) (h : Host) :
    u.put x h [] = { u with host := Function.update u.host x h } := by
  have hwire : (if h.ep.sock.conn = u.addr x.other then
      ([] : List Packet).map (Packet.datagram (u.addr x)) else []) = [] := ite_self []
  rw [Udp.put, hwire, List.append_nil, Function.update_eq_self]

/-- The host `x` and the wire to it change in where the packets on their way to it are, and
    in which there are, and its endpoint stays. -/
theorem Udp.Refines.moved (h : u.Refines cfg s) {t : Sys} {h' : Host} {w : List Datagram}
    (hep : t.ep = s.ep) (haddr : t.addr = s.addr) (hother : t.net x.other = s.net x.other)
    (hless : ∀ p ∈ t.net x, p ∈ s.net x) (hstaged : t.Staged cfg)
    (hsame : h'.ep = (u.host x).ep) (hsent : h'.sentTo = (u.host x).sentTo)
    (hway : ∃ read queued flying : List Packet, h'.Reads read queued ∧
      h'.queue = queued.map (Packet.datagram (u.addr x.other)) ∧
      w = flying.map (Packet.datagram (u.addr x.other)) ∧
      (t.net x).Perm (read ++ queued ++ flying)) :
    ({ u with
      host := Function.update u.host x h'
      wire := Function.update u.wire x w } : Udp).Refines cfg t := by
  have hne := Side.other_ne x
  -- only the host `x` and the wire to it have changed
  constructor
  case ep =>
    rw [hep]
    refine Side.forall_of x ?_ ?_
    · simpa using hsame.trans (h.ep x)
    · simpa [Function.update_of_ne hne] using h.ep x.other
  case addr => exact haddr.trans h.addr
  case staged => exact hstaged
  -- the endpoints and their addresses are those of before
  case conn =>
    rw [hep, haddr]
    exact h.conn
  case keeps =>
    rw [hep]
    exact h.keeps
  case framed =>
    refine Side.forall_of x (fun p hp => h.framed x p (hless p hp)) ?_
    rw [hother]
    exact h.framed x.other
  -- the packets on their way to `x` are in the places given, and those to its peer stay
  case onTheWay =>
    refine Side.forall_of x ?_ ?_
    · simpa [Udp.OnTheWay] using hway
    · rw [hother]
      simpa [Udp.OnTheWay, Function.update_of_ne hne] using h.onTheWay x.other
  case sentTo =>
    rw [haddr]
    refine Side.forall_of x ?_ ?_
    · simpa [hsent] using h.sentTo x
    · simpa [Function.update_of_ne hne] using h.sentTo x.other

/-- The endpoint of the host `x` goes on to `e` and sends `packets`. -/
theorem Udp.Refines.put (h : u.Refines cfg s) {h' : Host} {t : Sys} {e : Endpoint}
    {packets : List Packet} (hep : t.ep = s.ep) (haddr : t.addr = s.addr)
    (hother : t.net x.other = s.net x.other) (hless : ∀ p ∈ t.net x, p ∈ s.net x)
    (hsent : h'.sentTo = (u.host x).sentTo)
    (hway : ∃ read queued flying : List Packet, ({ h' with ep := e } : Host).Reads read queued ∧
      h'.queue = queued.map (Packet.datagram (u.addr x.other)) ∧
      u.wire x = flying.map (Packet.datagram (u.addr x.other)) ∧
      (t.net x).Perm (read ++ queued ++ flying))
    (hconn : e.sock.conn = s.addr x.other ∨
      packets = [] ∧ x = .server ∧ e.Unopened cfg x)
    (hkeeps : e.KeepsFramed) (hpackets : ∀ p ∈ packets, p.Framed)
    (hstaged : (t.put x (e, packets)).Staged cfg) :
    (u.put x (h'.put (e, packets)) packets).Refines cfg (t.put x (e, packets)) := by
  have hne := Side.other_ne x
  -- the endpoint of `x`, and the packets that it sends to its peer
  constructor
  case ep =>
    refine Side.forall_of x ?_ ?_
    · simp [Udp.put, Host.put]
    · simpa [Udp.put, Function.update_of_ne hne, hep] using h.ep x.other
  case addr => exact haddr.trans h.addr
  case staged => exact hstaged
  -- the address it talks to
  case conn =>
    show ∀ y, ((t.put x (e, packets)).ep y).sock.conn = t.addr y.other ∨ _
    rw [haddr]
    refine Side.forall_of x ?_ ?_
    · rw [Sys.ep_put_self]
      exact hconn.imp id fun ⟨_, hx, hu⟩ => ⟨hx, hu⟩
    · rw [Sys.ep_put_other, hep]
      exact h.conn x.other
  case keeps =>
    refine Side.forall_of x ?_ ?_
    · rwa [Sys.ep_put_self]
    · rw [Sys.ep_put_other, hep]
      exact h.keeps x.other
  -- what is in flight to the peer was framed before, or has just been sent
  case framed =>
    refine Side.forall_of x ?_ ?_
    · intro p hp
      rw [Sys.net_put_self] at hp
      exact h.framed x p (hless p hp)
    · intro p hp
      rw [Sys.net_put_other, hother] at hp
      exact (List.mem_append.mp hp).elim (h.framed x.other p) (hpackets p)
  case onTheWay =>
    refine Side.forall_of x ?_ ?_
    -- the host keeps its read loop, its queue and its wire
    · obtain ⟨read, queued, flying, hreads, hqueue, hwire, hperm⟩ := hway
      refine ⟨read, queued, flying, ?_, ?_, ?_, ?_⟩
      · simp only [Udp.put, Function.update_self]
        cases hreads with
        | idle hreading => exact .idle hreading
        | peeked hreading hpeeks => exact .peeked hreading hpeeks
        | read hreading hpeeks => exact .read hreading hpeeks
      · simpa [Udp.put, Host.put] using hqueue
      · simpa [Udp.put, Function.update_of_ne hne.symm] using hwire
      · rwa [Sys.net_put_self]
    -- the wire to the peer gets the datagrams of the new packets
    · obtain ⟨read, queued, flying, hreads, hqueue, hwire, hperm⟩ := h.onTheWay x.other
      refine ⟨read, queued, flying ++ packets, ?_, ?_, ?_, ?_⟩
      · simpa [Udp.put, Function.update_of_ne hne] using hreads
      · simpa [Udp.put, Function.update_of_ne hne] using hqueue
      · rw [Side.other_other] at hwire ⊢
        simp only [Udp.put, Function.update_self, hwire, List.map_append]
        -- they go to the peer's address, or there are none
        rcases hconn with hconn | ⟨rfl, _⟩
        · rw [if_pos]
          exact hconn.trans (congrFun h.addr x.other)
        · simp
      · rw [Sys.net_put_other, hother, ← List.append_assoc]
        exact hperm.append_right packets
  case sentTo =>
    show ∀ y : Side, ∀ a ∈ _, a = t.addr y.other
    rw [haddr]
    refine Side.forall_of x ?_ ?_
    · intro a ha
      simp only [Udp.put, Function.update_self, Host.put, List.mem_append, List.mem_map, hsent]
        at ha
      -- and so does the record of where packets have been sent
      rcases ha with hold | ⟨p, hp, rfl⟩
      · exact h.sentTo x a hold
      · rcases hconn with hconn | ⟨rfl, _⟩
        · exact hconn
        · exact absurd hp (by simp)
    · simpa [Udp.put, Function.update_of_ne hne] using h.sentTo x.other

/-! ## Steps of a host that are steps of its endpoint -/

/-- A packet that is on its way is one of those in flight. -/
theorem exists_getElem?_of_perm {α : Type} {l rest : List α} {a : α} (h : l.Perm (a :: rest)) :
    ∃ i, l[i]? = some a ∧ (l.eraseIdx i).Perm rest := by
  obtain ⟨i, hi⟩ := List.getElem?_of_mem (h.mem_iff.mpr List.mem_cons_self)
  obtain ⟨hlt, rfl⟩ := List.getElem?_eq_some_iff.mp hi
  exact ⟨i, hi, List.Perm.cons_inv ((List.getElem_cons_eraseIdx_perm hlt).trans h)⟩

variable {now : Int} {beyond : ℕ → UInt8}

/-- The host hands a packet to its endpoint. -/
theorem Udp.Refines.receive (h : u.Refines cfg s) (hlt : (cfg.isn .server).toNat < 2 ^ 31)
    {p : Packet} (h' : Host) {queued flying : List Packet}
    (hsent : h'.sentTo = (u.host x).sentTo) (hreading : h'.reading = none)
    (hqueue : h'.queue = queued.map (Packet.datagram (u.addr x.other)))
    (hwire : u.wire x = flying.map (Packet.datagram (u.addr x.other)))
    (hperm : (s.net x).Perm (p :: (queued ++ flying)))
    {r : Except Fault (Endpoint × List Packet)}
    (hr : backendReceive (s.ep x) now (s.addr x.other) p = some r) :
    Udp.Matches cfg s ((s.ep x).pc = .checkData ∧ p.hasFlag synFlagMask = true)
      ((h'.putResult r).map fun h' => u.put x h' (sentBy r)) := by
  have hne := Side.other_ne x
  -- the packet that the host hands over is one of those in flight
  obtain ⟨i, hi, hrest⟩ := exists_getElem?_of_perm hperm
  have hstep : s.step (.receive x now i) = some (r.map ((s.takePacket x i).put x)) := by
    simp only [Sys.step, hi, hr, Option.map_some]
  have hsyn : (Label.receive x now i).DeliversSyn s →
      (s.ep x).pc = .checkData ∧ p.hasFlag synFlagMask = true := by
    rintro ⟨hpc, q, hq, hflag⟩
    obtain rfl := Option.some.inj (hi.symm.trans hq)
    exact ⟨hpc, hflag⟩
  refine Or.inr ⟨_, _, hstep, hsyn, ?_⟩
  -- both levels fail alike, or both go on with the same endpoint
  cases r with
  | error f => exact Or.inl ⟨f, rfl, rfl⟩
  | ok pair =>
    obtain ⟨e, packets⟩ := pair
    obtain ⟨hkeeps, hframed⟩ := (h.keeps x).receive hr
    -- the read loop is over, and the packet is gone from the queue and from the network
    refine Or.inr ⟨_, _, rfl, rfl, h.put rfl rfl (Function.update_of_ne hne ..)
      (fun _ => s.mem_net_takePacket x i) hsent ⟨[], queued, flying, .idle hreading, hqueue, hwire,
        ?_⟩ (Or.inl (backendReceive_conn hr)) hkeeps hframed
      ((h.staged.step hlt hstep).next _ rfl).1⟩
    simpa [Sys.takePacket] using hrest

/-- The host lets its endpoint take a step without a packet. -/
theorem Udp.Refines.silent (h : u.Refines cfg s) (hlt : (cfg.isn .server).toNat < 2 ^ 31)
    (hreading : (u.host x).reading = none) {r : Except Fault (Endpoint × List Packet)}
    (hr : backendSilent (s.ep x) now beyond = some r) :
    Udp.Matches cfg s False
      (((u.host x).putResult r).map fun h' => u.put x h' (sentBy r)) := by
  have hstep : s.step (.backend x now beyond) = some (r.map (s.put x)) := by
    simp only [Sys.step, hr, Option.map_some]
  refine Or.inr ⟨_, _, hstep, id, ?_⟩
  cases r with
  | error f => exact Or.inl ⟨f, rfl, rfl⟩
  | ok pair =>
    obtain ⟨e, packets⟩ := pair
    obtain ⟨hkeeps, hframed⟩ := (h.keeps x).silent hr
    -- no read loop is in progress, so the packets are where they were
    obtain ⟨read, queued, flying, hreads, hqueue, hwire, hperm⟩ := h.onTheWay x
    have hway : ∃ read queued flying : List Packet,
        ({ u.host x with ep := e } : Host).Reads read queued ∧
        (u.host x).queue = queued.map (Packet.datagram (u.addr x.other)) ∧
        u.wire x = flying.map (Packet.datagram (u.addr x.other)) ∧
        (s.net x).Perm (read ++ queued ++ flying) := by
      cases hreads with
      | idle _ => exact ⟨[], queued, flying, .idle hreading, hqueue, hwire, hperm⟩
      | peeked hloop _ => exact absurd (hreading.symm.trans hloop) (by simp)
      | read hloop _ => exact absurd (hreading.symm.trans hloop) (by simp)
    -- a server that has not heard from the client sends nothing
    have hconn : e.sock.conn = s.addr x.other ∨
        packets = [] ∧ x = .server ∧ e.Unopened cfg x := by
      rcases h.conn x with hconn | ⟨rfl, hx⟩
      · exact Or.inl ((backendSilent_conn hr).trans hconn)
      · obtain ⟨e', packets', heq, he, hsyn⟩ := hx.backendSilent hr
        obtain ⟨rfl, rfl⟩ := Prod.mk.inj (Except.ok.inj heq)
        refine Or.inr ⟨List.eq_nil_iff_forall_not_mem.mpr fun q hq => ?_, rfl, he⟩
        exact absurd (hsyn q hq).1 (by decide)
    exact Or.inr ⟨_, _, rfl, rfl, h.put rfl rfl rfl (fun _ hp => hp) rfl hway hconn hkeeps hframed
      ((h.staged.step hlt hstep).next _ rfl).1⟩

/-- The application of the host takes a step. -/
theorem Udp.Refines.app (h : u.Refines cfg s) (hlt : (cfg.isn .server).toNat < 2 ^ 31)
    {l : Label} {r : Except Fault Endpoint}
    (hstep : s.step l = some (r.map fun e => s.put x (e, []))) (hsyn : ¬ l.DeliversSyn s)
    (happ : (s.ep x).AppStep r)
    (hsame : ∀ e, r = .ok e → e.sock.conn = (s.ep x).sock.conn) :
    Udp.Matches cfg s False (((u.host x).putResult (r.map fun e => (e, []))).map
      fun h' => u.put x h' []) := by
  refine Or.inr ⟨_, _, hstep, hsyn, ?_⟩
  cases r with
  | error f => exact Or.inl ⟨f, rfl, rfl⟩
  | ok e =>
    obtain ⟨hcontrol, hpc⟩ := happ.same e rfl
    obtain ⟨read, queued, flying, hreads, hqueue, hwire, hperm⟩ := h.onTheWay x
    -- the application leaves the program counter, so a read loop stays one
    have hpeeks : (u.host x).ep.Peeks → e.Peeks := by
      rw [h.ep x]
      unfold Endpoint.Peeks
      rw [hpc, hcontrol.type, hcontrol.state]
      exact id
    have hreads' : ({ u.host x with ep := e } : Host).Reads read queued := by
      cases hreads with
      | idle hreading => exact .idle hreading
      | peeked hreading hp => exact .peeked hreading (hpeeks hp)
      | read hreading hp => exact .read hreading (hpeeks hp)
    -- and it needs a socket that has heard from its peer
    have hconn : e.sock.conn = s.addr x.other := by
      rcases h.conn x with hconn | ⟨rfl, hx⟩
      · exact (hsame e rfl).trans hconn
      · exact absurd happ hx.not_appStep
    have hkeeps : e.KeepsFramed := fun packet hhandshake =>
      h.keeps x packet (hpc.symm.trans hhandshake)
    exact Or.inr ⟨_, _, rfl, rfl, h.put rfl rfl rfl (fun _ hp => hp) rfl
      ⟨read, queued, flying, hreads', hqueue, hwire, hperm⟩ (Or.inl hconn) hkeeps (by simp)
      ((h.staged.step hlt hstep).next _ rfl).1⟩

/-! ## Every step -/

/-- Where a read loop follows, the peer has been heard from. -/
theorem Udp.Refines.heardFrom_of_peeks (h : u.Refines cfg s) (hpeeks : (u.host x).ep.Peeks) :
    ({ (u.host x).ep with sock := (u.host x).ep.sock.heardFrom (u.addr x.other) } : Endpoint) =
      (u.host x).ep := by
  have hconn : (u.host x).ep.sock.conn = u.addr x.other := by
    rw [h.ep x, ← congrFun h.addr x.other]
    rcases h.conn x with hconn | ⟨rfl, hx⟩
    · exact hconn
    · rw [h.ep] at hpeeks
      rcases hx.pc with ⟨hpc, _⟩ | ⟨packet, hpc, hstate, _⟩
      · rcases hpeeks with hcheck | ⟨_, _, packet, hhandshake⟩
        · exact absurd (hpc.symm.trans hcheck) (by simp)
        · exact absurd (hpc.symm.trans hhandshake) (by simp)
      · rcases hpeeks with hcheck | ⟨_, hlisten, _⟩
        · exact absurd (hpc.symm.trans hcheck) (by simp)
        · exact absurd hstate hlisten
  rw [← hconn]
  rfl

/-- A `recvfrom` of the host. -/
theorem Udp.Refines.recvfrom (h : u.Refines cfg s) (hlt : (cfg.isn .server).toNat < 2 ^ 31)
    {r : Except HostFault Host} (hr : (u.host x).recvfrom now = some r) :
    Udp.Matches cfg s False (r.map fun h' => u.put x h' ((u.host x).recvfromSends now)) := by
  have hep := h.ep x
  have haddr : u.addr x.other = s.addr x.other := (congrFun h.addr x.other).symm
  obtain ⟨read, queued, flying, hreads, hqueue, hwire, hperm⟩ := h.onTheWay x
  -- nothing but the place of the packets changes
  have hstutter : ∀ {h' : Host} {read queued : List Packet}, h'.ep = (u.host x).ep →
      h'.sentTo = (u.host x).sentTo → h'.Reads read queued →
      h'.queue = queued.map (Packet.datagram (u.addr x.other)) →
      (s.net x).Perm (read ++ queued ++ flying) →
      (u.put x h' []).Refines cfg s := by
    intro h' read queued hsame hsent hreads hqueue hperm
    have hhost := h.moved rfl rfl rfl (fun _ hp => hp) h.staged hsame hsent
      ⟨read, queued, flying, hreads, hqueue, rfl, hperm⟩
    rw [← hwire, Function.update_eq_self] at hhost
    rwa [Udp.put_nil]
  cases hreads with
  | @read p queued hreading hpeeks =>
    -- the loop has all its bytes
    have hp := h.framed x p (hperm.mem_iff.mpr (by simp))
    have hwhole : ¬ p.bytes.length < p.header.plen.toNat := by rw [hp.length_bytes]; omega
    rw [Host.recvfrom, hreading] at hr
    split at hr
    · exact absurd hr (by simp)
    · dsimp only at hr
      rw [if_neg hwhole] at hr
      exact absurd hr (by simp)
  | @peeked p queued hreading hpeeks =>
    have hp := h.framed x p (hperm.mem_iff.mpr (by simp))
    obtain ⟨hrecv, hsends⟩ := Host.recvfrom_read now hp hqueue hreading
    obtain rfl := Option.some.inj (hrecv.symm.trans hr)
    have hsame := h.heardFrom_of_peeks hpeeks
    refine Or.inl ⟨_, rfl, ?_⟩
    rw [hsends, hsame]
    exact hstutter rfl rfl (.read rfl hpeeks) rfl hperm
  | idle hreading =>
    cases queued with
    | nil =>
      rw [Host.recvfrom, hqueue] at hr
      exact absurd hr (by simp)
    | cons p queued =>
      have hp := h.framed x p (hperm.mem_iff.mpr (by simp))
      -- a peek leaves the packet in the queue
      have hpeek : (u.host x).ep.Peeks →
          Udp.Matches cfg s False (r.map fun h' =>
            u.put x h' ((u.host x).recvfromSends now)) := by
        intro hpeeks
        obtain ⟨hrecv, hsends⟩ := Host.recvfrom_peek now hp hqueue hreading hpeeks
        obtain rfl := Option.some.inj (hrecv.symm.trans hr)
        have hsame := h.heardFrom_of_peeks hpeeks
        refine Or.inl ⟨_, rfl, ?_⟩
        rw [hsends, hsame]
        exact hstutter rfl rfl (.peeked rfl hpeeks) hqueue hperm
      -- a header that is read is the whole of the packet
      have hread : ∀ packet, (u.host x).ep.pc = .handshake packet →
          ((u.host x).ep.sock.type = .tcpInitiator ∨ (u.host x).ep.sock.type = .tcpListener ∧
            (u.host x).ep.sock.state = .listen) →
          Udp.Matches cfg s False (r.map fun h' =>
            u.put x h' ((u.host x).recvfromSends now)) := by
        intro packet hpc htype
        obtain ⟨r', hreceive, hrecv, hsends⟩ :=
          Host.recvfrom_header now hp hqueue hreading hpc htype
        obtain rfl := Option.some.inj (hrecv.symm.trans hr)
        rw [hep, haddr] at hreceive
        rw [hsends]
        refine (h.receive hlt { u.host x with
          queue := queued.map (Packet.datagram (u.addr x.other)) } rfl hreading rfl hwire hperm
          hreceive).imp fun hsyn => ?_
        rw [hep] at hpc
        exact absurd (hpc.symm.trans hsyn.1) (by simp)
      match hpc : (u.host x).ep.pc with
      | .checkData => exact hpeek (Or.inl hpc)
      | .handshake packet =>
        match htype : (u.host x).ep.sock.type with
        | .tcpInitiator => exact hread packet hpc (Or.inl htype)
        | .tcpListener =>
          by_cases hlisten : (u.host x).ep.sock.state = .listen
          · exact hread packet hpc (Or.inr ⟨htype, hlisten⟩)
          · exact hpeek (Or.inr ⟨htype, hlisten, packet, hpc⟩)
      | .entry | .loopTop | .exitTest _ | .transmit | .exited | .crashed =>
        simp only [Host.recvfrom, hqueue, List.map_cons, hreading, hpc] at hr
        exact absurd hr (by simp)

/-- A step of the thread of the host without a `recvfrom`. -/
theorem Udp.Refines.backend (h : u.Refines cfg s) (hlt : (cfg.isn .server).toNat < 2 ^ 31)
    {r : Except HostFault Host} (hr : (u.host x).backend now beyond = some r) :
    Udp.Matches cfg s ((u.host x).HandsSyn)
      (r.map fun h' => u.put x h' ((u.host x).backendSends now beyond)) := by
  have hep := h.ep x
  have haddr : u.addr x.other = s.addr x.other := (congrFun h.addr x.other).symm
  obtain ⟨read, queued, flying, hreads, hqueue, hwire, hperm⟩ := h.onTheWay x
  cases hreads with
  -- the read loop has all its bytes, and hands the packet over
  | @read p queued hreading hpeeks =>
    have hp := h.framed x p (hperm.mem_iff.mpr (by simp))
    have hconn : (u.host x).ep.sock.conn = u.addr x.other :=
      (congrArg (fun e : Endpoint => e.sock.conn) (h.heardFrom_of_peeks hpeeks)).symm
    obtain ⟨r', hreceive, hback, hsends⟩ := Host.backend_read now hp hreading hpeeks
      hconn beyond
    obtain rfl := Option.some.inj (hback.symm.trans hr)
    rw [hep, haddr] at hreceive
    rw [hsends]
    refine (h.receive hlt { u.host x with reading := none } rfl rfl hqueue hwire hperm
      hreceive).imp fun hsyn => ?_
    exact ⟨hep ▸ hsyn.1, _, hreading, hp.length_bytes.ge, hsyn.2⟩
  -- a read loop that lacks bytes waits for a `recvfrom`
  | @peeked p queued hreading hpeeks =>
    have hp := h.framed x p (hperm.mem_iff.mpr (by simp))
    have hshort : ([] : List UInt8).length < p.header.plen.toNat := hp.header_len.2
    rw [Host.backend, hreading] at hr
    dsimp only at hr
    rw [if_pos hshort] at hr
    exact absurd hr (by simp)
  -- no read loop is in progress, so this is a step without a packet
  | idle hreading =>
    rw [Host.backend, hreading] at hr
    dsimp only at hr
    split at hr
    · exact absurd hr (by simp)
    · obtain ⟨r', hsilent, rfl⟩ := Option.map_eq_some_iff.mp hr
      have hsends : (u.host x).backendSends now beyond = sentBy r' := by
        simp only [Host.backendSends, hreading, hsilent, Option.map_some, Option.getD_some]
      rw [hep] at hsilent
      rw [hsends]
      exact (h.silent hlt hreading hsilent).imp False.elim

end Refines

end CmuTcp
