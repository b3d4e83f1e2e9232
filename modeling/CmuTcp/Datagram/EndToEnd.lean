import CmuTcp.Datagram.Refinement

/-!
# A Connection over Datagrams

Every step of two hosts and the datagrams between them is a step of two endpoints and the
packets between them, or none.  So what the theorems say about packets holds of datagrams,
from the two sockets that `cmu_socket` has just made on.

1. The network's own steps: a datagram that arrives only changes place, and one that is lost
   or doubled is a packet that is.
2. With the steps of the hosts, `Udp.Refines.step` covers every step, and says in which of
   them a SYN is handed to an endpoint in its loop.
3. The simulation rule of the library gives every run of two hosts a run of two endpoints
   beside it (`hosts_refine_endpoints`).
4. Along that run the connection has its lifetime invariant, which says what is delivered
   and where a step can fail (`datagram_delivery`).
-/

namespace CmuTcp

open FaultSystem

section Steps

variable {cfg : Config} {u : Udp} {s : Sys} {x : Side}

/-! ## Steps of the network -/

theorem perm_cons_eraseIdx {α : Type} {l : List α} {i : ℕ} {a : α} (h : l[i]? = some a) :
    l.Perm (a :: l.eraseIdx i) := by
  obtain ⟨hlt, rfl⟩ := List.getElem?_eq_some_iff.mp h
  exact (List.getElem_cons_eraseIdx_perm hlt).symm

theorem Host.Reads.append {h : Host} {read queued : List Packet} (hr : h.Reads read queued)
    (later : List Packet) (d : Datagram) :
    ({ h with queue := h.queue ++ [d] } : Host).Reads read (queued ++ later) := by
  cases hr with
  | idle hreading => exact .idle hreading
  | peeked hreading hpeeks => exact .peeked hreading hpeeks
  | read hreading hpeeks => exact .read hreading hpeeks

/-- A datagram on the wire carries a packet in flight. -/
theorem Udp.Refines.onTheWire (h : u.Refines cfg s) {i : ℕ} {d : Datagram}
    (hd : (u.wire x)[i]? = some d) :
    ∃ (p : Packet) (read queued flying : List Packet), (u.host x).Reads read queued ∧
      (u.host x).queue = queued.map (Packet.datagram (u.addr x.other)) ∧
      u.wire x = flying.map (Packet.datagram (u.addr x.other)) ∧
      d = p.datagram (u.addr x.other) ∧ flying[i]? = some p ∧
      (s.net x).Perm (read ++ queued ++ p :: flying.eraseIdx i) := by
  obtain ⟨read, queued, flying, hreads, hqueue, hwire, hperm⟩ := h.onTheWay x
  rw [hwire, List.getElem?_map, Option.map_eq_some_iff] at hd
  obtain ⟨p, hp, rfl⟩ := hd
  exact ⟨p, read, queued, flying, hreads, hqueue, hwire, rfl, hp,
    hperm.trans ((perm_cons_eraseIdx hp).append_left _)⟩

/-- A datagram arrives. -/
theorem Udp.Refines.arrive (h : u.Refines cfg s) {i : ℕ} {d : Datagram}
    (hd : (u.wire x)[i]? = some d) :
    ({ u.takeDatagram x i with
      host := Function.update u.host x
        { u.host x with queue := (u.host x).queue ++ [d] } } : Udp).Refines cfg s := by
  obtain ⟨p, read, queued, flying, hreads, hqueue, hwire, rfl, hp, hperm⟩ := h.onTheWire hd
  refine h.moved rfl rfl rfl (fun _ hq => hq) h.staged rfl rfl
    ⟨read, queued ++ [p], flying.eraseIdx i, hreads.append [p] _, ?_, ?_, ?_⟩
  · rw [hqueue, List.map_append, List.map_singleton]
  · rw [hwire, List.eraseIdx_map]
  · simpa using hperm

/-- The network loses or duplicates a datagram. -/
theorem Udp.Refines.net (h : u.Refines cfg s) (hlt : (cfg.isn .server).toNat < 2 ^ 31)
    {l : Label} {t : Sys} {w : List Datagram} {read queued flying : List Packet}
    (hstep : s.step l = some (.ok t)) (hsyn : ¬ l.DeliversSyn s)
    (hep : t.ep = s.ep) (haddr : t.addr = s.addr) (hother : t.net x.other = s.net x.other)
    (hless : ∀ p ∈ t.net x, p ∈ s.net x) (hreads : (u.host x).Reads read queued)
    (hqueue : (u.host x).queue = queued.map (Packet.datagram (u.addr x.other)))
    (hwire : w = flying.map (Packet.datagram (u.addr x.other)))
    (hperm : (t.net x).Perm (read ++ queued ++ flying)) :
    Udp.Matches cfg s False (.ok { u with wire := Function.update u.wire x w }) := by
  have hmoved := h.moved hep haddr hother hless ((h.staged.step hlt hstep).next _ rfl).1 rfl rfl
    ⟨read, queued, flying, hreads, hqueue, hwire, hperm⟩
  rw [Function.update_eq_self] at hmoved
  exact Or.inr ⟨l, _, hstep, hsyn, Or.inr ⟨_, _, rfl, rfl, hmoved⟩⟩

theorem Udp.Refines.lose (h : u.Refines cfg s) (hlt : (cfg.isn .server).toNat < 2 ^ 31) {i : ℕ}
    {d : Datagram} (hd : (u.wire x)[i]? = some d) :
    Udp.Matches cfg s False (.ok (u.takeDatagram x i)) := by
  have hne := Side.other_ne x
  obtain ⟨p, read, queued, flying, hreads, hqueue, hwire, rfl, hp, hperm⟩ := h.onTheWire hd
  obtain ⟨j, hj, hrest⟩ := exists_getElem?_of_perm (hperm.trans List.perm_middle)
  obtain ⟨hjlt, _⟩ := List.getElem?_eq_some_iff.mp hj
  have hstep : s.step (.lose x j) = some (.ok (s.takePacket x j)) := by
    simp only [Sys.step, hjlt, if_true]
  have hwire' : (u.wire x).eraseIdx i =
      (flying.eraseIdx i).map (Packet.datagram (u.addr x.other)) := by
    rw [hwire, List.eraseIdx_map]
  refine h.net hlt hstep id rfl rfl (Function.update_of_ne hne ..)
    (fun _ => s.mem_net_takePacket x j) hreads hqueue hwire' ?_
  simpa [Sys.takePacket] using hrest

theorem Udp.Refines.duplicate (h : u.Refines cfg s) (hlt : (cfg.isn .server).toNat < 2 ^ 31)
    {i : ℕ} {d : Datagram} (hd : (u.wire x)[i]? = some d) :
    Udp.Matches cfg s False
      (.ok { u with wire := Function.update u.wire x (u.wire x ++ [d]) }) := by
  have hne := Side.other_ne x
  obtain ⟨p, read, queued, flying, hreads, hqueue, hwire, rfl, hp, hperm⟩ := h.onTheWire hd
  obtain ⟨j, hj, hrest⟩ := exists_getElem?_of_perm (hperm.trans List.perm_middle)
  have hstep : s.step (.duplicate x j) =
      some (.ok { s with net := Function.update s.net x (s.net x ++ [p]) }) := by
    simp only [Sys.step, hj]
  have hwire' : u.wire x ++ [Packet.datagram (u.addr x.other) p] =
      (flying ++ [p]).map (Packet.datagram (u.addr x.other)) := by
    rw [hwire, List.map_append, List.map_singleton]
  refine h.net hlt hstep id rfl rfl (Function.update_of_ne hne ..)
    (fun q hq => Sys.mem_net_duplicate hj hq) hreads hqueue hwire' ?_
  dsimp only
  rw [Function.update_self, ← List.append_assoc]
  refine List.Perm.append_right [p] (hperm.trans ?_)
  exact (perm_cons_eraseIdx hp).symm.append_left _

/-! ## Every step -/

/-- `check_for_data` of the host hands over a SYN. -/
def UdpLabel.HandsSyn (u : Udp) : UdpLabel → Prop
  | .host x (.backend _ _) => (u.host x).HandsSyn
  | _ => False

/-- **Every step** of the hosts is a step of the endpoints, or none. -/
theorem Udp.Refines.step (h : u.Refines cfg s) (hlt : (cfg.isn .server).toNat < 2 ^ 31)
    {l : UdpLabel} {r : Except HostFault Udp} (hstep : u.step l = some r) :
    Udp.Matches cfg s (l.HandsSyn u) r := by
  cases l with
  | host x l =>
    have hep := h.ep x
    -- a host alone: its backend and `recvfrom` have their lemmas, the application's calls one
    -- for all
    cases l with
    | arrive d => exact absurd hstep (by simp [Udp.step])
    | recvfrom now =>
      obtain ⟨r', hr, rfl⟩ := Option.map_eq_some_iff.mp hstep
      exact h.recvfrom hlt hr
    | backend now beyond =>
      obtain ⟨r', hr, rfl⟩ := Option.map_eq_some_iff.mp hstep
      exact h.backend hlt hr
    | writeCall data =>
      obtain ⟨r', hr, rfl⟩ := Option.map_eq_some_iff.mp hstep
      obtain ⟨e, he, rfl⟩ := Option.map_eq_some_iff.mp hr
      rw [hep] at he
      have hl : s.step (.writeCall x data) = some ((Except.ok e).map fun e => s.put x (e, [])) := by
        simp only [Sys.step, he, Option.map_some, Except.map]
      refine h.app hlt hl id (appWriteCall_appStep he) fun e' he' => ?_
      obtain rfl := Except.ok.inj he'
      obtain ⟨_, rfl⟩ := appWriteCall_eq_some he
      rfl
    | write =>
      obtain ⟨r', hr, rfl⟩ := Option.map_eq_some_iff.mp hstep
      obtain ⟨r', he, rfl⟩ := Option.map_eq_some_iff.mp hr
      rw [hep] at he
      have hl : s.step (.write x) = some (r'.map fun e => s.put x (e, [])) := by
        simp only [Sys.step, he, Option.map_some]
      refine h.app hlt hl id (appWrite_appStep he) fun e' he' => ?_
      subst he'
      obtain ⟨_, _, _, _, _, rfl⟩ := appWrite_ok he
      rfl
    | read length flags =>
      obtain ⟨r', hr, rfl⟩ := Option.map_eq_some_iff.mp hstep
      obtain ⟨r', he, rfl⟩ := Option.map_eq_some_iff.mp hr
      rw [hep] at he
      have hl : s.step (.read x length flags) = some (r'.map fun e => s.put x (e, [])) := by
        simp only [Sys.step, he, Option.map_some]
      refine h.app hlt hl id (appRead_appStep he) fun e' he' => ?_
      subst he'
      obtain ⟨_, _, _, _, rfl⟩ := appRead_ok he
      rfl
    | close =>
      obtain ⟨r', hr, rfl⟩ := Option.map_eq_some_iff.mp hstep
      obtain ⟨e, he, rfl⟩ := Option.map_eq_some_iff.mp hr
      rw [hep] at he
      have hl : s.step (.close x) = some ((Except.ok e).map fun e => s.put x (e, [])) := by
        simp only [Sys.step, he, Option.map_some, Except.map]
      refine h.app hlt hl id (appClose_appStep he) fun e' he' => ?_
      obtain rfl := Except.ok.inj he'
      obtain ⟨_, rfl⟩ := appClose_eq_some he
      rfl
  | arrive x i =>
    -- the network delivers, loses and duplicates datagrams as it does packets
    simp only [Udp.step] at hstep
    split at hstep
    · rename_i d hd
      obtain rfl := Option.some.inj hstep
      exact Or.inl ⟨_, rfl, h.arrive hd⟩
    · exact absurd hstep (by simp)
  | lose x i =>
    simp only [Udp.step] at hstep
    split at hstep
    · rename_i hi
      obtain rfl := Option.some.inj hstep
      exact h.lose hlt (List.getElem?_eq_getElem hi)
    · exact absurd hstep (by simp)
  | duplicate x i =>
    simp only [Udp.step] at hstep
    split at hstep
    · rename_i d hd
      obtain rfl := Option.some.inj hstep
      exact h.duplicate hlt hd
    · exact absurd hstep (by simp)

end Steps

/-- The addresses stay. -/
theorem Udp.step_addr {u u' : Udp} {l : UdpLabel} (h : u.step l = some (.ok u')) :
    u'.addr = u.addr := by
  cases l with
  | host x l =>
    have hput : ((u.host x).step l).map (fun r => r.map fun h => u.put x h ((u.host x).sends l)) =
        some (.ok u') := by
      cases l with
      | arrive d => exact absurd h (by simp [Udp.step])
      | _ => exact h
    obtain ⟨r, _, hr⟩ := Option.map_eq_some_iff.mp hput
    obtain ⟨h', rfl, rfl⟩ := ok_of_map_ok hr
    rfl
  | lose x i =>
    simp only [Udp.step] at h
    split at h
    · obtain rfl := Except.ok.inj (Option.some.inj h)
      rfl
    · exact absurd h (by simp)
  | _ =>
    simp only [Udp.step] at h
    split at h
    · obtain rfl := Except.ok.inj (Option.some.inj h)
      rfl
    · exact absurd h (by simp)

/-! ## Every run -/

section Runs

variable {cfg : Config} {tr : List (Udp × UdpLabel)} {u : Udp}

/-- No send buffer of the two hosts has wrapped. -/
def Udp.NoWrap (u : Udp) : Prop :=
  (u.host .client).ep.sock.sendBuf.NoWrap ∧ (u.host .server).ep.sock.sendBuf.NoWrap

instance (u : Udp) : Decidable u.NoWrap :=
  inferInstanceAs (Decidable (_ ∧ _))

theorem Udp.Refines.noWrap {s : Sys} (h : u.Refines cfg s) : u.NoWrap ↔ s.NoWrap := by
  unfold Udp.NoWrap Sys.NoWrap
  rw [h.ep, h.ep]

/-- Two hosts whose sockets have just been made, the client's with the server's address. -/
theorem Config.createdHosts_refines (hconn : (cfg.env .client).conn = cfg.addr .server) :
    cfg.createdHosts.Refines cfg cfg.created where
  ep _ := rfl
  addr := rfl
  staged := cfg.created_staged
  conn
    | .client => Or.inl hconn
    | .server => Or.inr ⟨rfl, rfl, rfl, rfl, rfl, rfl, rfl, rfl, rfl, Or.inl ⟨rfl, rfl⟩⟩
  keeps _ _ hpc := absurd hpc (by simp [Config.created])
  framed _ p hp := absurd hp (by simp [Config.created])
  onTheWay _ := ⟨[], [], [], .idle rfl, rfl, rfl, .refl _⟩
  sentTo _ a ha := absurd ha (by simp [Config.createdHosts, Config.createdHost])

/-- The packets of two endpoints simulate the datagrams of two hosts. -/
theorem Udp.simulation (hconn : (cfg.env .client).conn = cfg.addr .server)
    (hlt : (cfg.isn .server).toNat < 2 ^ 31) :
    Simulation (udpFrom cfg.createdHosts) (systemFrom cfg.created) Udp.NoWrap Sys.NoWrap
      (fun u s => u.Refines cfg s) where
  init := by
    rintro u rfl _
    exact ⟨_, rfl, Config.createdHosts_refines hconn⟩
  kept u s h hw := h.noWrap.mp hw
  step u s l u' h _ hstep := by
    rcases h.step hlt hstep with ⟨_, hu, hstay⟩ | ⟨l', r', hl, _, hfault | ⟨_, s', hu, rfl, hnext⟩⟩
    · obtain rfl := Except.ok.inj hu
      exact Or.inl hstay
    · obtain ⟨f, hf, _⟩ := hfault
      exact absurd hf (by simp)
    · obtain rfl := Except.ok.inj hu
      exact Or.inr ⟨l', s', hl, hnext⟩

/-- **Datagrams refine packets**: every run of two hosts, through peeks, read loops, queues
    and a network that loses, duplicates and reorders datagrams, has a run of two endpoints
    that exchange packets beside it, and ends in a state of which every step is again a step
    of the endpoints with the same outcome, or none of theirs.  No host ever misreads or
    faults on a datagram that the endpoints could take as a packet. -/
theorem hosts_refine_endpoints (hconn : (cfg.env .client).conn = cfg.addr .server)
    (hlt : (cfg.isn .server).toNat < 2 ^ 31)
    (h : Run (udpFrom cfg.createdHosts) Udp.NoWrap tr u) :
    ∃ tr' s, Run (systemFrom cfg.created) Sys.NoWrap tr' s ∧ u.Refines cfg s ∧
      ∀ l r, u.step l = some r → Udp.Matches cfg s (l.HandsSyn u) r := by
  obtain ⟨tr', s, hrun, href⟩ := (Udp.simulation hconn hlt).run h
  exact ⟨tr', s, hrun, href, fun l r hstep => href.step hlt hstep⟩

/-- A SYN aborts the loop of the thread that reads it. -/
theorem Host.HandsSyn.faults {h : Host} (hsyn : h.HandsSyn) (now : Int) (beyond : ℕ → UInt8) :
    ∃ f, h.backend now beyond = some (.error f) := by
  obtain ⟨hpc, loop, hreading, hwhole, hflag⟩ := hsyn
  simp only [Host.backend, hreading, if_neg (Nat.not_lt.mpr hwhole), hpc]
  by_cases hshort : loop.pkt.length < headerLen.toNat
  · exact ⟨_, by rw [if_pos hshort]⟩
  · have hflag' : (⟨loop.hdr, loop.pkt.drop headerLen.toNat⟩ : Packet).hasFlag synFlagMask =
        true := hflag
    obtain ⟨f, hf, _⟩ := backendReceive_syn hpc hflag' now h.ep.sock.conn
    have hcheck := Option.some.inj ((backendReceive_checkData hpc).symm.trans hf)
    rw [if_neg hshort, hcheck]
    exact ⟨_, rfl⟩

/-- **A connection over datagrams, end to end**: in every run of two hosts from their two
    sockets just created, a step violates an assert or writes outside a receive ring if and
    only if a thread in its loop has read a SYN; what the application of one side reads is a
    prefix of what the other passed to `cmu_write` as long as no copy out of its send ring
    was out of bounds; a process that has died otherwise has died in such a copy; every
    datagram was sent to the peer; and a side that has left its loop has lost nothing. -/
theorem datagram_delivery (hcfg : cfg.Valid) (hisn : ∀ x, (cfg.isn x).toNat < 2 ^ 31)
    (hconn : (cfg.env .client).conn = cfg.addr .server)
    (h : Run (udpFrom cfg.createdHosts) Udp.NoWrap tr u) :
    (∀ l, (∃ f, u.step l = some (.error f)) ↔ l.HandsSyn u) ∧ ∀ x,
      ((u.host x).ep.strayed = false →
        (u.host x.other).ep.delivered <+: (u.host x).ep.passed) ∧
      ((u.host x).ep.pc = .crashed → (u.host x).ep.strayed = true) ∧
      (∀ a ∈ (u.host x).sentTo, a = cfg.addr x.other) ∧
      ((u.host x).ep.pc = .exited →
        (getNextByteExpectedSeqnum (u.host x.other).ep.sock.recvBuf).toNat =
          (cfg.isn x).toNat + (u.host x).ep.passed.length + 1) := by
  -- the endpoints run as the hosts do, and what is known of their runs is known here
  obtain ⟨tr', s, hrun, href, hmatches⟩ := hosts_refine_endpoints hconn (hisn .server) h
  obtain ⟨out, inn, hopens⟩ := Sys.Opens.of_run hcfg (hisn .server) hrun
  have haddr : s.addr = cfg.addr := by
    refine href.addr.trans (h.invariant (I := fun t => t.addr = cfg.addr) ?_ ?_)
    · rintro u rfl _
      rfl
    · intro u l u' hu _ _ hstep
      exact (Udp.step_addr hstep).trans hu
  refine ⟨fun l => ⟨?_, fun hsyn => ?_⟩, fun x =>
    ⟨fun hx => ?_, fun hpc => ?_, fun a ha => ?_, fun hpc => ?_⟩⟩
  -- a fault of the hosts is one of the endpoints
  · rintro ⟨f, hf⟩
    rcases hmatches l _ hf with ⟨_, hok, _⟩ | ⟨l', r', hl, hsyn, ⟨f', _, rfl⟩ | ⟨_, _, hok, _⟩⟩
    · exact absurd hok (by simp)
    · -- the endpoints fault only on a SYN
      rcases hopens.step hrun.kept (hisn .server) hl with hdelivers | ⟨t, _, _, ht, _⟩
      · exact hsyn hdelivers
      · exact absurd ht (by simp)
    · exact absurd hok (by simp)
  -- a backend that has a SYN in hand faults as soon as it goes on
  · cases l with
    | host x l =>
      cases l with
      | backend now beyond =>
        have hx : (u.host x).HandsSyn := hsyn
        obtain ⟨f, hf⟩ := hx.faults now beyond
        exact ⟨f, by simp only [Udp.step, Host.step, hf]; rfl⟩
      | _ => exact hsyn.elim
    | _ => exact hsyn.elim
  · rw [href.ep] at hx ⊢
    rw [href.ep]
    exact ((hopens.delivers_iff x).mpr hx).delivered
  · rw [href.ep] at hpc ⊢
    exact hopens.crashed hpc
  · exact (href.sentTo x a ha).trans (congrFun haddr x.other)
  · rw [href.ep] at hpc ⊢
    rw [href.ep]
    exact hopens.arrived hrun.kept hpc

/-! ## Concrete runs -/

/-- A small connection whose sides have different addresses. -/
def addressedConfig (capacity : UInt32) : Config :=
  { smallConfig capacity with
    addr := fun
      | .client => ⟨1, 10⟩
      | .server => ⟨0, 0⟩ }

/-- The handshake; the SYN arrives twice, and the read loop of the server takes the ACK. -/
def handshakeLabels : List UdpLabel :=
  [.host .client (.backend 0 fun _ => 0), .host .server (.backend 0 fun _ => 0),
    .duplicate .server 0, .arrive .server 0, .host .server (.recvfrom 0), .arrive .client 0,
    .host .client (.recvfrom 0), .arrive .server 1, .host .server (.recvfrom 0),
    .host .server (.recvfrom 0), .host .server (.backend 0 fun _ => 0)]

/-- The handshake over datagrams is one over packets. -/
theorem hosts_refine_endpoints_handshake : ∃ (u : Udp) (tr : List (Sys × Label)) (s : Sys),
    Run (systemFrom (addressedConfig 4).created) Sys.NoWrap tr s ∧
      u.Refines (addressedConfig 4) s ∧ ∀ x, (s.ep x).sock.state = .established := by
  have hinit : Run (udpFrom (addressedConfig 4).createdHosts) Udp.NoWrap []
      (addressedConfig 4).createdHosts := .init rfl (by decide)
  have hrun := hinit.exec handshakeLabels rfl
  obtain ⟨tr, s, hrun', href, _⟩ := hosts_refine_endpoints rfl (by decide) hrun
  refine ⟨_, tr, s, hrun', href, fun x => ?_⟩
  rw [← href.ep]
  cases x <;> rfl

/-- A byte from the client, whose datagram overtakes a SYN. -/
theorem datagram_delivery_byte : ∃ u : Udp, (u.host .server).ep.delivered = [7] ∧
    ((u.host .server).ep.delivered <+: (u.host .client).ep.passed) ∧
    ∀ l, (∃ f, u.step l = some (.error f)) ↔ l.HandsSyn u := by
  have hinit : Run (udpFrom (addressedConfig 4).createdHosts) Udp.NoWrap []
      (addressedConfig 4).createdHosts := .init rfl (by decide)
  have hrun := hinit.exec (handshakeLabels ++ [.host .client (.writeCall [7]),
    .host .client .write, .host .client (.backend 0 fun _ => 0),
    .host .client (.backend 0 fun _ => 0), .host .client (.backend 0 fun _ => 0),
    .host .client (.backend 0 fun _ => 0), .arrive .server 1,
    .host .server (.backend 0 fun _ => 0), .host .server (.backend 0 fun _ => 0),
    .host .server (.recvfrom 0), .host .server (.recvfrom 0),
    .host .server (.backend 0 fun _ => 0), .host .server (.read 1 .noFlag)]) rfl
  have hcfg : (addressedConfig 4).Valid :=
    { (smallConfig_valid (by decide) : (smallConfig 4).Valid) with }
  have hisn : ∀ x, ((addressedConfig 4).isn x).toNat < 2 ^ 31 := by
    intro x
    cases x <;> decide
  obtain ⟨hfaults, hall⟩ := datagram_delivery hcfg hisn rfl hrun
  exact ⟨_, rfl, (hall .client).1 rfl, hfaults⟩

end Runs

end CmuTcp
