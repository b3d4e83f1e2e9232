import CmuTcp.Library.FaultSystem
import CmuTcp.Model.Network
import CmuTcp.Connection.Invariant

/-!
# What One Endpoint Does in a Step

The inversion lemma of an endpoint in its loop: everything that a successful step can be,
without any assumption about the buffers, the packets or the peer.  A step of the
two-endpoint system is a step of one endpoint, or one of the network.

1. The frames of the functions that an iteration calls: which fields a successful
   `handle_message`, `cmu_write` or `cmu_read` leaves alone.
2. `Endpoint.LoopAct` has one constructor for each kind of step, and
   `Endpoint.InLoop.act` says that there are no others.
3. `Sys.Local` says the same of the system, so that a property of single endpoints that
   their steps keep holds along every run (`Sys.Local.forall_ep`).

The results about endpoints under any packets, about faults and about stalls start here;
those about honest connections use the moves instead, which say more.
-/

namespace CmuTcp

open FaultSystem

/-- The backend thread has done its handshake. -/
structure Endpoint.InLoop (e : Endpoint) : Prop where
  notEntry : e.pc ≠ .entry
  notHandshake : ∀ packet, e.pc ≠ .handshake packet

/-! ## Frames -/

theorem cmuWriteIteration_ok {sock sock' : CmuSocket} {buf rest : List UInt8}
    (h : cmuWriteIteration sock buf = .ok (rest, sock')) :
    ∃ sb, sock' = { sock with sendBuf := sb } ∧
      (sb = sock.sendBuf ∨ ∃ len, sendBufferWrite sock.sendBuf buf len = .ok sb) := by
  unfold cmuWriteIteration at h
  dsimp only at h
  generalize (if buf.length.toUInt32 > sendBufferMaxWrite sock.sendBuf then
    sendBufferMaxWrite sock.sendBuf else buf.length.toUInt32) = writeLen at h
  split at h
  · obtain ⟨sb, hwrite, hret⟩ := ok_of_bind_ok h
    obtain ⟨rfl, rfl⟩ := Prod.mk.inj (Except.ok.inj hret)
    exact ⟨sb, rfl, Or.inr ⟨writeLen, hwrite⟩⟩
  · obtain ⟨rfl, rfl⟩ := Prod.mk.inj (Except.ok.inj h)
    exact ⟨_, rfl, Or.inl rfl⟩

theorem cmuWriteIteration_sameAcked {sock sock' : CmuSocket} {buf rest : List UInt8}
    (h : cmuWriteIteration sock buf = .ok (rest, sock')) :
    sock.sendBuf.SameAcked sock'.sendBuf := by
  obtain ⟨sb, rfl, rfl | ⟨len, hwrite⟩⟩ := cmuWriteIteration_ok h
  · exact .refl _
  · exact sendBufferWrite_sameAcked hwrite

theorem cmuRead_ok {sock sock' : CmuSocket} {length count : Int} {flags : CmuReadMode}
    {data : List UInt8} (h : cmuRead sock length flags = .ok (count, data, sock')) :
    ∃ rb, sock' = { sock with recvBuf := rb } := by
  unfold cmuRead at h
  split at h
  · obtain ⟨_, hret⟩ := Prod.mk.inj (Except.ok.inj h)
    exact ⟨_, (Prod.mk.inj hret).2.symm⟩
  · split at h
    · obtain ⟨_, hret⟩ := Prod.mk.inj (Except.ok.inj h)
      exact ⟨_, (Prod.mk.inj hret).2.symm⟩
    · unfold cmuReadAvailable at h
      dsimp only at h
      split at h
      · obtain ⟨⟨_, rb⟩, _, hread⟩ := ok_of_bind_ok h
        obtain ⟨_, hret⟩ := Prod.mk.inj (Except.ok.inj hread)
        exact ⟨rb, (Prod.mk.inj hret).2.symm⟩
      · obtain ⟨_, hret⟩ := Prod.mk.inj (Except.ok.inj h)
        exact ⟨_, (Prod.mk.inj hret).2.symm⟩

/-- A successful iteration of the loop of `cmu_write` changes the send buffer only. -/
theorem appWrite_ok {e e' : Endpoint} (h : appWrite e = some (.ok e')) :
    e.pending ≠ [] ∧ e.pc ≠ .exited ∧ ∃ rest sb,
      cmuWriteIteration e.sock e.pending = .ok (rest, { e.sock with sendBuf := sb }) ∧
      e' = { e with sock := { e.sock with sendBuf := sb }, pending := rest } := by
  obtain ⟨hpending, hpc, hr⟩ := appWrite_eq_some h
  obtain ⟨⟨rest, sock⟩, hwrite, rfl⟩ := ok_of_map_ok hr.symm
  obtain ⟨sb, rfl, _⟩ := cmuWriteIteration_ok hwrite
  exact ⟨hpending, BackendPc.ne_exited hpc, rest, sb, hwrite, rfl⟩

/-- A successful `cmu_read` changes the receive buffer only. -/
theorem appRead_ok {e e' : Endpoint} {length : Int} {flags : CmuReadMode}
    (h : appRead e length flags = some (.ok e')) :
    ∃ count data rb,
      cmuRead e.sock length flags = .ok (count, data, { e.sock with recvBuf := rb }) ∧
      e' = { e with sock := { e.sock with recvBuf := rb },
                    delivered := e.delivered ++ data } := by
  obtain ⟨_, _, hr⟩ := appRead_eq_some h
  obtain ⟨⟨count, data, sock⟩, hread, rfl⟩ := ok_of_map_ok hr.symm
  obtain ⟨rb, rfl⟩ := cmuRead_ok hread
  exact ⟨count, data, rb, hread, rfl⟩

/-- What a successful `handle_message` makes of a packet without the FIN flag. -/
structure CmuSocket.Handles (sock : CmuSocket) (p : Packet) (now : Int) (sock' : CmuSocket) :
    Prop where
  ack : ∃ sock₁, handleAck sock p.header.ackNum now = .ok sock₁ ∧
    sock'.sendBuf = sock₁.sendBuf ∧
    sock'.window.lastAckReceived = sock₁.window.lastAckReceived
  data : sock'.recvBuf = sock.recvBuf ∨ getPayloadLen p ≠ 0 ∧
    receivePayload sock.recvBuf p.header.seqNum (getPayloadLen p).toUInt32 (getPayload p) =
      .ok sock'.recvBuf

theorem handleMessage_ok {sock sock' : CmuSocket} {p : Packet} {now : Int}
    {replies : List Packet} (h : handleMessage sock p now = .ok (sock', replies)) :
    p.hasFlag finFlagMask = true ∧ sock' = sock ∨
      p.hasFlag finFlagMask = false ∧ sock.Handles p now sock' := by
  unfold handleMessage at h
  obtain ⟨_, _, h⟩ := ok_of_bind_ok h
  obtain ⟨_, _, h⟩ := ok_of_bind_ok h
  split at h
  · rename_i hfin
    obtain ⟨rfl, _⟩ := Prod.mk.inj (Except.ok.inj h)
    exact Or.inl ⟨hfin, rfl⟩
  · rename_i hfin
    obtain ⟨sock₁, hack, hrest⟩ := ok_of_bind_ok h
    have hsame := handleAck_recvBuf hack
    refine Or.inr ⟨Bool.eq_false_iff.mpr hfin, ?_⟩
    dsimp only at hrest
    split at hrest
    · rename_i hlen
      obtain ⟨rb, hrb, hret⟩ := ok_of_bind_ok hrest
      obtain ⟨rfl, _⟩ := Prod.mk.inj (Except.ok.inj hret)
      exact ⟨⟨sock₁, hack, rfl, rfl⟩, Or.inr ⟨hlen, hsame ▸ hrb⟩⟩
    · obtain ⟨rfl, _⟩ := Prod.mk.inj (Except.ok.inj hrest)
      exact ⟨⟨sock₁, hack, rfl, rfl⟩, Or.inl hsame⟩

/-! ## The steps of an endpoint in its loop -/

/-- What a successful step of an endpoint in its loop is. -/
inductive Endpoint.LoopAct (e : Endpoint) : Event → Endpoint → List Packet → Prop
  -- a step of the backend thread that looks at no packet and sends none
  | advance {now : Int} {beyond : ℕ → UInt8} {pc : BackendPc} (hpc : e.pc ≠ .transmit)
      (hentry : pc ≠ .entry) (hhandshake : ∀ packet, pc ≠ .handshake packet)
      (hdeath : ∀ death, pc = .exitTest death → death = e.sock.dying)
      (hexited : pc = .exited → ∃ death, e.pc = .exitTest death ∧ exitTest e.sock death = true) :
      LoopAct e (.backend now beyond) { e with pc := pc } []
  | transmit {now : Int} {beyond : ℕ → UInt8} {sent : Sent} (hpc : e.pc = .transmit)
      (hsent : CmuTcp.transmit e.sock now beyond = .ok sent) :
      LoopAct e (.backend now beyond) { e with
        sock := { e.sock with sendBuf := sent.sendBuf }
        pc := sent.pc
        strayed := e.strayed || !sent.inBounds } sent.packets
  | receive {now : Int} {source : SockAddr} {pkt : Packet} {sock : CmuSocket}
      {replies : List Packet} (hpc : e.pc = .checkData)
      (hmsg : handleMessage (e.sock.heardFrom source) pkt now = .ok (sock, replies)) :
      LoopAct e (.receive now source pkt) { e with
        sock := sock, pc := .transmit
        acksHandled := e.acksHandled ++ [pkt.header.ackNum] } replies
  | writeCall {data : List UInt8} (hdying : e.sock.dying = false) (hpending : e.pending = [])
      (hlen : data.length < 2 ^ 31) :
      LoopAct e (.writeCall data)
        { e with pending := data, passed := e.passed ++ data } []
  | write {rest : List UInt8} {sb : SendBuffer} (hpending : e.pending ≠ [])
      (hpc : e.pc ≠ .exited)
      (hwrite : cmuWriteIteration e.sock e.pending = .ok (rest, { e.sock with sendBuf := sb })) :
      LoopAct e .write
        { e with sock := { e.sock with sendBuf := sb }, pending := rest } []
  | read {length count : Int} {flags : CmuReadMode} {data : List UInt8} {rb : RecvBuffer}
      (hread : cmuRead e.sock length flags = .ok (count, data, { e.sock with recvBuf := rb })) :
      LoopAct e (.read length flags) { e with
        sock := { e.sock with recvBuf := rb }, delivered := e.delivered ++ data } []
  | close (hpending : e.pending = []) :
      LoopAct e .close { e with sock := { e.sock with dying := true } } []

section Steps

variable {e e' : Endpoint} {packets : List Packet}

theorem Endpoint.InLoop.backend (h : e.InLoop) {now : Int} {beyond : ℕ → UInt8}
    (hact : backendSilent e now beyond = some (.ok (e', packets))) :
    e.LoopAct (.backend now beyond) e' packets := by
  rcases backendSilent_cases h.notEntry h.notHandshake hact with ⟨hpc, hr⟩ | ⟨pc, hadvances, hr⟩
  · obtain ⟨sent, hsent, hret⟩ := ok_of_bind_ok hr.symm
    obtain ⟨rfl, rfl⟩ := Prod.mk.inj (Except.ok.inj hret)
    exact .transmit hpc hsent
  · obtain ⟨rfl, rfl⟩ := Prod.mk.inj (Except.ok.inj hr)
    obtain ⟨hentry, hhandshake, _⟩ := hadvances.pc_ne
    cases hadvances with
    | loopTop hpc =>
      refine .advance (by simp [hpc]) hentry hhandshake (fun death hd => ?_) (by simp)
      exact (BackendPc.exitTest.inj hd).symm
    | @exits death hpc hexit =>
      exact .advance (by simp [hpc]) hentry hhandshake (by simp) fun _ => ⟨death, hpc, hexit⟩
    | stays hpc _ => exact .advance (by simp [hpc]) hentry hhandshake (by simp) (by simp)
    | looks hpc => exact .advance (by simp [hpc]) hentry hhandshake (by simp) (by simp)

theorem Endpoint.InLoop.receive (h : e.InLoop) {now : Int} {source : SockAddr} {pkt : Packet}
    (hact : backendReceive e now source pkt = some (.ok (e', packets))) :
    e.LoopAct (.receive now source pkt) e' packets := by
  obtain ⟨hpc, hr⟩ := backendReceive_eq_some h.notHandshake hact
  obtain ⟨⟨sock, replies⟩, hmsg, hret⟩ := ok_of_bind_ok hr.symm
  obtain ⟨rfl, rfl⟩ := Prod.mk.inj (Except.ok.inj hret)
  exact .receive hpc hmsg

/-- **Every successful step** of an endpoint in its loop. -/
theorem Endpoint.InLoop.act (h : e.InLoop) {ev : Event}
    (hact : e.act ev = some (.ok (e', packets))) : e.LoopAct ev e' packets := by
  -- each label is one constructor of the step of a loop
  cases ev with
  | backend now beyond => exact h.backend hact
  | receive now source pkt => exact h.receive hact
  | writeCall data =>
    obtain ⟨t, ht, hret⟩ := Option.map_eq_some_iff.mp hact
    obtain ⟨rfl, rfl⟩ := Prod.mk.inj (Except.ok.inj hret)
    obtain ⟨⟨_, hdying, hpending, hlen, _⟩, rfl⟩ := appWriteCall_eq_some ht
    exact .writeCall hdying hpending hlen
  | write =>
    obtain ⟨r, hr, hret⟩ := Option.map_eq_some_iff.mp hact
    obtain ⟨t, rfl, hpair⟩ := ok_of_map_ok hret
    obtain ⟨rfl, rfl⟩ := Prod.mk.inj hpair
    obtain ⟨hpending, hpc, rest, sb, hwrite, rfl⟩ := appWrite_ok hr
    exact .write hpending hpc hwrite
  | read length flags =>
    obtain ⟨r, hr, hret⟩ := Option.map_eq_some_iff.mp hact
    obtain ⟨t, rfl, hpair⟩ := ok_of_map_ok hret
    obtain ⟨rfl, rfl⟩ := Prod.mk.inj hpair
    obtain ⟨count, data, rb, hread, rfl⟩ := appRead_ok hr
    exact .read hread
  | close =>
    obtain ⟨t, ht, hret⟩ := Option.map_eq_some_iff.mp hact
    obtain ⟨rfl, rfl⟩ := Prod.mk.inj (Except.ok.inj hret)
    obtain ⟨⟨_, _, hpending, _⟩, rfl⟩ := appClose_eq_some ht
    exact .close hpending

/-- An endpoint does not go back to its handshake. -/
theorem Endpoint.LoopAct.inLoop {ev : Event} (h : e.LoopAct ev e' packets) (hloop : e.InLoop) :
    e'.InLoop := by
  cases h with
  | advance _ hentry hhandshake _ _ => exact ⟨hentry, hhandshake⟩
  | @transmit _ _ sent _ _ => exact ⟨sent.pc_ne.1, sent.pc_ne.2.1⟩
  | receive _ _ => exact ⟨by simp, by simp⟩
  | writeCall _ _ _ => exact ⟨hloop.notEntry, hloop.notHandshake⟩
  | write _ _ _ => exact ⟨hloop.notEntry, hloop.notHandshake⟩
  | read _ => exact ⟨hloop.notEntry, hloop.notHandshake⟩
  | close _ => exact ⟨hloop.notEntry, hloop.notHandshake⟩

end Steps

/-! ## Steps of the system -/

/-- What a successful step of the system is: a step of an endpoint, which may take a
    packet out of those in flight to it, or one of the network. -/
inductive Sys.Local (s : Sys) : Label → Sys → Prop
  | act {l : Label} {x : Side} {ev : Event} {t : Sys} {e : Endpoint} {packets : List Packet}
      (hep : t.ep = s.ep) (hnet : ∀ y, ∀ p ∈ t.net y, p ∈ s.net y)
      (hfrom : ∀ now source pkt, ev = .receive now source pkt →
        pkt ∈ s.net x ∧ source = s.addr x.other)
      (hact : (s.ep x).act ev = some (.ok (e, packets))) : Local s l (t.put x (e, packets))
  | net {l : Label} {t : Sys} (hep : t.ep = s.ep) (hnet : ∀ y, ∀ p ∈ t.net y, p ∈ s.net y) :
      Local s l t

theorem Sys.step_local {s s' : Sys} {l : Label} (h : s.step l = some (.ok s')) :
    s.Local l s' := by
  have hsame : ∀ y, ∀ p ∈ s.net y, p ∈ s.net y := fun _ _ hp => hp
  cases l with
  | backend x now beyond =>
    obtain ⟨r, hr, hret⟩ := Option.map_eq_some_iff.mp h
    obtain ⟨pair, rfl, rfl⟩ := ok_of_map_ok hret
    exact .act rfl hsame (by simp) (show (s.ep x).act (.backend now beyond) = _ from hr)
  | receive x now i =>
    simp only [Sys.step] at h
    split at h
    · rename_i pkt hpkt
      obtain ⟨r, hr, hret⟩ := Option.map_eq_some_iff.mp h
      obtain ⟨pair, rfl, rfl⟩ := ok_of_map_ok hret
      -- the packet leaves the network before the endpoint answers
      refine .act rfl (fun _ _ => Sys.mem_net_takePacket s x i) (fun now source p hev => ?_)
        (show (s.ep x).act (.receive now (s.addr x.other) pkt) = _ from hr)
      obtain ⟨_, rfl, rfl⟩ := Event.receive.inj hev
      exact ⟨List.mem_of_getElem? hpkt, rfl⟩
    · exact absurd h (by simp)
  | writeCall x data =>
    obtain ⟨e, he, hret⟩ := Option.map_eq_some_iff.mp h
    obtain rfl := Except.ok.inj hret
    refine .act rfl hsame (by simp) (show (s.ep x).act (.writeCall data) = _ from ?_)
    simp only [Endpoint.act, he, Option.map_some]
  | write x =>
    obtain ⟨r, hr, hret⟩ := Option.map_eq_some_iff.mp h
    obtain ⟨e, rfl, rfl⟩ := ok_of_map_ok hret
    refine .act rfl hsame (by simp) (show (s.ep x).act .write = _ from ?_)
    simp only [Endpoint.act, hr, Option.map_some, Except.map]
  | read x length flags =>
    obtain ⟨r, hr, hret⟩ := Option.map_eq_some_iff.mp h
    obtain ⟨e, rfl, rfl⟩ := ok_of_map_ok hret
    refine .act rfl hsame (by simp) (show (s.ep x).act (.read length flags) = _ from ?_)
    simp only [Endpoint.act, hr, Option.map_some, Except.map]
  | close x =>
    obtain ⟨e, he, hret⟩ := Option.map_eq_some_iff.mp h
    obtain rfl := Except.ok.inj hret
    refine .act rfl hsame (by simp) (show (s.ep x).act .close = _ from ?_)
    simp only [Endpoint.act, he, Option.map_some]
  | lose x i =>
    simp only [Sys.step] at h
    split at h
    · obtain rfl := Except.ok.inj (Option.some.inj h)
      exact .net rfl fun _ _ => Sys.mem_net_takePacket s x i
    · exact absurd h (by simp)
  | duplicate x i =>
    simp only [Sys.step] at h
    split at h
    · rename_i pkt hpkt
      obtain rfl := Except.ok.inj (Option.some.inj h)
      exact .net rfl fun _ _ => Sys.mem_net_duplicate hpkt
    · exact absurd h (by simp)

/-- A property of endpoints that their steps keep holds of both endpoints in a run. -/
theorem Sys.Local.forall_ep {P : Endpoint → Prop} {s s' : Sys} {l : Label}
    (h : s.Local l s') (hP : ∀ x, P (s.ep x))
    (hstep : ∀ e ev e' packets, P e → e.act ev = some (.ok (e', packets)) → P e') :
    ∀ x, P (s'.ep x) := by
  cases h with
  | @act x ev t e packets hep hnet hfrom hact =>
    refine Side.forall_of x ?_ ?_
    · rw [Sys.ep_put_self]
      exact hstep _ _ _ _ (hP x) hact
    · rw [Sys.ep_put_other, hep]
      exact hP x.other
  | net hep hnet => rwa [hep]

/-- Both endpoints of a connection stay in their loops. -/
theorem inLoop_of_run {cfg : Config} {tr : List (Sys × Label)} {s : Sys}
    (h : Run (systemFrom cfg.established) (fun _ => True) tr s) (x : Side) :
    (s.ep x).InLoop := by
  have hall : ∀ x, (s.ep x).InLoop := by
    apply h.invariant (I := fun s => ∀ x, (s.ep x).InLoop)
    · rintro s rfl _ x
      exact ⟨by simp [Config.established], by simp [Config.established]⟩
    · intro s l s' hloop _ _ hstep
      exact (Sys.step_local hstep).forall_ep hloop
        fun e ev e' packets he hact => (he.act hact).inLoop he
  exact hall x

end CmuTcp
