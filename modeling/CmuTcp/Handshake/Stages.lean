import CmuTcp.Handshake.Endpoint
import CmuTcp.Connection.Invariant

/-!
# The Handshake

A connection goes through four stages: both sides unopened, the server half open, the
client open, both open.  In each of them only certain packets can be in flight, and with
them every assert of the handshakes holds; the one exception is a SYN or a SYN-ACK that
reaches an endpoint in its loop.

1. `Stage` is about two endpoints and the packets on their way.  Each of its constructors
   says which phases and which packets go together; losing packets never leaves a stage.
2. The steps of the client and of the server from each stage, with the phases of the module
   before: silent ones, received packets, and the application.
3. `Sys.Staged.step` puts them together, and `Sys.Staged.of_run` is the induction over runs.
-/

namespace CmuTcp

open FaultSystem

/-- The stages of a connection: the client, the server, and the packets on their way to
    the server and to the client. -/
inductive Stage (cfg : Config) (c d : Endpoint) (toServer toClient : List Packet) : Prop
  | opening (hc : c.Unopened cfg .client) (hd : d.Unopened cfg .server)
      (hserver : ∀ p ∈ toServer, p.IsSyn (cfg.isn .client)) (hclient : toClient = [])
  | halfOpen (hc : c.Unopened cfg .client) (hd : d.HalfOpen cfg)
      (hserver : ∀ p ∈ toServer, p.IsSyn (cfg.isn .client))
      (hclient : ∀ p ∈ toClient, p.IsSynAck (cfg.isn .server) (cfg.isn .client))
  | clientOpen (hc : c.Open cfg .client) (hd : d.HalfOpen cfg)
      (hexpected : c.sock.window.nextSeqExpected = cfg.isn .server + 1)
      (hacked : c.sock.sendBuf.lastByteAckedIndex = 0)
      (hserver : ∀ p ∈ toServer, p.IsSyn (cfg.isn .client) ∨ p.IsAck (cfg.isn .server + 1))
      (hclient : ∀ p ∈ toClient, p.IsSynAck (cfg.isn .server) (cfg.isn .client))
  | bothOpen (hc : c.Open cfg .client) (hd : d.Open cfg .server)
      (hserver : ∀ p ∈ toServer, p.IsSyn (cfg.isn .client) ∨ p.header.flags = ackFlagMask)
      (hclient : ∀ p ∈ toClient, p.IsSynAck (cfg.isn .server) (cfg.isn .client) ∨
        p.header.flags = ackFlagMask)

section Stages

variable {cfg : Config} {c d : Endpoint} {toServer toClient : List Packet}

/-- A stage allows each of the packets in flight by itself. -/
theorem Stage.of_subset (h : Stage cfg c d toServer toClient) {toServer' toClient' : List Packet}
    (hserver' : ∀ p ∈ toServer', p ∈ toServer) (hclient' : ∀ p ∈ toClient', p ∈ toClient) :
    Stage cfg c d toServer' toClient' := by
  cases h with
  | opening hc hd hserver hclient =>
    refine .opening hc hd (fun p hp => hserver p (hserver' p hp)) ?_
    exact List.eq_nil_iff_forall_not_mem.mpr fun p hp => by simpa [hclient] using hclient' p hp
  | halfOpen hc hd hserver hclient =>
    exact .halfOpen hc hd (fun p hp => hserver p (hserver' p hp))
      fun p hp => hclient p (hclient' p hp)
  | clientOpen hc hd hexpected hacked hserver hclient =>
    exact .clientOpen hc hd hexpected hacked (fun p hp => hserver p (hserver' p hp))
      fun p hp => hclient p (hclient' p hp)
  | bothOpen hc hd hserver hclient =>
    exact .bothOpen hc hd (fun p hp => hserver p (hserver' p hp))
      fun p hp => hclient p (hclient' p hp)

/-! ## The client -/

section Packets

variable {now : Int} {beyond : ℕ → UInt8} {source : SockAddr} {p : Packet}
  {r : Except Fault (Endpoint × List Packet)}

theorem Stage.clientSilent (h : Stage cfg c d toServer toClient)
    (hstep : backendSilent c now beyond = some r) :
    Tolerates r ∧ ∀ c' packets, r = .ok (c', packets) →
      Stage cfg c' d (toServer ++ packets) toClient ∧ c.Enters c' cfg .client := by
  cases h with
  -- nobody has opened: only SYNs are on their way to the server
  | opening hc hd hserver hclient =>
    obtain ⟨c', packets, rfl, hc', hsyn⟩ := hc.backendSilent hstep
    refine ⟨.ok _, fun c'' packets' hr => ?_⟩
    obtain ⟨rfl, rfl⟩ := Prod.mk.inj (Except.ok.inj hr)
    refine ⟨.opening hc' hd ?_ hclient, .of_same (hc'.initCalls.trans hc.initCalls.symm)
      fun hest => absurd hest hc'.state_ne⟩
    intro q hq
    exact (List.mem_append.mp hq).elim (hserver q) fun hq => (hsyn q hq).2
  -- the client has not heard from the server, and repeats its SYN
  | halfOpen hc hd hserver hclient =>
    obtain ⟨c', packets, rfl, hc', hsyn⟩ := hc.backendSilent hstep
    refine ⟨.ok _, fun c'' packets' hr => ?_⟩
    obtain ⟨rfl, rfl⟩ := Prod.mk.inj (Except.ok.inj hr)
    refine ⟨.halfOpen hc' hd ?_ hclient, .of_same (hc'.initCalls.trans hc.initCalls.symm)
      fun hest => absurd hest hc'.state_ne⟩
    intro q hq
    exact (List.mem_append.mp hq).elim (hserver q) fun hq => (hsyn q hq).2
  -- the client is in its loop, and what it sends are ACKs of the SYN-ACK
  | clientOpen hc hd hexpected hacked hserver hclient =>
    obtain ⟨htol, hok⟩ := hc.backendSilent hstep
    refine ⟨htol, fun c' packets hr => ?_⟩
    obtain ⟨hc', hsame, hacks⟩ := hok c' packets hr
    refine ⟨.clientOpen hc' hd (hsame.window ▸ hexpected) (hsame.acked.trans hacked) ?_ hclient,
      hsame.enters⟩
    intro q hq
    exact (List.mem_append.mp hq).elim (hserver q) fun hq => Or.inr (hexpected ▸ hacks q hq)
  -- both are in their loops, and send ACKs only
  | bothOpen hc hd hserver hclient =>
    obtain ⟨htol, hok⟩ := hc.backendSilent hstep
    refine ⟨htol, fun c' packets hr => ?_⟩
    obtain ⟨hc', hsame, hacks⟩ := hok c' packets hr
    refine ⟨.bothOpen hc' hd ?_ hclient, hsame.enters⟩
    intro q hq
    exact (List.mem_append.mp hq).elim (hserver q) fun hq => Or.inr (hacks q hq).flags

theorem Stage.clientReceive (h : Stage cfg c d toServer toClient) (hp : p ∈ toClient)
    (hstep : backendReceive c now source p = some r) :
    (∀ f, r = .error f → f.ofHandshake = true →
      c.pc = .checkData ∧ p.hasFlag synFlagMask = true) ∧
    ∀ c' packets, r = .ok (c', packets) →
      Stage cfg c' d (toServer ++ packets) toClient ∧ c.Enters c' cfg .client := by
  cases h with
  | opening hc hd hserver hclient => exact absurd hp (by simp [hclient])
  | halfOpen hc hd hserver hclient =>
    obtain ⟨c', packets, rfl, hc', hexpected, hacked, hacks, henters⟩ :=
      hc.receiveSynAck (hclient p hp) hstep
    refine ⟨fun f hf => absurd hf (by simp), fun c'' packets' hr => ?_⟩
    obtain ⟨rfl, rfl⟩ := Prod.mk.inj (Except.ok.inj hr)
    refine ⟨.clientOpen hc' hd hexpected hacked ?_ hclient, henters⟩
    intro q hq
    exact (List.mem_append.mp hq).imp (hserver q) (hacks q)
  | clientOpen hc hd hexpected hacked hserver hclient =>
    -- a second SYN-ACK
    have hsyn := (hclient p hp).hasSyn
    have hpc := (backendReceive_eq_some hc.notHandshake hstep).1
    obtain ⟨f, hf, _⟩ := backendReceive_syn hpc hsyn now source
    obtain rfl := Option.some.inj (hf.symm.trans hstep)
    exact ⟨fun _ _ _ => ⟨hpc, hsyn⟩, fun _ _ hr => by cases hr⟩
  | bothOpen hc hd hserver hclient =>
    have hpc := (backendReceive_eq_some hc.notHandshake hstep).1
    rcases hclient p hp with hsynAck | hflags
    · have hsyn := hsynAck.hasSyn
      obtain ⟨f, hf, _⟩ := backendReceive_syn hpc hsyn now source
      obtain rfl := Option.some.inj (hf.symm.trans hstep)
      exact ⟨fun _ _ _ => ⟨hpc, hsyn⟩, fun _ _ hr => by cases hr⟩
    · obtain ⟨htol, hok⟩ := hc.receiveAck hflags hstep
      refine ⟨fun f hf hsite => absurd ((htol.fault f hf).symm.trans hsite) (by decide),
        fun c' packets hr => ?_⟩
      obtain ⟨hc', hacks, henters⟩ := hok c' packets hr
      refine ⟨.bothOpen hc' hd ?_ hclient, henters⟩
      intro q hq
      exact (List.mem_append.mp hq).elim (hserver q) fun hq => Or.inr (hacks q hq)

theorem Stage.clientApp (h : Stage cfg c d toServer toClient) {r : Except Fault Endpoint}
    (happ : c.AppStep r) {c' : Endpoint} (hr : r = .ok c') :
    Stage cfg c' d toServer toClient ∧ c.Enters c' cfg .client := by
  obtain ⟨hsame, hpc⟩ := happ.same c' hr
  cases h with
  | opening hc _ _ _ => exact absurd happ hc.not_appStep
  | halfOpen hc _ _ _ => exact absurd happ hc.not_appStep
  | clientOpen hc hd hexpected hacked hserver hclient =>
    have hc' := hc.of_same hsame (hpc ▸ hc.notEntry) (hpc ▸ hc.notHandshake)
    exact ⟨.clientOpen hc' hd (hsame.window ▸ hexpected) (hsame.acked.trans hacked) hserver
      hclient, hsame.enters⟩
  | bothOpen hc hd hserver hclient =>
    have hc' := hc.of_same hsame (hpc ▸ hc.notEntry) (hpc ▸ hc.notHandshake)
    exact ⟨.bothOpen hc' hd hserver hclient, hsame.enters⟩

/-! ## The server -/

theorem Stage.serverSilent (h : Stage cfg c d toServer toClient)
    (hstep : backendSilent d now beyond = some r) :
    Tolerates r ∧ ∀ d' packets, r = .ok (d', packets) →
      Stage cfg c d' toServer (toClient ++ packets) ∧ d.Enters d' cfg .server := by
  cases h with
  | opening hc hd hserver hclient =>
    obtain ⟨d', packets, rfl, hd', hsyn⟩ := hd.backendSilent hstep
    refine ⟨.ok _, fun d'' packets' hr => ?_⟩
    obtain ⟨rfl, rfl⟩ := Prod.mk.inj (Except.ok.inj hr)
    have hnil : packets = [] := List.eq_nil_iff_forall_not_mem.mpr fun q hq =>
      absurd (hsyn q hq).1 (by decide)
    exact ⟨.opening hc hd' hserver (by rw [hclient, hnil]; rfl),
      .of_same (hd'.initCalls.trans hd.initCalls.symm) fun hest => absurd hest hd'.state_ne⟩
  | halfOpen _ hd _ _ => exact absurd (hd.backendSilent.symm.trans hstep) (by simp)
  | clientOpen _ hd _ _ _ _ => exact absurd (hd.backendSilent.symm.trans hstep) (by simp)
  | bothOpen hc hd hserver hclient =>
    obtain ⟨htol, hok⟩ := hd.backendSilent hstep
    refine ⟨htol, fun d' packets hr => ?_⟩
    obtain ⟨hd', hsame, hacks⟩ := hok d' packets hr
    refine ⟨.bothOpen hc hd' hserver ?_, hsame.enters⟩
    intro q hq
    exact (List.mem_append.mp hq).elim (hclient q) fun hq => Or.inr (hacks q hq).flags

theorem Stage.serverReceive (h : Stage cfg c d toServer toClient)
    (hisn : (cfg.isn .server).toNat < 2 ^ 31) (hp : p ∈ toServer)
    (hstep : backendReceive d now source p = some r) :
    (∀ f, r = .error f → f.ofHandshake = true →
      d.pc = .checkData ∧ p.hasFlag synFlagMask = true) ∧
    ∀ d' packets, r = .ok (d', packets) →
      Stage cfg c d' toServer (toClient ++ packets) ∧ d.Enters d' cfg .server := by
  cases h with
  -- a SYN half opens the server
  | opening hc hd hserver hclient =>
    obtain ⟨d', packets, rfl, hd', hsynAcks, henters⟩ := hd.receiveSyn (hserver p hp) hstep
    refine ⟨fun f hf => absurd hf (by simp), fun d'' packets' hr => ?_⟩
    obtain ⟨rfl, rfl⟩ := Prod.mk.inj (Except.ok.inj hr)
    exact ⟨.halfOpen hc hd' hserver (by simpa [hclient] using hsynAcks), henters⟩
  -- a second one is answered by a second SYN-ACK
  | halfOpen hc hd hserver hclient =>
    obtain ⟨d', packets, rfl, hd', hsynAcks, henters⟩ := hd.receiveSyn (hserver p hp) hstep
    refine ⟨fun f hf => absurd hf (by simp), fun d'' packets' hr => ?_⟩
    obtain ⟨rfl, rfl⟩ := Prod.mk.inj (Except.ok.inj hr)
    refine ⟨.halfOpen hc hd' hserver ?_, henters⟩
    exact fun q hq => (List.mem_append.mp hq).elim (hclient q) (hsynAcks q)
  | clientOpen hc hd hexpected hacked hserver hclient =>
    rcases hserver p hp with hsyn | hack
    · -- a SYN that was sent before the SYN-ACK arrived
      obtain ⟨d', packets, rfl, hd', hsynAcks, henters⟩ := hd.receiveSyn hsyn hstep
      refine ⟨fun f hf => absurd hf (by simp), fun d'' packets' hr => ?_⟩
      obtain ⟨rfl, rfl⟩ := Prod.mk.inj (Except.ok.inj hr)
      refine ⟨.clientOpen hc hd' hexpected hacked hserver ?_, henters⟩
      exact fun q hq => (List.mem_append.mp hq).elim (hclient q) (hsynAcks q)
    -- an ACK of the SYN-ACK opens it
    · obtain ⟨htol, hok⟩ := hd.receiveAck hisn hack hstep
      refine ⟨fun f hf hsite => absurd ((htol.fault f hf).symm.trans hsite) (by decide),
        fun d' packets hr => ?_⟩
      obtain ⟨hd', hacks, henters⟩ := hok d' packets hr
      refine ⟨.bothOpen hc hd' (fun q hq => (hserver q hq).imp id fun hq => hq.flags) ?_,
        henters⟩
      exact fun q hq => (List.mem_append.mp hq).imp (hclient q) (hacks q)
  | bothOpen hc hd hserver hclient =>
    have hpc := (backendReceive_eq_some hd.notHandshake hstep).1
    rcases hserver p hp with hsyn | hflags
    -- a SYN that reaches the server in its loop makes an assert fail
    · obtain ⟨f, hf, _⟩ := backendReceive_syn hpc hsyn.hasSyn now source
      obtain rfl := Option.some.inj (hf.symm.trans hstep)
      exact ⟨fun _ _ _ => ⟨hpc, hsyn.hasSyn⟩, fun _ _ hr => by cases hr⟩
    -- any other packet is an ACK, and is handled
    · obtain ⟨htol, hok⟩ := hd.receiveAck hflags hstep
      refine ⟨fun f hf hsite => absurd ((htol.fault f hf).symm.trans hsite) (by decide),
        fun d' packets hr => ?_⟩
      obtain ⟨hd', hacks, henters⟩ := hok d' packets hr
      refine ⟨.bothOpen hc hd' hserver ?_, henters⟩
      exact fun q hq => (List.mem_append.mp hq).elim (hclient q) fun hq => Or.inr (hacks q hq)

theorem Stage.serverApp (h : Stage cfg c d toServer toClient) {r : Except Fault Endpoint}
    (happ : d.AppStep r) {d' : Endpoint} (hr : r = .ok d') :
    Stage cfg c d' toServer toClient ∧ d.Enters d' cfg .server := by
  obtain ⟨hsame, hpc⟩ := happ.same d' hr
  cases h with
  | opening _ hd _ _ => exact absurd happ hd.not_appStep
  | halfOpen hc hd hserver hclient =>
    exact ⟨.halfOpen hc (hd.of_same hsame hpc) hserver hclient, hsame.enters⟩
  | clientOpen hc hd hexpected hacked hserver hclient =>
    exact ⟨.clientOpen hc (hd.of_same hsame hpc) hexpected hacked hserver hclient, hsame.enters⟩
  | bothOpen hc hd hserver hclient =>
    have hd' := hd.of_same hsame (hpc ▸ hd.notEntry) (hpc ▸ hd.notHandshake)
    exact ⟨.bothOpen hc hd' hserver hclient, hsame.enters⟩

end Packets

end Stages

/-! ## The system -/

/-- The stage that the system is in. -/
def Sys.Staged (s : Sys) (cfg : Config) : Prop :=
  Stage cfg (s.ep .client) (s.ep .server) (s.net .server) (s.net .client)

/-- The step delivers a SYN or a SYN-ACK to an endpoint that looks for packets in its loop. -/
def Label.DeliversSyn (s : Sys) : Label → Prop
  | .receive x _ i => (s.ep x).pc = .checkData ∧
      ∃ p ∈ (s.net x)[i]?, p.hasFlag synFlagMask = true
  | _ => False

section System

variable {cfg : Config} {s : Sys} {l : Label}

theorem Sys.put_enters {x : Side} {e : Endpoint} {packets : List Packet} {t : Sys}
    (hep : t.ep = s.ep) (h : (s.ep x).Enters e cfg x) :
    ∀ y, (s.ep y).Enters ((t.put x (e, packets)).ep y) cfg y := by
  refine Side.forall_of x ?_ ?_
  · rw [Sys.ep_put_self]
    exact h
  · rw [Sys.ep_put_other, hep]
    exact .of_same rfl id

/-- A step that fails at an assert of the handshakes delivers a SYN, and every other step
    leads to a stage. -/
structure Sys.StageStep (cfg : Config) (s : Sys) (l : Label) (r : Except Fault Sys) : Prop where
  fault : ∀ f, r = .error f → f.ofHandshake = true → l.DeliversSyn s
  next : ∀ s', r = .ok s' → s'.Staged cfg ∧ ∀ x, (s.ep x).Enters (s'.ep x) cfg x

theorem Sys.StageStep.of_tolerates {r : Except Fault Sys} (htol : Tolerates r)
    (hnext : ∀ s', r = .ok s' → s'.Staged cfg ∧ ∀ x, (s.ep x).Enters (s'.ep x) cfg x) :
    s.StageStep cfg l r where
  fault f hf hsite := absurd ((htol.fault f hf).symm.trans hsite) (by decide)
  next := hnext

/-- A step that only changes the packets in flight. -/
theorem Sys.Staged.net (h : s.Staged cfg) {t : Sys} (hep : t.ep = s.ep)
    (hnet : ∀ y, ∀ p ∈ t.net y, p ∈ s.net y) : s.StageStep cfg l (.ok t) := by
  refine .of_tolerates (.ok t) fun s' hs' => ?_
  obtain rfl := Except.ok.inj hs'
  refine ⟨?_, fun x => hep ▸ .of_same rfl id⟩
  unfold Sys.Staged at h ⊢
  rw [hep]
  exact h.of_subset (hnet .server) (hnet .client)

/-- A step of an application. -/
theorem Sys.Staged.app (h : s.Staged cfg) {x : Side} {r : Except Fault Endpoint}
    (happ : (s.ep x).AppStep r) :
    s.StageStep cfg l (r.map fun e => s.put x (e, [])) := by
  refine .of_tolerates (happ.tolerates.map _) fun s' hs' => ?_
  cases r with
  | error f => exact absurd hs' (by simp [Except.map])
  | ok e =>
    obtain rfl := Except.ok.inj hs'
    have hstage : (s.put x (e, [])).Staged cfg ∧ (s.ep x).Enters e cfg x := by
      cases x with
      | client =>
        obtain ⟨hnext, henters⟩ := Stage.clientApp h happ rfl
        exact ⟨hnext.of_subset (by simp [Sys.put, Side.other]) (by simp [Sys.put, Side.other]),
          henters⟩
      | server =>
        obtain ⟨hnext, henters⟩ := Stage.serverApp h happ rfl
        exact ⟨hnext.of_subset (by simp [Sys.put, Side.other]) (by simp [Sys.put, Side.other]),
          henters⟩
    exact ⟨hstage.1, Sys.put_enters rfl hstage.2⟩

/-- A step of a backend thread that receives no packet. -/
theorem Sys.Staged.backend (h : s.Staged cfg) {x : Side} {now : Int} {beyond : ℕ → UInt8}
    {r : Except Fault (Endpoint × List Packet)}
    (hstep : backendSilent (s.ep x) now beyond = some r) :
    s.StageStep cfg l (r.map (s.put x)) := by
  have hstage : Tolerates r ∧ ∀ e packets, r = .ok (e, packets) →
      (s.put x (e, packets)).Staged cfg ∧ (s.ep x).Enters e cfg x := by
    cases x with
    | client => exact Stage.clientSilent h hstep
    | server => exact Stage.serverSilent h hstep
  refine .of_tolerates (hstage.1.map _) fun s' hs' => ?_
  cases r with
  | error f => exact absurd hs' (by simp [Except.map])
  | ok pair =>
    obtain ⟨e, packets⟩ := pair
    obtain rfl := Except.ok.inj hs'
    obtain ⟨hnext, henters⟩ := hstage.2 e packets rfl
    exact ⟨hnext, Sys.put_enters rfl henters⟩

/-- A step of a backend thread that receives a packet. -/
theorem Sys.Staged.receive (h : s.Staged cfg) (hisn : (cfg.isn .server).toNat < 2 ^ 31)
    {x : Side} {now : Int} {i : ℕ} {source : SockAddr} {p : Packet} (hp : (s.net x)[i]? = some p)
    {r : Except Fault (Endpoint × List Packet)}
    (hstep : backendReceive (s.ep x) now source p = some r) :
    s.StageStep cfg (.receive x now i) (r.map ((s.takePacket x i).put x)) := by
  have hmem : p ∈ s.net x := List.mem_of_getElem? hp
  have hstage : (∀ f, r = .error f → f.ofHandshake = true →
      (s.ep x).pc = .checkData ∧ p.hasFlag synFlagMask = true) ∧
      ∀ e packets, r = .ok (e, packets) →
        (s.put x (e, packets)).Staged cfg ∧ (s.ep x).Enters e cfg x := by
    cases x with
    | client => exact Stage.clientReceive h hmem hstep
    | server => exact Stage.serverReceive h hisn hmem hstep
  cases r with
  | error f =>
    refine ⟨fun g hg hsite => ?_, fun s' hs' => absurd hs' (by simp [Except.map])⟩
    obtain rfl : f = g := Except.error.inj hg
    obtain ⟨hpc, hsyn⟩ := hstage.1 f rfl hsite
    exact ⟨hpc, p, hp, hsyn⟩
  | ok pair =>
    obtain ⟨e, packets⟩ := pair
    refine .of_tolerates (.ok _) fun s' hs' => ?_
    obtain rfl := Except.ok.inj hs'
    obtain ⟨hnext, henters⟩ := hstage.2 e packets rfl
    refine ⟨?_, Sys.put_enters rfl henters⟩
    -- the packet that was delivered is no longer in flight
    have hless : ∀ y, ∀ q ∈ ((s.takePacket x i).put x (e, packets)).net y,
        q ∈ (s.put x (e, packets)).net y := by
      refine Side.forall_of x ?_ ?_
      · intro q hq
        rw [Sys.net_put_self] at hq ⊢
        exact s.mem_net_takePacket x i hq
      · intro q hq
        rw [Sys.net_put_other] at hq ⊢
        exact List.mem_append.mpr ((List.mem_append.mp hq).imp
          (s.mem_net_takePacket x i) id)
    exact hnext.of_subset (hless .server) (hless .client)

/-- **Every step** from a stage. -/
theorem Sys.Staged.step (h : s.Staged cfg) (hisn : (cfg.isn .server).toNat < 2 ^ 31)
    {r : Except Fault Sys} (hstep : s.step l = some r) : s.StageStep cfg l r := by
  cases l with
  -- an endpoint sends, or receives
  | backend x now beyond =>
    simp only [Sys.step, Option.map_eq_some_iff] at hstep
    obtain ⟨r', hr', rfl⟩ := hstep
    exact h.backend hr'
  | receive x now i =>
    simp only [Sys.step] at hstep
    split at hstep
    · rename_i p hp
      simp only [Option.map_eq_some_iff] at hstep
      obtain ⟨r', hr', rfl⟩ := hstep
      exact h.receive hisn hp hr'
    · exact absurd hstep (by simp)
  -- an application leaves the handshakes alone
  | writeCall x data =>
    simp only [Sys.step, Option.map_eq_some_iff] at hstep
    obtain ⟨e, he, rfl⟩ := hstep
    exact h.app (appWriteCall_appStep he)
  | write x =>
    simp only [Sys.step, Option.map_eq_some_iff] at hstep
    obtain ⟨r', hr', rfl⟩ := hstep
    exact h.app (appWrite_appStep hr')
  | read x length flags =>
    simp only [Sys.step, Option.map_eq_some_iff] at hstep
    obtain ⟨r', hr', rfl⟩ := hstep
    exact h.app (appRead_appStep hr')
  | close x =>
    simp only [Sys.step, Option.map_eq_some_iff] at hstep
    obtain ⟨e, he, rfl⟩ := hstep
    exact h.app (appClose_appStep he)
  -- the network takes packets out, or doubles them
  | lose x i =>
    simp only [Sys.step] at hstep
    split at hstep
    · obtain rfl := Option.some.inj hstep
      exact h.net rfl fun _ _ => s.mem_net_takePacket x i
    · exact absurd hstep (by simp)
  | duplicate x i =>
    simp only [Sys.step] at hstep
    split at hstep
    · rename_i p hp
      obtain rfl := Option.some.inj hstep
      exact h.net rfl fun _ _ => Sys.mem_net_duplicate hp
    · exact absurd hstep (by simp)

theorem Config.created_staged (cfg : Config) : cfg.created.Staged cfg := by
  have hunopened : ∀ x, (cfg.created.ep x).Unopened cfg x := fun x =>
    ⟨rfl, rfl, rfl, rfl, rfl, rfl, rfl, rfl, Or.inl ⟨rfl, rfl⟩⟩
  exact .opening (hunopened .client) (hunopened .server) (by simp [Config.created]) rfl

end System

/-- **Every run** from two sockets just created. -/
theorem Sys.Staged.of_run {cfg : Config} {tr : List (Sys × Label)} {s : Sys}
    (hisn : (cfg.isn .server).toNat < 2 ^ 31)
    (h : Run (systemFrom cfg.created) (fun _ => True) tr s) : s.Staged cfg := by
  refine h.invariant (I := fun t => t.Staged cfg) ?_ ?_
  · rintro s rfl _
    exact cfg.created_staged
  · intro s l s' hs _ _ hstep
    exact ((hs.step hisn hstep).next s' rfl).1

end CmuTcp
