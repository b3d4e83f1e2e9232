import CmuTcp.Connection.Delivery
import CmuTcp.Connection.Safety
import CmuTcp.Handshake.Agreement
import CmuTcp.Handshake.Opening

/-!
# The Lifetime of a Connection

The theorems about connections start right after the handshake.  Here they are carried
back to two sockets just created: along every run from there, with the handshake, data
that completes the handshake and an application that writes to a half-open server, the
settled connection has the invariant.

1. `Sys.Opens` joins what the two parts of the development know: the stage of the handshake,
   and the invariant of the settled connection.
2. A step of an endpoint is seen twice, as a step of the handshake and as one of the settled
   endpoint.  `Sys.Opens.After` is what has to be shown of the second, and for most steps it
   follows from the moves of a connection (`Sys.Opens.after_of_continues`).
3. Then there is one lemma for each packet in each phase, and one for each call of the
   application; `Sys.Opens.step` collects them.
4. What is delivered, what strays and what has arrived is recorded in the settled connection
   as it is in the endpoints (`Sys.Opens.records`), so the theorems carry over.

Main result: `lifetime_delivery_iff`.
-/

namespace CmuTcp

open FaultSystem

/-- The run is in a stage of the handshake, a side that has not heard from its peer is
    unused, and the settled connection has the invariant. -/
structure Sys.Opens (s : Sys) (cfg : Config) (out : Side → SendStream UInt8)
    (inn : Side → Reassembly) : Prop where
  staged : s.Staged cfg
  unused : ∀ x, (s.ep x).Unopened cfg x → (s.ep x).Unused cfg x
  settled : (s.settled cfg).Invariant cfg out inn

section Phases

variable {cfg : Config} {s : Sys} {x : Side} {p : Packet}

/-- The phase of a side. -/
theorem Sys.Staged.phase (h : s.Staged cfg) (x : Side) :
    (s.ep x).Unopened cfg x ∨ (x = .server ∧ (s.ep x).HalfOpen cfg) ∨ (s.ep x).Open cfg x := by
  cases x with
  | client => exact h.client_cases.imp id Or.inr
  | server =>
    cases h with
    | opening _ hd _ _ => exact Or.inl hd
    | halfOpen _ hd _ _ => exact Or.inr (Or.inl ⟨rfl, hd⟩)
    | clientOpen _ hd _ _ _ _ => exact Or.inr (Or.inl ⟨rfl, hd⟩)
    | bothOpen _ hd _ _ => exact Or.inr (Or.inr hd)

/-- A side whose thread is behind the handshakes is open. -/
theorem Sys.Staged.open_of_pc (h : s.Staged cfg) (hentry : (s.ep x).pc ≠ .entry)
    (hhandshake : ∀ packet, (s.ep x).pc ≠ .handshake packet) : (s.ep x).Open cfg x := by
  rcases h.phase x with hx | ⟨rfl, hx⟩ | hx
  · rcases hx.pc with ⟨hpc, _⟩ | ⟨packet, hpc, _⟩
    · exact absurd hpc hentry
    · exact absurd hpc (hhandshake packet)
  · obtain ⟨packet, hpc, _⟩ := hx.pc
    exact absurd hpc (hhandshake packet)
  · exact hx

/-- What reaches the client: an answer to its SYN, or once both sides are open an ACK. -/
theorem Sys.Staged.toClient (h : s.Staged cfg) (hp : p ∈ s.net .client) :
    p.IsSynAck (cfg.isn .server) (cfg.isn .client) ∨
      (s.ep .client).Open cfg .client ∧ p.header.flags = ackFlagMask := by
  cases h with
  | opening _ _ _ hclient => exact absurd hp (by simp [hclient])
  | halfOpen _ _ _ hclient => exact Or.inl (hclient p hp)
  | clientOpen _ _ _ _ _ hclient => exact Or.inl (hclient p hp)
  | bothOpen hc _ _ hclient => exact (hclient p hp).imp id fun hflags => ⟨hc, hflags⟩

/-- What reaches the server: a SYN, or an ACK of its SYN-ACK, or once it is open any ACK. -/
theorem Sys.Staged.toServer (h : s.Staged cfg) (hp : p ∈ s.net .server) :
    p.IsSyn (cfg.isn .client) ∨
      (s.ep .server).HalfOpen cfg ∧ p.IsAck (cfg.isn .server + 1) ∨
      (s.ep .server).Open cfg .server ∧ p.header.flags = ackFlagMask := by
  cases h with
  | opening _ _ hserver _ => exact Or.inl (hserver p hp)
  | halfOpen _ _ hserver _ => exact Or.inl (hserver p hp)
  | clientOpen _ hd _ _ hserver _ =>
    exact (hserver p hp).imp id fun hack => Or.inl ⟨hd, hack⟩
  | bothOpen _ hd hserver _ =>
    exact (hserver p hp).imp id fun hflags => Or.inr ⟨hd, hflags⟩

/-- Nobody opens before its peer has been heard from. -/
theorem Sys.Staged.not_unopened (h : s.Staged cfg) (hx : (s.ep x).Open cfg x) :
    ¬ (s.ep x.other).Unopened cfg x.other := by
  intro hpeer
  have hcalls := hpeer.initCalls
  cases x with
  | client =>
    cases h with
    | opening hc _ _ _ => exact hc.state_ne hx.state
    | halfOpen hc _ _ _ => exact hc.state_ne hx.state
    | clientOpen _ hd _ _ _ _ => exact absurd (hd.initCalls.symm.trans hcalls) (by simp)
    | bothOpen _ hd _ _ => exact absurd (hd.initCalls.symm.trans hcalls) (by simp)
  | server =>
    cases h with
    | opening _ hd _ _ => exact hd.state_ne hx.state
    | halfOpen _ hd _ _ => exact absurd (hd.state.symm.trans hx.state) (by decide)
    | clientOpen _ hd _ _ _ _ => exact absurd (hd.state.symm.trans hx.state) (by decide)
    | bothOpen hc _ _ _ => exact absurd (hc.initCalls.symm.trans hcalls) (by simp)

end Phases

theorem Sys.put_put (s : Sys) (x : Side) (e e' : Endpoint) (packets packets' : List Packet) :
    (s.put x (e, packets)).put x (e', packets') = s.put x (e', packets ++ packets') := by
  simp [Sys.put, Function.update_idem, List.append_assoc]

section Steps

variable {cfg : Config} {s : Sys} {out : Side → SendStream UInt8} {inn : Side → Reassembly}
  {x : Side}

/-! ## The settled connection and its endpoints -/

theorem Endpoint.Open.settled_ep (h : (s.ep x).Open cfg x) : (s.settled cfg).ep x = s.ep x :=
  Endpoint.settled_of_established h.state

theorem Sys.Opens.noWrap (h : s.Opens cfg out inn) (hw : s.NoWrap) : (s.settled cfg).NoWrap := by
  have hsame : ∀ y, ((s.settled cfg).ep y).sock.sendBuf = (s.ep y).sock.sendBuf := by
    intro y
    rcases h.staged.phase y with hy | ⟨_, hy⟩ | hy
    · show ((s.ep y).settled cfg y).sock.sendBuf = _
      rw [hy.settled, (h.unused y hy).sendBuf]
      rfl
    · show ((s.ep y).settled cfg y).sock.sendBuf = _
      rw [Endpoint.settled_of_synRcvd hy.state]
      rfl
    · rw [hy.settled_ep]
  unfold Sys.NoWrap at hw ⊢
  rw [hsame, hsame]
  exact hw

/-- What a step of `x` that sends `packets` and leaves `e` leaves of the settled connection. -/
structure Sys.Opens.After (cfg : Config) (s : Sys) (x : Side) (e : Endpoint)
    (packets : List Packet) : Prop where
  unused : e.Unopened cfg x → e.Unused cfg x
  settled : ∃ out inn, ((s.settled cfg).put x (e.settled cfg x,
    packets.filter Packet.isAck)).Invariant cfg out inn

/-- Nothing is left to show if the settled endpoint only goes on, and sends no data. -/
theorem Sys.Opens.after_of_continues (h : s.Opens cfg out inn) {e : Endpoint}
    {packets : List Packet} (hunused : e.Unopened cfg x → e.Unused cfg x)
    (hfilter : ∀ p ∈ packets, p.isAck = false)
    (hc : (s.settled cfg).Continues cfg out inn x (e.settled cfg x) [] (out x) (inn x)) :
    Sys.Opens.After cfg s x e packets := by
  refine ⟨hunused, Function.update out x (out x), Function.update inn x (inn x), ?_⟩
  rw [List.filter_eq_nil_iff.mpr fun p hp => by simp [hfilter p hp]]
  exact h.settled.put hc

/-- An endpoint that begins refines what the settled one did. -/
theorem Sys.Opens.continues_begins (h : s.Opens cfg out inn) {e : Endpoint}
    (hx : (s.ep x).Unopened cfg x) (he : e.Begins cfg x) :
    (s.settled cfg).Continues cfg out inn x e [] (out x) (inn x) := by
  -- the settled endpoint is the one right after the handshake, and so is what begins
  have hep : (s.settled cfg).ep x = cfg.established.ep x := hx.settled
  have href := h.settled.endpoint x
  have hreceived := h.settled.received x
  rw [hep] at href hreceived
  exact {
    refines := {
      sock := ⟨he.unused.sendBuf ▸ href.sock.sendBuf, he.recvBuf ▸ href.sock.recvBuf,
        he.lastAck ▸ href.sock.lastAck, he.nextSeq ▸ href.sock.nextSeq⟩
      passed := by
        rw [he.unused.passed, he.unused.pending]
        exact href.passed
      pending := by simp [he.unused.pending]
      notEntry := by simp [he.pc]
      notHandshake := by simp [he.pc]
      dying := fun _ => he.unused.pending
      leaving := by simp [he.pc]
      exited := by simp [he.pc]
      crashed := by simp [he.pc] }
    -- nothing has been written, sent or received, so no counter moves
    sendCapacity := rfl
    recvCapacity := rfl
    written := List.prefix_refl _
    sent := le_refl _
    next := le_refl _
    acked_lt := h.settled.acked_lt x
    within := by simpa using h.settled.within x.other
    sentFrom := by simp
    honest := by simp
    strayed := fun _ => by
      rw [hep]
      rfl
    stream := fun _ hlap => ⟨hlap, by simp⟩
    received := fun hy => by
      obtain ⟨hholds, hdelivered⟩ := hreceived hy
      rw [he.recvBuf, he.unused.delivered]
      exact ⟨hholds, hdelivered⟩ }

/-! ## Steps of the backend threads -/

section Backend

variable {now : Int} {beyond : ℕ → UInt8} {r : Except Fault (Endpoint × List Packet)}

theorem Sys.Opens.after_of_open (h : s.Opens cfg out inn) {e : Endpoint} (he : e.Open cfg x)
    {packets : List Packet} (hflags : ∀ p ∈ packets, p.header.flags = ackFlagMask)
    {o : SendStream UInt8} {i : Reassembly}
    (hc : (s.settled cfg).Continues cfg out inn x e packets o i) :
    Sys.Opens.After cfg s x e packets := by
  refine ⟨fun hu => absurd he.state hu.state_ne, Function.update out x o, Function.update inn x i,
    ?_⟩
  rw [Endpoint.settled_of_established he.state,
    List.filter_eq_self.mpr fun p hp => Packet.isAck_iff.mpr (hflags p hp)]
  exact h.settled.put hc

/-- A step of the backend thread that receives no packet. -/
theorem Sys.Opens.silent (h : s.Opens cfg out inn) (hw : s.NoWrap)
    (hstep : backendSilent (s.ep x) now beyond = some r) :
    ∃ e packets, r = .ok (e, packets) ∧ Sys.Opens.After cfg s x e packets := by
  rcases h.staged.phase x with hx | ⟨rfl, hx⟩ | hx
  · obtain ⟨e, packets, rfl, he, hsyn⟩ := hx.backendSilent hstep
    refine ⟨e, packets, rfl, h.after_of_continues (fun _ => (h.unused x hx).silent hx hstep)
      (fun p hp => Packet.isAck_of_hasSyn (hsyn p hp).2.hasSyn) ?_⟩
    have hsame : e.settled cfg x = (s.settled cfg).ep x := he.settled.trans hx.settled.symm
    rw [hsame]
    exact h.settled.continues_idle ⟨rfl, rfl, rfl, rfl, rfl⟩ (h.settled.endpoint x)
  · exact absurd (hx.backendSilent.symm.trans hstep) (by simp)
  · have hsilent := hstep
    rw [← hx.settled_ep] at hsilent
    have hopen := hx.backendSilent hstep
    by_cases hpc : ((s.settled cfg).ep x).pc = .transmit
    · obtain ⟨sent, n, ht, htransmit, _, hc⟩ := h.settled.transmit (h.noWrap hw) x now beyond
      simp only [backendSilent, hpc, htransmit, Option.some.injEq] at hsilent
      obtain rfl := hsilent
      obtain ⟨he, _, hflags⟩ := hopen.2 _ _ rfl
      exact ⟨_, _, rfl, h.after_of_open he (fun p hp => (hflags p hp).flags) hc⟩
    · obtain ⟨e, rfl, _, hc⟩ := h.settled.backendSilent (h.noWrap hw) hsilent hpc
      obtain ⟨he, _, hflags⟩ := hopen.2 e [] rfl
      exact ⟨e, [], rfl, h.after_of_open he (fun p hp => (hflags p hp).flags) hc⟩

/-- An ACK reaches an open endpoint. -/
theorem Sys.Opens.receive_open (h : s.Opens cfg out inn) (hw : s.NoWrap)
    (hx : (s.ep x).Open cfg x) {source : SockAddr} {p : Packet} (hp : p ∈ s.net x)
    (hflags : p.header.flags = ackFlagMask)
    (hstep : backendReceive (s.ep x) now source p = some r) :
    ∃ e packets, r = .ok (e, packets) ∧ Sys.Opens.After cfg s x e packets := by
  have hreceive := hstep
  rw [← hx.settled_ep] at hreceive
  have hmem : p ∈ (s.settled cfg).net x := Sys.mem_settled_net.mpr ⟨hp, hflags⟩
  obtain ⟨j, hj⟩ := List.getElem?_of_mem hmem
  obtain ⟨e, packets, a, ha, i, rfl, hc, _⟩ := h.settled.receive (h.noWrap hw) hj hreceive
  obtain ⟨he, hacks, _⟩ := (hx.receiveAck hflags hstep).2 e packets rfl
  exact ⟨e, packets, rfl, h.after_of_open he hacks { hc with }⟩

/-- A SYN-ACK opens the client. -/
theorem Sys.Opens.receive_synAck (h : s.Opens cfg out inn)
    (hx : (s.ep .client).Unopened cfg .client) {source : SockAddr} {p : Packet}
    (hp : p.IsSynAck (cfg.isn .server) (cfg.isn .client)) (hlt : (cfg.isn .server).toNat < 2 ^ 31)
    (hstep : backendReceive (s.ep .client) now source p = some r) :
    ∃ e packets, r = .ok (e, packets) ∧ Sys.Opens.After cfg s .client e packets := by
  obtain ⟨e, packets, rfl, he, _⟩ := hx.receiveSynAck hp hstep
  -- the client begins, and what it sends is the ACK of the SYN-ACK
  obtain ⟨hbegins, hacks⟩ := (h.unused _ hx).receiveSynAck hx hp hstep
  refine ⟨e, packets, rfl, fun hu => absurd he.state hu.state_ne, out, inn, ?_⟩
  -- that ACK has no data
  have hnone : ∀ q ∈ packets, getPayloadLen q = 0 := by
    intro q hq
    rw [getPayloadLen, (hacks q hq).2.2.1]
    exact UInt16.sub_self _
  -- it names position `1`, where both sides begin
  have hhonest : ∀ q ∈ packets, q.Honest (cfg.isn .client).toNat (cfg.isn .server).toNat
      (out .client).sent (inn .client).next := by
    intro q hq
    obtain ⟨hflags, hack, _, hbody⟩ := hacks q hq
    refine ⟨hflags, ?_, fun hne => absurd (hnone q hq) hne, 1, ?_, Nat.one_pos, ?_⟩
    · rw [getPayload, hbody, hnone q hq]
      simp
    · rw [hack, UInt32.toNat_add, UInt32.toNat_one]
      omega
    · exact Nat.succ_le_of_lt (lt_of_le_of_lt (Nat.zero_le _) (inn .client).read_lt_next)
  -- the settled connection keeps its endpoints, and gets the ACK
  have hput := h.settled.put (h.continues_begins hx hbegins)
  rw [Function.update_eq_self, Function.update_eq_self] at hput
  have hjoin := hput.acks .client hhonest hnone
  rw [Sys.ep_put_self, Sys.put_put] at hjoin
  -- the filter of `settled` keeps it
  rw [Endpoint.settled_of_established he.state,
    List.filter_eq_self.mpr fun q hq => Packet.isAck_iff.mpr (hacks q hq).1]
  exact hjoin

/-- A SYN half opens the server. -/
theorem Sys.Opens.receive_syn (h : s.Opens cfg out inn)
    (hx : (s.ep .server).Unopened cfg .server) {source : SockAddr} {p : Packet}
    (hp : p.IsSyn (cfg.isn .client)) (hstep : backendReceive (s.ep .server) now source p = some r) :
    ∃ e packets, r = .ok (e, packets) ∧ Sys.Opens.After cfg s .server e packets := by
  obtain ⟨e, packets, rfl, he, hsynAcks, _⟩ := hx.receiveSyn hp hstep
  have hbegins := (h.unused _ hx).receiveSyn hx hp hstep
  refine ⟨e, packets, rfl, h.after_of_continues (fun hu => absurd (he.initCalls.symm.trans
    hu.initCalls) (by simp)) (fun q hq => Packet.isAck_of_hasSyn (hsynAcks q hq).hasSyn) ?_⟩
  rw [Endpoint.settled_of_synRcvd he.state]
  exact h.continues_begins hx hbegins

/-- A SYN that arrives again changes nothing. -/
theorem Sys.Opens.receive_synAgain (h : s.Opens cfg out inn) (hx : (s.ep .server).HalfOpen cfg)
    {source : SockAddr} {p : Packet} (hp : p.IsSyn (cfg.isn .client))
    (hstep : backendReceive (s.ep .server) now source p = some r) :
    ∃ e packets, r = .ok (e, packets) ∧ Sys.Opens.After cfg s .server e packets := by
  obtain ⟨e, packets, rfl, he, hsynAcks, _⟩ := hx.receiveSyn hp hstep
  have hsame := hx.receiveSyn_eq hp hstep
  have hep : (s.settled cfg).ep .server = (s.ep .server).opened :=
    Endpoint.settled_of_synRcvd hx.state
  have href := h.settled.endpoint .server
  refine ⟨e, packets, rfl, h.after_of_continues (fun hu => absurd (he.initCalls.symm.trans
    hu.initCalls) (by simp)) (fun q hq => Packet.isAck_of_hasSyn (hsynAcks q hq).hasSyn) ?_⟩
  rw [Endpoint.settled_of_synRcvd he.state, hsame]
  rw [hep] at href
  refine h.settled.continues_idle ?_ ?_
  · rw [hep]
    exact ⟨rfl, rfl, rfl, rfl, rfl⟩
  · exact { href with
      sock := ⟨href.sock.sendBuf, href.sock.recvBuf, href.sock.lastAck, href.sock.nextSeq⟩ }

/-- The ACK of the SYN-ACK opens the server. -/
theorem Sys.Opens.receive_opening (h : s.Opens cfg out inn) (hw : s.NoWrap)
    (hx : (s.ep .server).HalfOpen cfg) {source : SockAddr} {p : Packet} (hmem : p ∈ s.net .server)
    (hp : p.IsAck (cfg.isn .server + 1)) (hlt : (cfg.isn .server).toNat < 2 ^ 31)
    (hstep : backendReceive (s.ep .server) now source p = some r) :
    ∃ e packets, r = .ok (e, packets) ∧ Sys.Opens.After cfg s .server e packets := by
  have hep : (s.settled cfg).ep .server = (s.ep .server).opened :=
    Endpoint.settled_of_synRcvd hx.state
  have href := h.settled.endpoint .server
  rw [hep] at href
  have hsucc : (cfg.isn .server + 1).toNat = (cfg.isn .server).toNat + 1 := by
    rw [UInt32.toNat_add, UInt32.toNat_one]
    omega
  -- no byte of the server is acknowledged yet
  have hacked : (s.ep .server).sock.sendBuf.lastByteAckedSeqnum = cfg.isn .server := by
    have hlast : (cfg.isn .server + 1).toNat = (cfg.isn .server).toNat + (out .server).acked + 1 :=
      hx.lastAck ▸ href.sock.lastAck
    have hsend : (s.ep .server).sock.sendBuf.lastByteAckedSeqnum.toNat =
        (cfg.isn .server).toNat + (out .server).acked := href.sock.sendBuf.acked
    exact UInt32.toNat_inj.mp (by omega)
  obtain ⟨r', hreceive, rfl⟩ := hx.receiveAck_eq hacked (by omega) hp hstep
  -- the settled connection, with its server looking for packets
  have hidle : ((s.settled cfg).ep .server).Idles
      { (s.ep .server).opened with pc := .checkData } := by
    rw [hep]
    exact ⟨rfl, rfl, rfl, rfl, rfl⟩
  have hlooks := h.settled.put (h.settled.continues_idle hidle { href with
    notEntry := by simp
    notHandshake := by simp
    leaving := by simp
    exited := by simp
    crashed := by simp })
  rw [Function.update_eq_self, Function.update_eq_self] at hlooks
  have hnoWrap : ((s.settled cfg).put .server
      ({ (s.ep .server).opened with pc := .checkData }, [])).NoWrap := by
    have hwrap := h.noWrap hw
    unfold Sys.NoWrap at hwrap ⊢
    rw [hep] at hwrap
    exact hwrap
  have hsettled : p ∈ (s.settled cfg).net .server := Sys.mem_settled_net.mpr ⟨hmem, hp.flags⟩
  obtain ⟨j, hj⟩ := List.getElem?_of_mem hsettled
  obtain ⟨e, packets, a, ha, i, rfl, hc, _⟩ := hlooks.receive hnoWrap (x := .server) hj hreceive
  obtain ⟨he, hacks, _⟩ := (hx.receiveAck hlt hp hstep).2 _ packets rfl
  exact ⟨_, packets, rfl, h.after_of_open he hacks { hc with
    refines := { hc.refines with
      notEntry := by simp
      notHandshake := by simp
      leaving := by simp
      exited := by simp
      crashed := by simp }
    strayed := fun hy => by
      rw [hep]
      exact hc.strayed hy }⟩

/-- **A step of the backend thread that receives a packet**: a SYN that reaches an endpoint
    in its loop, or it succeeds. -/
theorem Sys.Opens.receive (h : s.Opens cfg out inn) (hw : s.NoWrap)
    (hlt : (cfg.isn .server).toNat < 2 ^ 31) {source : SockAddr} {p : Packet} (hp : p ∈ s.net x)
    (hstep : backendReceive (s.ep x) now source p = some r) :
    ((s.ep x).pc = .checkData ∧ p.hasFlag synFlagMask = true) ∨
      ∃ e packets, r = .ok (e, packets) ∧ Sys.Opens.After cfg s x e packets := by
  -- a SYN or a SYN-ACK that reaches an open endpoint
  have hlate : (s.ep x).Open cfg x → p.hasFlag synFlagMask = true →
      (s.ep x).pc = .checkData ∧ p.hasFlag synFlagMask = true :=
    fun hx hsyn => ⟨(backendReceive_eq_some hx.notHandshake hstep).1, hsyn⟩
  cases x with
  | client =>
    rcases h.staged.toClient hp with hsynAck | ⟨hx, hflags⟩
    · rcases h.staged.client_cases with hx | hx
      · exact Or.inr (h.receive_synAck hx hsynAck hlt hstep)
      · exact Or.inl (hlate hx hsynAck.hasSyn)
    · exact Or.inr (h.receive_open hw hx hp hflags hstep)
  | server =>
    rcases h.staged.toServer hp with hsyn | ⟨hx, hack⟩ | ⟨hx, hflags⟩
    · rcases h.staged.phase .server with hx | ⟨_, hx⟩ | hx
      · exact Or.inr (h.receive_syn hx hsyn hstep)
      · exact Or.inr (h.receive_synAgain hx hsyn hstep)
      · exact Or.inl (hlate hx hsyn.hasSyn)
    · exact Or.inr (h.receive_opening hw hx hp hack hlt hstep)
    · exact Or.inr (h.receive_open hw hx hp hflags hstep)

end Backend

/-! ## Steps of the applications -/

section Applications

variable {r : Except Fault Endpoint}

/-- An application steps on a half-open server as on the open one. -/
theorem Sys.Opens.settled_app (h : s.Opens cfg out inn)
    {f : Endpoint → Option (Except Fault Endpoint)} (hstep : f (s.ep x) = some r)
    (happ : (s.ep x).AppStep r) (hopened : f (s.ep x).opened = some (r.map Endpoint.opened)) :
    f ((s.settled cfg).ep x) = some (r.map (Endpoint.settled cfg x)) := by
  rcases h.staged.phase x with hx | ⟨rfl, hx⟩ | hx
  · exact absurd happ hx.not_appStep
  · have hep : (s.settled cfg).ep .server = (s.ep .server).opened :=
      Endpoint.settled_of_synRcvd hx.state
    rw [hep, hopened]
    cases r with
    | error fault => rfl
    | ok e =>
      have hstate : e.sock.state = .synRcvd := (happ.same e rfl).1.state.trans hx.state
      exact congrArg (fun t => some (Except.ok t)) (Endpoint.settled_of_synRcvd hstate).symm
  · rw [hx.settled_ep, hstep]
    cases r with
    | error fault => rfl
    | ok e =>
      have hstate : e.sock.state = .established := (happ.same e rfl).1.state.trans hx.state
      exact congrArg (fun t => some (Except.ok t)) (Endpoint.settled_of_established hstate).symm

/-- If the settled endpoint goes on, so does the endpoint. -/
theorem Sys.Opens.after_app (h : s.Opens cfg out inn) (happ : (s.ep x).AppStep r) {e : Endpoint}
    {o : SendStream UInt8} {i : Reassembly} (he : r.map (Endpoint.settled cfg x) = .ok e)
    (hc : (s.settled cfg).Continues cfg out inn x e [] o i) :
    ∃ e, r = .ok e ∧ Sys.Opens.After cfg s x e [] := by
  obtain ⟨e, rfl, rfl⟩ := ok_of_map_ok he
  refine ⟨e, rfl, fun hu => ?_, Function.update out x o, Function.update inn x i, h.settled.put hc⟩
  -- an application has used the socket, so its peer has been heard from
  obtain ⟨hsame, _⟩ := happ.same e rfl
  rcases h.staged.phase x with hx | ⟨rfl, hx⟩ | hx
  · exact absurd happ hx.not_appStep
  · exact absurd (hsame.initCalls.trans hx.initCalls) (by simp [hu.initCalls])
  · exact absurd (hsame.initCalls.trans hx.initCalls) (by simp [hu.initCalls])

theorem Sys.Opens.writeCall (h : s.Opens cfg out inn) {data : List UInt8} {e : Endpoint}
    (hstep : appWriteCall (s.ep x) data = some e) : Sys.Opens.After cfg s x e [] := by
  have happ := appWriteCall_appStep hstep
  have hcall := h.settled_app (f := fun e => (appWriteCall e data).map .ok)
    (by simp only [hstep, Option.map_some]) happ
    (by simp only [appWriteCall_opened hstep, Option.map_some]; rfl)
  obtain ⟨e', he', heq⟩ := Option.map_eq_some_iff.mp hcall
  obtain ⟨t, ht, hafter⟩ := h.after_app happ heq.symm (h.settled.writeCall he').2
  obtain rfl := Except.ok.inj ht
  exact hafter

theorem Sys.Opens.close (h : s.Opens cfg out inn) {e : Endpoint}
    (hstep : appClose (s.ep x) = some e) : Sys.Opens.After cfg s x e [] := by
  have happ := appClose_appStep hstep
  have hcall := h.settled_app (f := fun e => (appClose e).map .ok)
    (by simp only [hstep, Option.map_some]) happ
    (by simp only [appClose_opened hstep, Option.map_some]; rfl)
  obtain ⟨e', he', heq⟩ := Option.map_eq_some_iff.mp hcall
  obtain ⟨t, ht, hafter⟩ := h.after_app happ heq.symm (h.settled.close he').2
  obtain rfl := Except.ok.inj ht
  exact hafter

theorem Sys.Opens.write (h : s.Opens cfg out inn) (hw : s.NoWrap)
    (hstep : appWrite (s.ep x) = some r) : ∃ e, r = .ok e ∧ Sys.Opens.After cfg s x e [] := by
  have happ := appWrite_appStep hstep
  obtain ⟨e, o, he, hc, _⟩ := h.settled.write (h.noWrap hw)
    (h.settled_app hstep happ (appWrite_opened hstep))
  exact h.after_app happ he hc

theorem Sys.Opens.read (h : s.Opens cfg out inn) {length : Int} {flags : CmuReadMode}
    (hstep : appRead (s.ep x) length flags = some r) :
    ∃ e, r = .ok e ∧ Sys.Opens.After cfg s x e [] := by
  have happ := appRead_appStep hstep
  obtain ⟨e, n, hn, he, hc, _⟩ := h.settled.read
    (h.settled_app (f := fun e => appRead e length flags) hstep happ (appRead_opened hstep))
  exact h.after_app happ he hc

end Applications

/-! ## Every step -/

/-- The endpoint `x` steps, and takes a packet out of those in flight perhaps. -/
theorem Sys.Opens.put (h : s.Opens cfg out inn) {e : Endpoint} {packets : List Packet}
    (hafter : Sys.Opens.After cfg s x e packets) {t : Sys} (hep : t.ep = s.ep)
    (hnet : ∀ y, ∀ p ∈ t.net y, p ∈ s.net y) (hstaged : (t.put x (e, packets)).Staged cfg) :
    ∃ out' inn', (t.put x (e, packets)).Opens cfg out' inn' := by
  obtain ⟨hunused, out', inn', hinv⟩ := hafter
  refine ⟨out', inn', hstaged, Side.forall_of x ?_ ?_, hinv.of_net (funext ?_) ?_⟩
  -- the endpoint that has stepped
  · rw [Sys.ep_put_self]
    exact hunused
  · rw [Sys.ep_put_other, hep]
    exact h.unused x.other
  -- the settled connection is that of the step, endpoint by endpoint
  · refine Side.forall_of x ?_ ?_
    · rw [Sys.ep_put_self]
      show ((t.put x (e, packets)).ep x).settled cfg x = _
      rw [Sys.ep_put_self]
    · rw [Sys.ep_put_other]
      show ((t.put x (e, packets)).ep x.other).settled cfg x.other = _
      rw [Sys.ep_put_other, hep]
      rfl
  -- what is in flight in it was there before, or is new
  · refine Side.forall_of x ?_ ?_
    · intro p hp
      obtain ⟨hmem, hflags⟩ := Sys.mem_settled_net.mp hp
      rw [Sys.net_put_self] at hmem ⊢
      exact Sys.mem_settled_net.mpr ⟨hnet x p hmem, hflags⟩
    · intro p hp
      obtain ⟨hmem, hflags⟩ := Sys.mem_settled_net.mp hp
      rw [Sys.net_put_other] at hmem ⊢
      refine List.mem_append.mpr ((List.mem_append.mp hmem).imp (fun hold => ?_) fun hnew => ?_)
      · exact Sys.mem_settled_net.mpr ⟨hnet x.other p hold, hflags⟩
      · exact List.mem_filter.mpr ⟨hnew, Packet.isAck_iff.mpr hflags⟩

/-- The network loses or duplicates a packet. -/
theorem Sys.Opens.net (h : s.Opens cfg out inn) {t : Sys} (hep : t.ep = s.ep)
    (hnet : ∀ y, ∀ p ∈ t.net y, p ∈ s.net y) (hstaged : t.Staged cfg) : t.Opens cfg out inn where
  staged := hstaged
  unused := hep ▸ h.unused
  settled := by
    refine h.settled.of_net (funext fun y => ?_) fun y p hp => ?_
    · show (t.ep y).settled cfg y = _
      rw [hep]
      rfl
    · obtain ⟨hmem, hflags⟩ := Sys.mem_settled_net.mp hp
      exact Sys.mem_settled_net.mpr ⟨hnet y p hmem, hflags⟩

/-- **No step faults** from a state of the lifetime, except where a SYN reaches an endpoint
    in its loop. -/
theorem Sys.Opens.step (h : s.Opens cfg out inn) (hw : s.NoWrap)
    (hlt : (cfg.isn .server).toNat < 2 ^ 31) {l : Label} {r : Except Fault Sys}
    (hstep : s.step l = some r) :
    l.DeliversSyn s ∨ ∃ s' out' inn', r = .ok s' ∧ s'.Opens cfg out' inn' := by
  -- the stage of the handshake is kept by every step
  have hnext : ∀ s', r = .ok s' → s'.Staged cfg := fun s' hs' =>
    ((h.staged.step hlt hstep).next s' hs').1
  have hsame : ∀ y, ∀ p ∈ s.net y, p ∈ s.net y := fun _ _ hp => hp
  cases l with
  | backend x now beyond =>
    obtain ⟨r', hr', rfl⟩ := Option.map_eq_some_iff.mp hstep
    obtain ⟨e, packets, rfl, hafter⟩ := h.silent hw hr'
    obtain ⟨out', inn', hopens⟩ := h.put hafter rfl hsame (hnext _ rfl)
    exact Or.inr ⟨_, out', inn', rfl, hopens⟩
  | receive x now i =>
    simp only [Sys.step] at hstep
    split at hstep
    · rename_i p hp
      obtain ⟨r', hr', rfl⟩ := Option.map_eq_some_iff.mp hstep
      -- a SYN that reaches an endpoint in its loop is the exception
      rcases h.receive hw hlt (List.mem_of_getElem? hp) hr' with ⟨hpc, hsyn⟩ | hok
      · exact Or.inl ⟨hpc, p, hp, hsyn⟩
      · obtain ⟨e, packets, rfl, hafter⟩ := hok
        obtain ⟨out', inn', hopens⟩ := h.put hafter (t := s.takePacket x i) rfl
          (fun _ _ => s.mem_net_takePacket x i) (hnext _ rfl)
        exact Or.inr ⟨_, out', inn', rfl, hopens⟩
    · exact absurd hstep (by simp)
  | writeCall x data =>
    obtain ⟨e, he, rfl⟩ := Option.map_eq_some_iff.mp hstep
    obtain ⟨out', inn', hopens⟩ := h.put (h.writeCall he) rfl hsame (hnext _ rfl)
    exact Or.inr ⟨_, out', inn', rfl, hopens⟩
  | write x =>
    obtain ⟨r', hr', rfl⟩ := Option.map_eq_some_iff.mp hstep
    obtain ⟨e, rfl, hafter⟩ := h.write hw hr'
    obtain ⟨out', inn', hopens⟩ := h.put hafter rfl hsame (hnext _ rfl)
    exact Or.inr ⟨_, out', inn', rfl, hopens⟩
  | read x length flags =>
    obtain ⟨r', hr', rfl⟩ := Option.map_eq_some_iff.mp hstep
    obtain ⟨e, rfl, hafter⟩ := h.read hr'
    obtain ⟨out', inn', hopens⟩ := h.put hafter rfl hsame (hnext _ rfl)
    exact Or.inr ⟨_, out', inn', rfl, hopens⟩
  | close x =>
    obtain ⟨e, he, rfl⟩ := Option.map_eq_some_iff.mp hstep
    obtain ⟨out', inn', hopens⟩ := h.put (h.close he) rfl hsame (hnext _ rfl)
    exact Or.inr ⟨_, out', inn', rfl, hopens⟩
  | lose x i =>
    -- the network changes the packets in flight only
    simp only [Sys.step] at hstep
    split at hstep
    · obtain rfl := Option.some.inj hstep
      exact Or.inr ⟨_, out, inn, rfl, h.net rfl (fun _ _ => s.mem_net_takePacket x i)
        (hnext _ rfl)⟩
    · exact absurd hstep (by simp)
  | duplicate x i =>
    simp only [Sys.step] at hstep
    split at hstep
    · rename_i p hp
      obtain rfl := Option.some.inj hstep
      exact Or.inr ⟨_, out, inn, rfl, h.net rfl (fun _ _ => Sys.mem_net_duplicate hp)
        (hnext _ rfl)⟩
    · exact absurd hstep (by simp)

end Steps

/-! ## What strays -/

section Strays

variable {e e' : Endpoint} {now : Int} {beyond : ℕ → UInt8} {packets : List Packet}

/-- Only the sending part of an iteration copies out of the send ring. -/
theorem backendSilent_strayed (hpc : e.pc ≠ .transmit)
    (h : backendSilent e now beyond = some (.ok (e', packets))) : e'.strayed = e.strayed := by
  unfold backendSilent at h
  split at h
  -- entering the handshake
  case h_1 =>
    unfold enterHandshake at h
    split at h
    · obtain ⟨_, _, hret⟩ := ok_of_bind_ok (Option.some.inj h)
      obtain ⟨rfl, _⟩ := Prod.mk.inj (Except.ok.inj hret)
      rfl
    · obtain ⟨_, _, hret⟩ := ok_of_bind_ok (Option.some.inj h)
      obtain ⟨rfl, _⟩ := Prod.mk.inj (Except.ok.inj hret)
      rfl
  -- the client sends its SYN again
  case h_2 =>
    split at h
    · obtain ⟨_, _, hret⟩ := ok_of_bind_ok (Option.some.inj h)
      obtain ⟨rfl, _⟩ := Prod.mk.inj (Except.ok.inj hret)
      rfl
    · exact absurd h (by simp)
  -- the steps of the loop around the sending part
  case h_3 =>
    obtain ⟨rfl, _⟩ := Prod.mk.inj (Except.ok.inj (Option.some.inj h))
    rfl
  case h_4 =>
    obtain ⟨rfl, _⟩ := Prod.mk.inj (Except.ok.inj (Option.some.inj h))
    rfl
  case h_5 =>
    obtain ⟨rfl, _⟩ := Prod.mk.inj (Except.ok.inj (Option.some.inj h))
    rfl
  case h_6 htransmit => exact absurd htransmit hpc
  -- a thread that has left, and a process that has died
  case h_7 => exact absurd h (by simp)
  case h_8 => exact absurd h (by simp)

theorem backendReceive_strayed {source : SockAddr} {p : Packet}
    (h : backendReceive e now source p = some (.ok (e', packets))) : e'.strayed = e.strayed := by
  unfold backendReceive at h
  dsimp only at h
  split at h
  -- a packet of the handshake, for the client or for the server
  case h_1 =>
    split at h
    · obtain ⟨_, _, hret⟩ := ok_of_bind_ok (Option.some.inj h)
      obtain ⟨rfl, _⟩ := Prod.mk.inj (Except.ok.inj hret)
      rfl
    · have hiteration := Option.some.inj h
      unfold serverIteration at hiteration
      split at hiteration
      · obtain ⟨_, _, hret⟩ := ok_of_bind_ok hiteration
        obtain ⟨rfl, _⟩ := Prod.mk.inj (Except.ok.inj hret)
        rfl
      · obtain ⟨_, _, hret⟩ := ok_of_bind_ok hiteration
        dsimp only at hret
        split at hret
        · obtain ⟨rfl, _⟩ := Prod.mk.inj (Except.ok.inj hret)
          rfl
        · obtain ⟨rfl, _⟩ := Prod.mk.inj (Except.ok.inj hret)
          rfl
  -- a packet in the loop
  case h_2 =>
    obtain ⟨_, _, hret⟩ := ok_of_bind_ok (Option.some.inj h)
    obtain ⟨rfl, _⟩ := Prod.mk.inj (Except.ok.inj hret)
    rfl
  case h_3 => exact absurd h (by simp)

/-- The label is the sending part of an iteration. -/
def Label.Transmits (s : Sys) : Label → Prop
  | .backend x _ _ => (s.ep x).pc = .transmit
  | _ => False

/-- Any other step leaves the records of what strayed. -/
theorem Sys.step_strayed {s s' : Sys} {l : Label} (hl : ¬ l.Transmits s)
    (hstep : s.step l = some (.ok s')) : ∀ y, (s'.ep y).strayed = (s.ep y).strayed := by
  -- it is enough that the endpoint that steps has the same record
  have hput : ∀ (t : Sys) {x : Side} {e : Endpoint} {packets : List Packet}, t.ep = s.ep →
      e.strayed = (s.ep x).strayed →
      ∀ y, ((t.put x (e, packets)).ep y).strayed = (s.ep y).strayed := by
    intro t x e packets hep he
    refine Side.forall_of x ?_ ?_
    · rw [Sys.ep_put_self, he]
    · rw [Sys.ep_put_other, hep]
  cases l with
  | backend x now beyond =>
    obtain ⟨r, hr, hret⟩ := Option.map_eq_some_iff.mp hstep
    obtain ⟨pair, rfl, rfl⟩ := ok_of_map_ok hret
    exact hput s rfl (backendSilent_strayed hl hr)
  | receive x now i =>
    simp only [Sys.step] at hstep
    split at hstep
    · obtain ⟨r, hr, hret⟩ := Option.map_eq_some_iff.mp hstep
      obtain ⟨pair, rfl, rfl⟩ := ok_of_map_ok hret
      exact hput (s.takePacket x i) rfl (backendReceive_strayed hr)
    · exact absurd hstep (by simp)
  | writeCall x data =>
    obtain ⟨e, he, hret⟩ := Option.map_eq_some_iff.mp hstep
    obtain rfl := Except.ok.inj hret
    obtain ⟨_, rfl⟩ := appWriteCall_eq_some he
    exact hput s rfl rfl
  | write x =>
    obtain ⟨r, hr, hret⟩ := Option.map_eq_some_iff.mp hstep
    obtain ⟨e, rfl, rfl⟩ := ok_of_map_ok hret
    obtain ⟨_, _, _, _, _, rfl⟩ := appWrite_ok hr
    exact hput s rfl rfl
  | read x length flags =>
    obtain ⟨r, hr, hret⟩ := Option.map_eq_some_iff.mp hstep
    obtain ⟨e, rfl, rfl⟩ := ok_of_map_ok hret
    obtain ⟨_, _, _, _, rfl⟩ := appRead_ok hr
    exact hput s rfl rfl
  | close x =>
    obtain ⟨e, he, hret⟩ := Option.map_eq_some_iff.mp hstep
    obtain rfl := Except.ok.inj hret
    obtain ⟨_, rfl⟩ := appClose_eq_some he
    exact hput s rfl rfl
  | lose x i =>
    simp only [Sys.step] at hstep
    split at hstep
    · obtain rfl := Except.ok.inj (Option.some.inj hstep)
      exact fun _ => rfl
    · exact absurd hstep (by simp)
  | duplicate x i =>
    simp only [Sys.step] at hstep
    split at hstep
    · obtain rfl := Except.ok.inj (Option.some.inj hstep)
      exact fun _ => rfl
    · exact absurd hstep (by simp)

end Strays

/-! ## Runs -/

section Runs

variable {cfg : Config} {s : Sys} {out : Side → SendStream UInt8} {inn : Side → Reassembly}

/-- What the settled connection says about the records of the endpoints. -/
theorem Sys.Opens.records (h : s.Opens cfg out inn) (x : Side) :
    ((s.settled cfg).ep x).strayed = (s.ep x).strayed ∧
      ((s.settled cfg).ep x).passed = (s.ep x).passed ∧
      ((s.settled cfg).ep x).delivered = (s.ep x).delivered := by
  show ((s.ep x).settled cfg x).strayed = _ ∧ ((s.ep x).settled cfg x).passed = _ ∧
    ((s.ep x).settled cfg x).delivered = _
  rcases h.staged.phase x with hx | ⟨rfl, hx⟩ | hx
  · have hu := h.unused x hx
    rw [hx.settled, hu.strayed, hu.passed, hu.delivered]
    exact ⟨rfl, rfl, rfl⟩
  · rw [Endpoint.settled_of_synRcvd hx.state]
    exact ⟨rfl, rfl, rfl⟩
  · rw [Endpoint.settled_of_established hx.state]
    exact ⟨rfl, rfl, rfl⟩

theorem Sys.Opens.delivers_iff (h : s.Opens cfg out inn) (x : Side) :
    s.Delivers x ↔ (s.ep x).strayed = false := by
  obtain ⟨hstrayed, hpassed, _⟩ := h.records x
  obtain ⟨_, _, hdelivered⟩ := h.records x.other
  rw [← hstrayed, ← h.settled.delivers_iff x]
  constructor
  · rintro ⟨hin, hpre⟩
    exact ⟨hstrayed ▸ hin, by rwa [hpassed, hdelivered]⟩
  · rintro ⟨hin, hpre⟩
    exact ⟨hstrayed ▸ hin, by rwa [hpassed, hdelivered] at hpre⟩

/-- A step keeps both directions delivering exactly if it meets the condition. -/
theorem Sys.Opens.step_delivers_iff (h : s.Opens cfg out inn) (hw : s.NoWrap)
    (hd : ∀ x, s.Delivers x) {l : Label} {s' : Sys} (hstep : s.step l = some (.ok s'))
    {out' : Side → SendStream UInt8} {inn' : Side → Reassembly} (h' : s'.Opens cfg out' inn') :
    (∀ x, s'.Delivers x) ↔ l.EndsBeforeRing s := by
  simp only [h'.delivers_iff]
  have hs : ∀ x, (s.ep x).strayed = false := fun x => (hd x).inBounds
  by_cases hl : l.Transmits s
  · cases l with
    | backend x now beyond =>
      have hpc : (s.ep x).pc = .transmit := hl
      -- a side that transmits is open
      have hopen := h.staged.open_of_pc (x := x) (by simp [hpc]) (by simp [hpc])
      have hep := hopen.settled_ep
      obtain ⟨r, hr, hret⟩ := Option.map_eq_some_iff.mp hstep
      obtain ⟨pair, rfl, rfl⟩ := ok_of_map_ok hret
      obtain ⟨sent, n, ht, htransmit, hsent, _⟩ :=
        h.settled.transmit (h.noWrap hw) x now beyond
      rw [hep] at htransmit hsent
      simp only [backendSilent, hpc, htransmit, Option.some.injEq, Except.ok.injEq] at hr
      obtain rfl := hr
      have hfirst := (h.settled.faithful x (hep ▸ hs x)).firstLap
      have hends := h.settled.endsBeforeRing_iff (hep ▸ hpc) hfirst now beyond
      rw [hep] at hends
      have hlabel : (Label.backend x now beyond).EndsBeforeRing (s.settled cfg) ↔
          (Label.backend x now beyond).EndsBeforeRing s := by
        simp only [Label.EndsBeforeRing, hep]
      rw [← hlabel, hends, ← hsent.lap hfirst]
      constructor
      · intro hall
        have hx := hall x
        rw [Sys.ep_put_self] at hx
        exact (Endpoint.strayed_transmitted.mp hx).2
      · intro hend
        refine Side.forall_of x ?_ ?_
        · rw [Sys.ep_put_self]
          exact Endpoint.strayed_transmitted.mpr ⟨hs x, hend⟩
        · rw [Sys.ep_put_other]
          exact hs x.other
    | _ => exact hl.elim
  · refine iff_of_true (fun x => (Sys.step_strayed hl hstep x).trans (hs x)) ?_
    cases l with
    | backend x now beyond => exact fun hpc => absurd hpc hl
    | _ => trivial

/-- A SYN that reaches an endpoint in its loop aborts it. -/
theorem Label.DeliversSyn.faults {l : Label} (h : l.DeliversSyn s) :
    ∃ f, s.step l = some (.error f) := by
  cases l with
  | receive x now i =>
    obtain ⟨hpc, p, hp, hsyn⟩ := h
    have hp' : (s.net x)[i]? = some p := hp
    obtain ⟨f, hf, _⟩ := backendReceive_syn hpc hsyn now (s.addr x.other)
    exact ⟨f, by simp only [Sys.step, hp', hf]; rfl⟩
  | _ => exact h.elim

/-- A process that has died has died in a copy that is recorded. -/
theorem Sys.Opens.crashed (h : s.Opens cfg out inn) {x : Side} (hpc : (s.ep x).pc = .crashed) :
    (s.ep x).strayed = true := by
  have hopen := h.staged.open_of_pc (x := x) (by simp [hpc]) (by simp [hpc])
  have href := h.settled.endpoint x
  rw [hopen.settled_ep] at href
  exact href.crashed hpc

/-- Once the backend thread of `x` has left its loop, its peer has received in order
    everything that the application of `x` passed to `cmu_write`. -/
theorem Sys.Opens.arrived (h : s.Opens cfg out inn) (hw : s.NoWrap) {x : Side}
    (hpc : (s.ep x).pc = .exited) :
    (getNextByteExpectedSeqnum (s.ep x.other).sock.recvBuf).toNat =
      (cfg.isn x).toNat + (s.ep x).passed.length + 1 := by
  have hopen := h.staged.open_of_pc (x := x) (by simp [hpc]) (by simp [hpc])
  have hep := hopen.settled_ep
  -- the peer has been heard from
  have hpeer : ((s.settled cfg).ep x.other).sock.recvBuf = (s.ep x.other).sock.recvBuf := by
    show ((s.ep x.other).settled cfg x.other).sock.recvBuf = _
    rcases h.staged.phase x.other with hy | ⟨_, hy⟩ | hy
    · exact absurd hy (h.staged.not_unopened hopen)
    · rw [Endpoint.settled_of_synRcvd hy.state]
      rfl
    · rw [Endpoint.settled_of_established hy.state]
  have hinv := h.settled
  have href := hinv.endpoint x
  have hsafe := hinv.ackSafe (h.noWrap hw) x
  rw [hep] at href
  have hall := href.exited hpc
  have hpending := href.dying (href.leaving (Or.inr hpc))
  have hpassed := congrArg List.length href.passed
  rw [hpending, List.append_nil] at hpassed
  have hacked := href.sock.sendBuf.acked
  have hnext := href.sock.sendBuf.getNextByteWrittenSeqnum (hw.sendBuf x)
  have hlo := hsafe.acked_lt_expected
  have hhi := hsafe.expected_le_sent
  have hsent := hsafe.sent_le_written
  rw [hep, hpeer] at hlo
  rw [hep, hpeer] at hhi
  rw [hep] at hsent
  omega

/-- Two sockets just created settle for the connection right after the handshake. -/
theorem Config.Valid.created (hcfg : cfg.Valid) (hw : cfg.created.NoWrap) :
    ∃ out inn, cfg.created.Opens cfg out inn := by
  obtain ⟨out, inn, hinv⟩ := hcfg.established hw
  exact ⟨out, inn, cfg.created_staged, fun _ _ => ⟨rfl, rfl, rfl, rfl, rfl, rfl⟩,
    hinv.of_net rfl (by simp [Sys.settled, Config.created])⟩

/-- **The settled connection has the invariant along every run** from two sockets just
    created. -/
theorem Sys.Opens.of_run (hcfg : cfg.Valid) (hlt : (cfg.isn .server).toNat < 2 ^ 31)
    {tr : List (Sys × Label)} (h : Run (systemFrom cfg.created) Sys.NoWrap tr s) :
    ∃ out inn, s.Opens cfg out inn := by
  refine h.invariant (I := fun s => ∃ out inn, s.Opens cfg out inn) ?_ ?_
  · rintro s rfl hw
    exact hcfg.created hw
  · rintro s l s' ⟨out, inn, hopens⟩ hw _ hstep
    rcases hopens.step hw hlt hstep with hsyn | ⟨t, out', inn', ht, hnext⟩
    · -- such a step does not succeed
      obtain ⟨f, hf⟩ := hsyn.faults
      exact absurd (hf.symm.trans hstep) (by simp)
    · obtain rfl := Except.ok.inj ht
      exact ⟨out', inn', hnext⟩

/-- **A connection from its two sockets on**: in every run from two sockets just created, a
    step violates an assert or writes outside a receive ring if and only if it delivers a SYN
    or a SYN-ACK to an endpoint in its loop; a process that has died otherwise has died in a
    copy out of its send ring; both directions deliver if and only if no fresh send reaches
    the end of its ring; and a side that has left its loop has lost nothing, not even what
    its application wrote before the handshake was over. -/
theorem lifetime_delivery_iff (hcfg : cfg.Valid) (hisn : ∀ x, (cfg.isn x).toNat < 2 ^ 31)
    {tr : List (Sys × Label)} (h : Run (systemFrom cfg.created) Sys.NoWrap tr s) :
    (∀ l, (∃ f, s.step l = some (.error f)) ↔ l.DeliversSyn s) ∧
    (∀ x, (s.ep x).pc = .crashed → (s.ep x).strayed = true) ∧
    ((∀ t ∈ visited tr s, ∀ x, t.Delivers x) ↔ ∀ p ∈ tr, p.2.EndsBeforeRing p.1) ∧
    ∀ x, (s.ep x).pc = .exited →
      (getNextByteExpectedSeqnum (s.ep x.other).sock.recvBuf).toNat =
        (cfg.isn x).toNat + (s.ep x).passed.length + 1 := by
  have hof : ∀ tr s, Run (systemFrom cfg.created) Sys.NoWrap tr s →
      ∃ out inn, s.Opens cfg out inn := fun _ _ => Sys.Opens.of_run hcfg (hisn .server)
  -- the settled connection has the invariant
  obtain ⟨out, inn, hopens⟩ := hof tr s h
  refine ⟨fun l => ⟨?_, Label.DeliversSyn.faults⟩, fun x => hopens.crashed, ?_,
    fun x => hopens.arrived h.kept⟩
  -- a step that fails delivers a SYN
  · rintro ⟨f, hf⟩
    rcases hopens.step h.kept (hisn .server) hf with hsyn | ⟨t, _, _, ht, _⟩
    · exact hsyn
    · exact absurd ht (by simp)
  -- the three parts of the rule: the invariant, the first state, and one step
  · refine h.forall_visited_iff (I := fun t => t.NoWrap ∧ ∃ out inn, t.Opens cfg out inn)
      (P := fun t => ∀ x, t.Delivers x) (C := fun t l => l.EndsBeforeRing t) ?_ ?_ ?_
    · exact fun tr s hrun => ⟨hrun.kept, hof tr s hrun⟩
    · rintro s rfl hw x
      obtain ⟨_, _, hs⟩ := hcfg.created hw
      exact (hs.delivers_iff x).mpr rfl
    · rintro s l s' ⟨hw, out, inn, hs⟩ hd _ hstep
      rcases hs.step hw (hisn .server) hstep with hsyn | ⟨t, out', inn', ht, hnext⟩
      -- a step that delivers a SYN does not succeed
      · obtain ⟨f, hf⟩ := hsyn.faults
        exact absurd (hf.symm.trans hstep) (by simp)
      · obtain rfl := Except.ok.inj ht
        exact hs.step_delivers_iff hw hd hstep hnext

/-- The server writes while it is half open; the client's ACK is lost, and its first data
    packet completes the handshake. -/
theorem lifetime_delivery_iff_early : ∃ tr s,
    Run (systemFrom (smallConfig 4).created) Sys.NoWrap tr s ∧
    (s.ep .client).delivered = [9] ∧ (s.ep .server).delivered = [7] ∧
    ∀ t ∈ visited tr s, ∀ x, t.Delivers x := by
  have hinit : Run (systemFrom (smallConfig 4).created) Sys.NoWrap []
      (smallConfig 4).created := .init rfl (by decide)
  have hrun := hinit.exec ([.backend .client 0 (fun _ => 0), .backend .server 0 (fun _ => 0),
    .receive .server 0 0, .writeCall .server [9], .write .server, .receive .client 0 0,
    .lose .server 0, .writeCall .client [7], .write .client] ++
    silentIteration .client (fun _ => 0) ++ [.receive .server 0 0, .read .server 1 .noFlag] ++
    silentIteration .server (fun _ => 0) ++ receivingIteration .client 1 ++
    [.read .client 1 .noFlag]) rfl
  have hisn : ∀ x, ((smallConfig 4).isn x).toNat < 2 ^ 31 := by
    intro x
    cases x <;> decide
  exact ⟨_, _, hrun, rfl, rfl, (lifetime_delivery_iff (smallConfig_valid (by decide)) hisn
    hrun).2.2.1.mpr (by decide)⟩

end Runs

end CmuTcp
