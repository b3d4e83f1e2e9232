import CmuTcp.Connection.Moves
import CmuTcp.Handshake.Established

/-!
# From Two Sockets Just Created to a Connection

A connection whose handshake is not over is settled if each side is taken for what the
handshake will make of it: a side that has not heard from its peer for the socket right
after the handshake, a half-open server for the open one, and of the packets in flight
only the ACKs are kept.  Every step, of the handshake or after it, keeps the invariant of
the settled connection.

1. `Endpoint.settled` and `Sys.settled` are that connection.  An endpoint that is established
   is its own settled one.
2. The steps of the handshake leave the settled endpoint as it is, but for the ACKs that they
   send, and ACKs without data may always join those in flight (`Sys.Invariant.acks`).
3. Calls of the application of a half-open server do the same to the settled one, because
   `cmu_write` and `cmu_read` look at a buffer only, and never at the state.
-/

namespace CmuTcp

open FaultSystem

/-! ## Settling -/

/-- What the half-open server becomes on the ACK of its SYN-ACK. -/
def Endpoint.opened (e : Endpoint) : Endpoint :=
  { e with
    sock := { e.sock with
      state := .established
      window := { e.sock.window with
        lastAckReceived := e.sock.window.lastAckReceived + 1 } }
    pc := .loopTop }

/-- The endpoint `e` of the side `x`, or what its handshake will make of it. -/
def Endpoint.settled (cfg : Config) (x : Side) (e : Endpoint) : Endpoint :=
  match e.sock.state with
  | .established => e
  | .synRcvd => e.opened
  | _ => cfg.established.ep x

/-- Is the packet a pure ACK or a data packet? -/
def Packet.isAck (p : Packet) : Bool :=
  p.header.flags == ackFlagMask

def Sys.settled (cfg : Config) (s : Sys) : Sys where
  ep x := (s.ep x).settled cfg x
  addr := s.addr
  net x := (s.net x).filter Packet.isAck

/-- No application has used the socket. -/
structure Endpoint.Unused (e : Endpoint) (cfg : Config) (x : Side) : Prop where
  sendBuf : e.sock.sendBuf = (cfg.createdSocket x).sendBuf
  dying : e.sock.dying = false
  pending : e.pending = []
  passed : e.passed = []
  delivered : e.delivered = []
  strayed : e.strayed = false

/-- The endpoint begins like one right after the handshake. -/
structure Endpoint.Begins (e : Endpoint) (cfg : Config) (x : Side) : Prop where
  unused : e.Unused cfg x
  recvBuf : e.sock.recvBuf = cfg.initializedRecvBuf x
  lastAck : e.sock.window.lastAckReceived = cfg.isn x + 1
  nextSeq : e.sock.window.nextSeqExpected = cfg.isn x.other + 1
  pc : e.pc = .loopTop

section Settled

variable {cfg : Config} {x : Side} {e : Endpoint} {p : Packet}

theorem Endpoint.settled_of_established (h : e.sock.state = .established) :
    e.settled cfg x = e := by
  rw [Endpoint.settled, h]

theorem Endpoint.settled_of_synRcvd (h : e.sock.state = .synRcvd) :
    e.settled cfg x = e.opened := by
  rw [Endpoint.settled, h]

theorem Endpoint.Unopened.settled (h : e.Unopened cfg x) :
    e.settled cfg x = cfg.established.ep x := by
  rcases h.pc with ⟨_, hstate⟩ | ⟨_, _, hstate, _⟩
  · rw [Endpoint.settled, hstate]
  · cases x with
    | client =>
      have hsent : e.sock.state = .synSent := hstate
      rw [Endpoint.settled, hsent]
    | server =>
      have hlisten : e.sock.state = .listen := hstate
      rw [Endpoint.settled, hlisten]

theorem Packet.isAck_iff : p.isAck = true ↔ p.header.flags = ackFlagMask :=
  beq_iff_eq

theorem Packet.isAck_of_hasSyn (h : p.hasFlag synFlagMask = true) : p.isAck = false := by
  rw [Bool.eq_false_iff, Ne, Packet.isAck_iff]
  intro hflags
  rw [Packet.hasFlag, hflags] at h
  exact absurd h (by decide)

theorem Sys.mem_settled_net {s : Sys} :
    p ∈ (s.settled cfg).net x ↔ p ∈ s.net x ∧ p.header.flags = ackFlagMask := by
  rw [Sys.settled, List.mem_filter, Packet.isAck_iff]

end Settled

/-! ## Packets that join those in flight -/

section Invariant

variable {cfg : Config} {s : Sys} {out : Side → SendStream UInt8} {inn : Side → Reassembly}

/-- Honest packets without data may join those in flight. -/
theorem Sys.Invariant.acks (h : s.Invariant cfg out inn) (x : Side) {packets : List Packet}
    (hhonest : ∀ p ∈ packets, p.Honest (cfg.isn x).toNat (cfg.isn x.other).toNat (out x).sent
      (inn x).next)
    (hnone : ∀ p ∈ packets, getPayloadLen p = 0) :
    (s.put x (s.ep x, packets)).Invariant cfg out inn :=
  h.send x hhonest fun _ p hp _ _ hcar => absurd (hnone p hp) hcar.len_ne_zero

end Invariant

/-! ## The handshake steps -/

section Steps

variable {cfg : Config} {x : Side} {e e' : Endpoint} {now : Int} {beyond : ℕ → UInt8}
  {source : SockAddr} {p : Packet} {packets : List Packet}

/-- A side that has not heard from its peer keeps its socket unused. -/
theorem Endpoint.Unused.silent (hu : e.Unused cfg x) (h : e.Unopened cfg x)
    (hstep : backendSilent e now beyond = some (.ok (e', packets))) : e'.Unused cfg x := by
  have htype := h.type
  rcases h.pc with ⟨hpc, _⟩ | ⟨packet, hpc, _, _⟩
  -- entering the handshake touches the state and the program counter only
  · simp only [backendSilent, hpc, Option.some.injEq] at hstep
    cases x with
    | client =>
      have htype' : e.sock.type = .tcpInitiator := htype
      simp only [enterHandshake, htype', initHandshakeClient, cAssert_of, bind, Except.bind, pure,
        Except.pure, Except.ok.injEq, Prod.mk.injEq] at hstep
      obtain ⟨rfl, _⟩ := hstep
      exact ⟨hu.sendBuf, hu.dying, hu.pending, hu.passed, hu.delivered, hu.strayed⟩
    | server =>
      have htype' : e.sock.type = .tcpListener := htype
      simp only [enterHandshake, htype', initHandshakeServer, cAssert_of, bind, Except.bind, pure,
        Except.pure, Except.ok.injEq, Prod.mk.injEq] at hstep
      obtain ⟨rfl, _⟩ := hstep
      exact ⟨hu.sendBuf, hu.dying, hu.pending, hu.passed, hu.delivered, hu.strayed⟩
  -- so does sending the SYN again
  · cases x with
    | client =>
      have htype' : e.sock.type = .tcpInitiator := htype
      simp only [backendSilent, hpc, htype', Option.some.injEq] at hstep
      obtain ⟨rfl, _⟩ := Prod.mk.inj (Except.ok.inj hstep)
      exact hu
    | server =>
      have htype' : e.sock.type = .tcpListener := htype
      simp only [backendSilent, hpc, htype'] at hstep
      exact absurd hstep (by simp)

/-- The client begins on a SYN-ACK, and its answer is the ACK of that. -/
theorem Endpoint.Unused.receiveSynAck (hu : e.Unused cfg .client) (h : e.Unopened cfg .client)
    (hp : p.IsSynAck (cfg.isn .server) (cfg.isn .client))
    (hstep : backendReceive e now source p = some (.ok (e', packets))) :
    e'.Begins cfg .client ∧ ∀ q ∈ packets, q.header.flags = ackFlagMask ∧
      q.header.ackNum = cfg.isn .server + 1 ∧ q.header.plen = q.header.hlen ∧ q.body = [] := by
  rcases h.pc with ⟨hpc, _⟩ | ⟨packet, hpc, hstate, _⟩
  · simp only [backendReceive, hpc] at hstep
    exact absurd hstep (by simp)
  · have htype : e.sock.type = .tcpInitiator := h.type
    have hinit : recvBufferInitialize e.sock.recvBuf (cfg.isn .server) =
        .ok (cfg.initializedRecvBuf .client) := by
      rw [h.recvBuf]
      exact recvBufferInitialize_eq cfg .client
    have hack : cfg.isn .client + 1 = e.sock.window.lastAckReceived + 1 := by rw [h.lastAck]
    simp only [backendReceive, hpc, CmuSocket.heardFrom, htype, clientIteration,
      initHandshakeClientIteration, hp.hasSyn, hp.hasAck, hp.seq, hp.ack, hinit, hack,
      cAssert_of, bind, Except.bind, pure, Except.pure, Option.some.injEq, Except.ok.injEq,
      Prod.mk.injEq] at hstep
    obtain ⟨rfl, rfl⟩ := hstep
    refine ⟨⟨⟨hu.sendBuf, hu.dying, hu.pending, hu.passed, hu.delivered, hu.strayed⟩, rfl,
      hack.symm, rfl, rfl⟩, fun q hq => ?_⟩
    obtain rfl := Option.some.inj (Option.mem_toList.mp hq)
    exact ⟨rfl, rfl, rfl, rfl⟩

/-- The server is half open on a SYN, and will begin once it opens. -/
theorem Endpoint.Unused.receiveSyn (hu : e.Unused cfg .server) (h : e.Unopened cfg .server)
    (hp : p.IsSyn (cfg.isn .client))
    (hstep : backendReceive e now source p = some (.ok (e', packets))) :
    e'.opened.Begins cfg .server := by
  rcases h.pc with ⟨hpc, _⟩ | ⟨packet, hpc, hstate, _⟩
  · simp only [backendReceive, hpc] at hstep
    exact absurd hstep (by simp)
  · have htype : e.sock.type = .tcpListener := h.type
    have hlisten : e.sock.state = .listen := hstate
    have hinit : recvBufferInitialize e.sock.recvBuf (cfg.isn .client) =
        .ok (cfg.initializedRecvBuf .server) := by
      rw [h.recvBuf]
      exact recvBufferInitialize_eq cfg .server
    simp only [backendReceive, hpc, CmuSocket.heardFrom, htype, serverIteration, hlisten,
      handshakeListen, hp.flags, hp.seq, hinit, cAssert_of, bind, Except.bind, pure, Except.pure,
      if_true, Option.some.injEq, Except.ok.injEq, Prod.mk.injEq] at hstep
    obtain ⟨rfl, rfl⟩ := hstep
    exact ⟨⟨hu.sendBuf, hu.dying, hu.pending, hu.passed, hu.delivered, hu.strayed⟩, rfl,
      congrArg (· + 1) h.lastAck, rfl, rfl⟩

/-- A SYN that arrives again leaves the half-open server as it is. -/
theorem Endpoint.HalfOpen.receiveSyn_eq (h : e.HalfOpen cfg) (hp : p.IsSyn (cfg.isn .client))
    (hstep : backendReceive e now source p = some (.ok (e', packets))) :
    e' = { e with sock := e.sock.heardFrom source } := by
  obtain ⟨packet, hpc, hpacket⟩ := h.pc
  have hnot : completesHandshake (e.sock.heardFrom source) p = false := by
    rw [completesHandshake, hp.hasAck, Bool.false_and]
  have hlisten : ¬ CmuSocketState.synRcvd = .listen := by decide
  have hstate : (e.sock.heardFrom source).state = .synRcvd := h.state
  have htype : (e.sock.heardFrom source).type = .tcpListener := h.type
  simp only [backendReceive, hpc, htype, serverIteration, hlisten, if_false, handshakeSynRcvd,
    hstate, hnot, hp.hasSyn, cAssert_of, Bool.false_eq_true, bind, Except.bind, pure, Except.pure,
    Option.some.injEq, Except.ok.injEq, Prod.mk.injEq] at hstep
  rw [← hstep.1, hpc]

/-- The ACK that opens the half-open server is handled as by the open one. -/
theorem Endpoint.HalfOpen.receiveAck_eq (h : e.HalfOpen cfg)
    (hacked : e.sock.sendBuf.lastByteAckedSeqnum = cfg.isn .server)
    (hlt : (cfg.isn .server).toNat + 1 < 2 ^ 32) (hp : p.IsAck (cfg.isn .server + 1))
    {r : Except Fault (Endpoint × List Packet)}
    (hstep : backendReceive e now source p = some r) :
    ∃ r', backendReceive { e.opened with pc := .checkData } now source p = some r' ∧
      r = r'.map fun er => ({ er.1 with pc := .loopTop }, er.2) := by
  obtain ⟨packet, hpc, _⟩ := h.pc
  -- an ACK that acknowledges the SYN-ACK completes the handshake
  have hasAck : p.hasFlag ackFlagMask = true := by
    rw [Packet.hasFlag, hp.flags]
    decide
  have hfin : p.hasFlag finFlagMask = false := by
    rw [Packet.hasFlag, hp.flags]
    decide
  have hlisten : ¬ (e.sock.heardFrom source).state = .listen := by
    show ¬ e.sock.state = .listen
    rw [h.state]
    decide
  have htype : (e.sock.heardFrom source).type = .tcpListener := h.type
  have hdone : completesHandshake (e.sock.heardFrom source) p = true := by
    rw [completesHandshake, hasAck, hp.ack, Bool.true_and]
    exact beq_iff_eq.mpr (congrArg (· + 1) h.lastAck.symm)
  have hstate : (e.sock.heardFrom source).state = .synRcvd := h.state
  -- it is handled like the first packet of an open server
  have hsyn := handshakeSynRcvd_completes hstate
    (hacked.trans h.lastAck.symm) (by rwa [show (e.sock.heardFrom source).window.lastAckReceived
      = cfg.isn .server from h.lastAck]) hdone hfin packet now
  refine ⟨_, rfl, ?_⟩
  simp only [backendReceive, hpc, htype, serverIteration, hlisten, if_false, hsyn, hdone, if_true,
    Option.some.injEq] at hstep
  rw [← htype] at hstep
  rw [← hstep]
  -- the two differ in where the thread goes next
  show (handleMessage (e.opened.sock.heardFrom source) p now >>= _) =
    (handleMessage (e.opened.sock.heardFrom source) p now >>= _).map _
  cases handleMessage (e.opened.sock.heardFrom source) p now with
  | error f => rfl
  | ok pair => rfl

end Steps

/-! ## The applications of a half-open server -/

section Applications

/-- An iteration of the loop of `cmu_write` looks at the send buffer only. -/
theorem cmuWriteIteration_congr {sock sock' : CmuSocket} (h : sock'.sendBuf = sock.sendBuf)
    (buf : List UInt8) : cmuWriteIteration sock' buf =
      (cmuWriteIteration sock buf).map fun x => (x.1, { sock' with sendBuf := x.2.sendBuf }) := by
  unfold cmuWriteIteration
  rw [h]
  dsimp only
  generalize (if buf.length.toUInt32 > sendBufferMaxWrite sock.sendBuf then
    sendBufferMaxWrite sock.sendBuf else buf.length.toUInt32) = writeLen
  split
  · cases sendBufferWrite sock.sendBuf buf writeLen with
    | error f => rfl
    | ok sb => rfl
  · show Except.ok (buf, sock') = Except.ok (buf, { sock' with sendBuf := sock.sendBuf })
    rw [← h]

/-- `cmu_read` looks at the receive buffer only. -/
theorem cmuRead_congr {sock sock' : CmuSocket} (h : sock'.recvBuf = sock.recvBuf) (length : Int)
    (flags : CmuReadMode) : cmuRead sock' length flags =
      (cmuRead sock length flags).map fun x =>
        (x.1, x.2.1, { sock' with recvBuf := x.2.2.recvBuf }) := by
  have hsame : { sock' with recvBuf := sock.recvBuf } = sock' := by rw [← h]
  have havailable : cmuReadAvailable sock' length = (cmuReadAvailable sock length).map fun x =>
      (x.1, x.2.1, { sock' with recvBuf := x.2.2.recvBuf }) := by
    unfold cmuReadAvailable
    rw [h]
    dsimp only
    generalize (if recvBufferMaxRead sock.recvBuf > length.toNat.toUInt32 then
      length.toNat.toUInt32 else recvBufferMaxRead sock.recvBuf) = readLen
    split
    · cases recvBufferRead sock.recvBuf readLen with
      | error f => rfl
      | ok pair => rfl
    · exact congrArg (fun t => Except.ok (0, [], t)) hsame.symm
  unfold cmuRead
  split
  · exact congrArg (fun t => Except.ok (-1, [], t)) hsame.symm
  · cases flags with
    | timeout => exact congrArg (fun t => Except.ok (-1, [], t)) hsame.symm
    | noFlag => exact havailable
    | noWait => exact havailable

variable {e : Endpoint}

theorem appWriteCall_opened {data : List UInt8} {e' : Endpoint}
    (h : appWriteCall e data = some e') : appWriteCall e.opened data = some e'.opened := by
  obtain ⟨⟨hinit, hdying, hpending, hlen, _⟩, rfl⟩ := appWriteCall_eq_some h
  exact if_pos ⟨hinit, hdying, hpending, hlen, by simp [Endpoint.opened]⟩

theorem appClose_opened {e' : Endpoint} (h : appClose e = some e') :
    appClose e.opened = some e'.opened := by
  obtain ⟨⟨hinit, hdying, hpending, _⟩, rfl⟩ := appClose_eq_some h
  exact if_pos ⟨hinit, hdying, hpending, by simp [Endpoint.opened]⟩

theorem appWrite_opened {r : Except Fault Endpoint} (h : appWrite e = some r) :
    appWrite e.opened = some (r.map Endpoint.opened) := by
  obtain ⟨hpending, _, rfl⟩ := appWrite_eq_some h
  have hguard : ¬ (e.opened.pending = [] ∨ e.opened.pc.ended = true) := by
    rintro (hnil | hpc)
    · exact hpending hnil
    · exact absurd hpc (by simp [Endpoint.opened, BackendPc.ended])
  rw [appWrite, if_neg hguard]
  refine congrArg some ?_
  show (cmuWriteIteration e.opened.sock e.pending >>= _) = _
  rw [cmuWriteIteration_congr (show e.opened.sock.sendBuf = e.sock.sendBuf from rfl)]
  cases hwrite : cmuWriteIteration e.sock e.pending with
  | error f => rfl
  | ok pair =>
    obtain ⟨rest, sock⟩ := pair
    obtain ⟨sb, rfl, _⟩ := cmuWriteIteration_ok hwrite
    rfl

theorem appRead_opened {length : Int} {flags : CmuReadMode} {r : Except Fault Endpoint}
    (h : appRead e length flags = some r) :
    appRead e.opened length flags = some (r.map Endpoint.opened) := by
  have hready : ¬ (e.sock.initialized = false ∨ e.pc.ended = true
      ∨ (0 ≤ length ∧ flags = .noFlag ∧ recvBufferMaxRead e.sock.recvBuf = 0)) := by
    -- the socket is initialized, and there is something to read or the call does not wait
    intro hwaits
    rw [appRead, if_pos hwaits] at h
    exact absurd h (by simp)
  -- the open server is no different in that
  have hguard : ¬ (e.opened.sock.initialized = false ∨ e.opened.pc.ended = true
      ∨ (0 ≤ length ∧ flags = .noFlag ∧ recvBufferMaxRead e.opened.sock.recvBuf = 0)) := by
    rintro (hinit | hpc | hwaits)
    · exact hready (Or.inl hinit)
    · exact absurd hpc (by simp [Endpoint.opened, BackendPc.ended])
    · exact hready (Or.inr (Or.inr hwaits))
  obtain ⟨_, _, rfl⟩ := appRead_eq_some h
  rw [appRead, if_neg hguard]
  refine congrArg some ?_
  show (cmuRead e.opened.sock length flags >>= _) = _
  rw [cmuRead_congr (show e.opened.sock.recvBuf = e.sock.recvBuf from rfl)]
  cases hread : cmuRead e.sock length flags with
  | error f => rfl
  | ok triple =>
    obtain ⟨count, data, sock⟩ := triple
    obtain ⟨rb, rfl⟩ := cmuRead_ok hread
    rfl

end Applications

end CmuTcp
