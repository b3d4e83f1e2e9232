import CmuTcp.Handshake.Faults
import CmuTcp.Connection.Local

/-!
# The Phases of an Endpoint

An endpoint is unopened until `recv_buffer_initialize` has been called on its receive
buffer, then, if it is the server, half open, and open once it is `ESTABLISHED`.  This
module says what each phase does with the packets that can reach it, without any
assumption about the buffers of an open endpoint.

1. Three kinds of packets matter: the SYN and the SYN-ACK of a side with a given ISN, and
   ACKs, with data or without.
2. `Endpoint.Unopened`, `Endpoint.HalfOpen` and `Endpoint.Open` are the phases.  For each of
   them there is one lemma for a step of the thread without a packet, and one for each kind
   of packet; a pair of phase and packet that is missing is one in which an assert fails.
3. Applications do nothing before the socket is initialized, and nothing that the handshakes
   look at afterwards (`Endpoint.AppStep`).
-/

namespace CmuTcp

open FaultSystem

/-! ## Packets -/

/-- The SYN of the side with the sequence number `isn`. -/
structure Packet.IsSyn (p : Packet) (isn : UInt32) : Prop where
  flags : p.header.flags = synFlagMask
  seq : p.header.seqNum = isn

/-- The answer to the SYN with the sequence number `peerIsn`. -/
structure Packet.IsSynAck (p : Packet) (isn peerIsn : UInt32) : Prop where
  flags : p.header.flags = synFlagMask ||| ackFlagMask
  seq : p.header.seqNum = isn
  ack : p.header.ackNum = peerIsn + 1

/-- A pure ACK or a data packet. -/
structure Packet.IsAck (p : Packet) (ack : UInt32) : Prop where
  flags : p.header.flags = ackFlagMask
  ack : p.header.ackNum = ack

theorem Packet.IsSyn.hasSyn {p : Packet} {isn : UInt32} (h : p.IsSyn isn) :
    p.hasFlag synFlagMask = true := by
  rw [Packet.hasFlag, h.flags]
  decide

theorem Packet.IsSyn.hasAck {p : Packet} {isn : UInt32} (h : p.IsSyn isn) :
    p.hasFlag ackFlagMask = false := by
  rw [Packet.hasFlag, h.flags]
  decide

theorem Packet.IsSynAck.hasSyn {p : Packet} {isn peerIsn : UInt32} (h : p.IsSynAck isn peerIsn) :
    p.hasFlag synFlagMask = true := by
  rw [Packet.hasFlag, h.flags]
  decide

theorem Packet.IsSynAck.hasAck {p : Packet} {isn peerIsn : UInt32} (h : p.IsSynAck isn peerIsn) :
    p.hasFlag ackFlagMask = true := by
  rw [Packet.hasFlag, h.flags]
  decide

theorem createPacket_header {src dst : UInt16} {seq ack : UInt32} {hlen plen : UInt16}
    {flags : UInt8} {advWindow : UInt16} {payload : List UInt8} {payloadLen : UInt16}
    {p : Packet}
    (h : p ∈ createPacket src dst seq ack hlen plen flags advWindow payload payloadLen) :
    p.header.flags = flags ∧ p.header.seqNum = seq ∧ p.header.ackNum = ack := by
  rw [Option.mem_def, createPacket] at h
  split at h
  · exact absurd h (by simp)
  · split at h
    · exact absurd h (by simp)
    · obtain rfl := Option.some.inj h
      exact ⟨rfl, rfl, rfl⟩

/-! ## Phases -/

/-- The state of the handshake loop before a packet of the peer has arrived. -/
def Side.openingState : Side → CmuSocketState
  | .client => .synSent
  | .server => .listen

/-- `recv_buffer_initialize` has not been called yet. -/
structure Endpoint.Unopened (e : Endpoint) (cfg : Config) (x : Side) : Prop where
  acked : e.sock.sendBuf.lastByteAckedIndex = 0
  recvBuf : e.sock.recvBuf = (cfg.createdSocket x).recvBuf
  type : e.sock.type = x.socketType
  lastAck : e.sock.window.lastAckReceived = cfg.isn x
  initialized : e.sock.initialized = false
  pending : e.pending = []
  initCalls : e.initCalls = []
  acksHandled : e.acksHandled = []
  pc : e.pc = .entry ∧ e.sock.state = .closed ∨
    ∃ packet, e.pc = .handshake packet ∧ e.sock.state = x.openingState ∧
      ∀ p ∈ packet, p.IsSyn (cfg.isn x)

/-- The server has answered the SYN of the client. -/
structure Endpoint.HalfOpen (e : Endpoint) (cfg : Config) : Prop where
  type : e.sock.type = .tcpListener
  state : e.sock.state = .synRcvd
  lastAck : e.sock.window.lastAckReceived = cfg.isn .server
  initCalls : e.initCalls = [cfg.isn .client]
  acksHandled : e.acksHandled = []
  pc : ∃ packet, e.pc = .handshake packet ∧
    ∀ p ∈ packet, p.IsSynAck (cfg.isn .server) (cfg.isn .client)

/-- The endpoint is in the loop of `begin_backend`, or has left it. -/
structure Endpoint.Open (e : Endpoint) (cfg : Config) (x : Side) : Prop where
  notEntry : e.pc ≠ .entry
  notHandshake : ∀ packet, e.pc ≠ .handshake packet
  state : e.sock.state = .established
  initCalls : e.initCalls = [cfg.isn x.other]
  lastAck : (∀ a ∈ e.acksHandled, a ≤ cfg.isn x + 1) →
    e.sock.window.lastAckReceived = cfg.isn x + 1

/-- What a step that opens an endpoint leaves: the first sequence number expected after
    `recv_buffer_initialize`, and the ack state on entering `ESTABLISHED`. -/
structure Endpoint.Enters (e e' : Endpoint) (cfg : Config) (x : Side) : Prop where
  expected : e.initCalls = [] → e'.initCalls ≠ [] →
    e'.sock.window.nextSeqExpected = cfg.isn x.other + 1 ∧
      getNextByteExpectedSeqnum e'.sock.recvBuf = cfg.isn x.other + 1
  acked : e.sock.state ≠ .established → e'.sock.state = .established →
    e'.sock.window.lastAckReceived = cfg.isn x + 1

theorem Endpoint.Enters.of_same {e e' : Endpoint} {cfg : Config} {x : Side}
    (hinit : e'.initCalls = e.initCalls)
    (hstate : e'.sock.state = .established → e.sock.state = .established) :
    e.Enters e' cfg x where
  expected hnil hne := absurd (hinit.trans hnil) hne
  acked hne hest := absurd (hstate hest) hne

theorem Endpoint.Unopened.state_ne {e : Endpoint} {cfg : Config} {x : Side}
    (h : e.Unopened cfg x) : e.sock.state ≠ .established := by
  rcases h.pc with ⟨_, hstate⟩ | ⟨_, _, hstate, _⟩
  · rw [hstate]
    decide
  · rw [hstate]
    cases x <;> decide

section Steps

variable {e : Endpoint} {cfg : Config} {x : Side} {now : Int} {beyond : ℕ → UInt8}
  {source : SockAddr} {p : Packet} {r : Except Fault (Endpoint × List Packet)}

theorem getNextByteExpectedSeqnum_initialized (cfg : Config) (x : Side) :
    getNextByteExpectedSeqnum (cfg.initializedRecvBuf x) = cfg.isn x.other + 1 := by
  show (if (1 : UInt32) > 0 then 1 - 0 + cfg.isn x.other else _) = _
  rw [if_pos (by decide), UInt32.sub_zero, UInt32.add_comm]

/-! ## Unopened endpoints -/

/-- An unopened endpoint enters its handshake, and the client sends its SYN again. -/
theorem Endpoint.Unopened.backendSilent (h : e.Unopened cfg x)
    (hstep : backendSilent e now beyond = some r) :
    ∃ e' packets, r = .ok (e', packets) ∧ e'.Unopened cfg x ∧
      ∀ p ∈ packets, x = .client ∧ p.IsSyn (cfg.isn x) := by
  have htype := h.type
  rcases h.pc with ⟨hpc, _⟩ | ⟨packet, hpc, hstate, hsyn⟩
  -- it enters its handshake: the client builds and sends its SYN
  · simp only [CmuTcp.backendSilent, hpc, Option.some.injEq] at hstep
    subst hstep
    cases x with
    | client =>
      have htype' : e.sock.type = .tcpInitiator := htype
      have hpacket : ∀ q ∈ createPacket e.sock.myPort e.sock.conn.sinPort
          e.sock.window.lastAckReceived 0 headerLen headerLen synFlagMask cp1WindowSize [] 0,
          q.IsSyn (cfg.isn .client) := by
        intro q hq
        obtain ⟨hflags, hseq, _⟩ := createPacket_header hq
        exact ⟨hflags, hseq.trans h.lastAck⟩
      simp only [enterHandshake, htype', initHandshakeClient, cAssert_of, bind, Except.bind, pure,
        Except.pure]
      refine ⟨_, _, rfl, { h with type := rfl, pc := Or.inr ⟨_, rfl, rfl, hpacket⟩ }, ?_⟩
      intro q hq
      exact ⟨trivial, hpacket q (Option.mem_toList.mp hq)⟩
    -- the server waits in `LISTEN`
    | server =>
      have htype' : e.sock.type = .tcpListener := htype
      simp only [enterHandshake, htype', initHandshakeServer, cAssert_of, bind, Except.bind, pure,
        Except.pure]
      exact ⟨_, _, rfl, { h with type := rfl, pc := Or.inr ⟨_, rfl, rfl, by simp⟩ }, by simp⟩
  -- the timeout of `init_handshake_client` sends the same SYN again
  · cases x with
    | client =>
      have htype' : e.sock.type = .tcpInitiator := htype
      simp only [CmuTcp.backendSilent, hpc, htype', Option.some.injEq] at hstep
      subst hstep
      refine ⟨_, _, rfl, { h with pc := Or.inr ⟨packet, hpc, hstate, hsyn⟩ }, ?_⟩
      intro q hq
      exact ⟨rfl, hsyn q (Option.mem_toList.mp hq)⟩
    -- the server takes no step without a packet
    | server =>
      have htype' : e.sock.type = .tcpListener := htype
      simp only [CmuTcp.backendSilent, hpc, htype'] at hstep
      exact absurd hstep (by simp)

/-- The client opens on a SYN-ACK, and acknowledges it. -/
theorem Endpoint.Unopened.receiveSynAck (h : e.Unopened cfg .client)
    (hp : p.IsSynAck (cfg.isn .server) (cfg.isn .client))
    (hstep : backendReceive e now source p = some r) :
    ∃ e' packets, r = .ok (e', packets) ∧ e'.Open cfg .client ∧
      e'.sock.window.nextSeqExpected = cfg.isn .server + 1 ∧
      e'.sock.sendBuf.lastByteAckedIndex = 0 ∧
      (∀ q ∈ packets, q.IsAck (cfg.isn .server + 1)) ∧ e.Enters e' cfg .client := by
  have htype : e.sock.type = .tcpInitiator := h.type
  rcases h.pc with ⟨hpc, _⟩ | ⟨packet, hpc, hstate, hsyn⟩
  -- before its handshake it does not look for packets
  · simp only [backendReceive, hpc] at hstep
    exact absurd hstep (by simp)
  -- the buffer has not been initialized, so the assert in `recv_buffer_initialize` holds
  · have hinit : recvBufferInitialize e.sock.recvBuf (cfg.isn .server) =
        .ok (cfg.initializedRecvBuf .client) := by
      rw [h.recvBuf]
      exact recvBufferInitialize_eq cfg .client
    -- the SYN-ACK acknowledges the SYN
    have hack : cfg.isn .client + 1 = e.sock.window.lastAckReceived + 1 := by rw [h.lastAck]
    simp only [backendReceive, hpc, CmuSocket.heardFrom, htype, clientIteration,
      initHandshakeClientIteration, hp.hasSyn, hp.hasAck, hp.seq, hp.ack, hinit, hack,
      cAssert_of, bind, Except.bind, pure, Except.pure, Option.some.injEq] at hstep
    subst hstep
    refine ⟨_, _, rfl, ?_, rfl, h.acked, ?_, ?_⟩
    · refine ⟨by simp, by simp, rfl, ?_, fun _ => hack.symm⟩
      show e.initCalls ++ [cfg.isn .server] = _
      rw [h.initCalls]
      rfl
    -- the answer is a pure ACK of it
    · intro q hq
      obtain ⟨hflags, _, hackNum⟩ := createPacket_header (Option.mem_toList.mp hq)
      exact ⟨hflags, hackNum⟩
    · exact ⟨fun _ _ => ⟨rfl, getNextByteExpectedSeqnum_initialized cfg .client⟩,
        fun _ _ => hack.symm⟩

/-- The server answers the SYN. -/
theorem Endpoint.Unopened.receiveSyn (h : e.Unopened cfg .server)
    (hp : p.IsSyn (cfg.isn .client)) (hstep : backendReceive e now source p = some r) :
    ∃ e' packets, r = .ok (e', packets) ∧ e'.HalfOpen cfg ∧
      (∀ q ∈ packets, q.IsSynAck (cfg.isn .server) (cfg.isn .client)) ∧
      e.Enters e' cfg .server := by
  have htype : e.sock.type = .tcpListener := h.type
  rcases h.pc with ⟨hpc, _⟩ | ⟨packet, hpc, hstate, _⟩
  · simp only [backendReceive, hpc] at hstep
    exact absurd hstep (by simp)
  · have hlisten : e.sock.state = .listen := hstate
    -- as for the client: `recv_buffer_initialize` is called once
    have hinit : recvBufferInitialize e.sock.recvBuf (cfg.isn .client) =
        .ok (cfg.initializedRecvBuf .server) := by
      rw [h.recvBuf]
      exact recvBufferInitialize_eq cfg .server
    -- the SYN-ACK is kept, to be sent again
    have hpacket : ∀ q ∈ createPacket e.sock.myPort source.sinPort
        e.sock.window.lastAckReceived (cfg.isn .client + 1) headerLen headerLen
        (synFlagMask ||| ackFlagMask) cp1WindowSize [] 0,
        q.IsSynAck (cfg.isn .server) (cfg.isn .client) := by
      intro q hq
      obtain ⟨hflags, hseq, hackNum⟩ := createPacket_header hq
      exact ⟨hflags, hseq.trans h.lastAck, hackNum⟩
    simp only [backendReceive, hpc, CmuSocket.heardFrom, htype, serverIteration, hlisten,
      handshakeListen, hp.flags, hp.seq, hinit, cAssert_of, bind, Except.bind, pure, Except.pure,
      if_true, Option.some.injEq] at hstep
    subst hstep
    refine ⟨_, _, rfl, ?_, ?_, ?_⟩
    · refine ⟨rfl, rfl, h.lastAck, ?_, h.acksHandled, _, rfl, hpacket⟩
      show e.initCalls ++ [cfg.isn .client] = _
      rw [h.initCalls]
      rfl
    · exact fun q hq => hpacket q (Option.mem_toList.mp hq)
    · exact ⟨fun _ _ => ⟨rfl, getNextByteExpectedSeqnum_initialized cfg .server⟩,
        fun _ hest => absurd hest (by simp)⟩

/-! ## The half-open server -/

/-- The server waits for a packet. -/
theorem Endpoint.HalfOpen.backendSilent (h : e.HalfOpen cfg) :
    backendSilent e now beyond = none := by
  obtain ⟨packet, hpc, _⟩ := h.pc
  simp only [CmuTcp.backendSilent, hpc, h.type]

/-- A SYN that arrives again is answered again. -/
theorem Endpoint.HalfOpen.receiveSyn (h : e.HalfOpen cfg) (hp : p.IsSyn (cfg.isn .client))
    (hstep : backendReceive e now source p = some r) :
    ∃ e' packets, r = .ok (e', packets) ∧ e'.HalfOpen cfg ∧
      (∀ q ∈ packets, q.IsSynAck (cfg.isn .server) (cfg.isn .client)) ∧
      e.Enters e' cfg .server := by
  obtain ⟨packet, hpc, hpacket⟩ := h.pc
  have hnot : completesHandshake (e.sock.heardFrom source) p = false := by
    rw [completesHandshake, hp.hasAck, Bool.false_and]
  have hlisten : ¬ CmuSocketState.synRcvd = .listen := by decide
  simp only [backendReceive, hpc, CmuSocket.heardFrom, h.type, serverIteration, h.state, hlisten,
    if_false, handshakeSynRcvd, cAssert_of, bind, Except.bind, pure, Except.pure,
    Option.some.injEq] at hnot hstep
  simp only [hnot, hp.hasSyn, cAssert_of, Bool.false_eq_true, if_false] at hstep
  subst hstep
  refine ⟨_, _, rfl, ⟨rfl, rfl, h.lastAck, h.initCalls, h.acksHandled, packet, rfl, hpacket⟩, ?_,
    .of_same rfl fun hest => absurd hest (by simp)⟩
  exact fun q hq => hpacket q (Option.mem_toList.mp hq)

/-! ## handle_message -/

theorem cMax_self (a : UInt32) : cMax a a = a := ite_self a

theorem handleAck_ok {sock sock' : CmuSocket} {acknum : UInt32}
    (h : handleAck sock acknum now = .ok sock') : sock'.state = sock.state ∧
      sock'.window.lastAckReceived = cMax sock.window.lastAckReceived acknum := by
  rcases handleAck_eq_ok h with ⟨hdup, rfl⟩ | ⟨sb, _, rfl⟩
  · exact ⟨rfl, by rw [hdup, cMax_self]⟩
  · exact ⟨rfl, rfl⟩

theorem handlePayload_ok {sock sock' : CmuSocket} {packets : List Packet}
    (h : handlePayload sock p = .ok (sock', packets)) : sock'.state = sock.state ∧
      sock'.window.lastAckReceived = sock.window.lastAckReceived ∧
      ∀ q ∈ packets, q.header.flags = ackFlagMask := by
  obtain ⟨rb, _, hrb⟩ := ok_of_bind_ok h
  obtain ⟨rfl, rfl⟩ := Prod.mk.inj (Except.ok.inj hrb)
  exact ⟨rfl, rfl, fun q hq => (createPacket_header (Option.mem_toList.mp hq)).1⟩

/-- An ACK is tolerated, and moves `last_ack_received` up to its number. -/
theorem handleMessage_ack (sock : CmuSocket) (hflags : p.header.flags = ackFlagMask)
    (now : Int) : Tolerates (handleMessage sock p now) ∧
      ∀ sock' packets, handleMessage sock p now = .ok (sock', packets) →
        sock'.state = sock.state ∧
        sock'.window.lastAckReceived = cMax sock.window.lastAckReceived p.header.ackNum ∧
        ∀ q ∈ packets, q.header.flags = ackFlagMask := by
  rw [handleMessage_of_flags sock hflags]
  constructor
  · exact .bind (tolerates_handleAck ..) fun _ => .ite (tolerates_handlePayload ..) (.ok _)
  · intro sock' packets h
    obtain ⟨sock₁, hack, hrest⟩ := ok_of_bind_ok h
    obtain ⟨hstate, hlast⟩ := handleAck_ok hack
    dsimp only at hrest
    split at hrest
    · obtain ⟨hstate', hlast', hpackets⟩ := handlePayload_ok hrest
      exact ⟨hstate'.trans hstate, hlast'.trans hlast, hpackets⟩
    · obtain ⟨rfl, rfl⟩ := Prod.mk.inj (Except.ok.inj hrest)
      exact ⟨hstate, hlast, by simp⟩

/-- A SYN and a SYN-ACK are not. -/
theorem handleMessage_syn (sock : CmuSocket) (hsyn : p.hasFlag synFlagMask = true) (now : Int) :
    ∃ f, handleMessage sock p now = .error f ∧ f.ofHandshake = true := by
  unfold handleMessage
  by_cases hack : p.hasFlag ackFlagMask = true
  · have hassert : cAssert ((!p.hasFlag synFlagMask) = true) .handleMessageSyn =
        .error (.assertion .handleMessageSyn) := if_neg (by simp [hsyn])
    exact ⟨.assertion .handleMessageSyn, by rw [cAssert_of hack, hassert]; rfl, rfl⟩
  · have hassert : cAssert (p.hasFlag ackFlagMask = true) .handleMessageAck =
        .error (.assertion .handleMessageAck) := if_neg hack
    exact ⟨.assertion .handleMessageAck, by rw [hassert]; rfl, rfl⟩

/-- The acknowledgement of the SYN-ACK opens the server. -/
theorem Endpoint.HalfOpen.receiveAck (h : e.HalfOpen cfg) (hisn : (cfg.isn .server).toNat < 2 ^ 31)
    (hp : p.IsAck (cfg.isn .server + 1)) (hstep : backendReceive e now source p = some r) :
    Tolerates r ∧ ∀ e' packets, r = .ok (e', packets) → e'.Open cfg .server ∧
      (∀ q ∈ packets, q.header.flags = ackFlagMask) ∧ e.Enters e' cfg .server := by
  obtain ⟨packet, hpc, _⟩ := h.pc
  have hasAck : p.hasFlag ackFlagMask = true := by
    rw [Packet.hasFlag, hp.flags]
    decide
  have hdone : completesHandshake (e.sock.heardFrom source) p = true := by
    rw [completesHandshake, hasAck, hp.ack, Bool.true_and]
    exact beq_iff_eq.mpr (congrArg (· + 1) h.lastAck.symm)
  have hlisten : ¬ CmuSocketState.synRcvd = .listen := by decide
  simp only [backendReceive, hpc, CmuSocket.heardFrom, h.type, serverIteration, h.state, hlisten,
    if_false, handshakeSynRcvd, cAssert_of, Option.some.injEq] at hdone hstep
  simp only [hdone, if_true] at hstep
  subst hstep
  obtain ⟨htol, hok⟩ := handleMessage_ack { e.sock with
    type := .tcpListener, conn := source, state := .established } hp.flags now
  constructor
  · exact .bind (.bind (.ok ()) fun _ => htol) fun _ => .ok _
  · intro e' packets hr
    obtain ⟨⟨sock', sent⟩, hmsg, hret⟩ := ok_of_bind_ok hr
    obtain ⟨hstate, hlast, hpackets⟩ := hok sock' sent hmsg
    obtain ⟨rfl, rfl⟩ := Prod.mk.inj (Except.ok.inj hret)
    -- the sum does not wrap around, so it is the greater of the two
    have hlast' : sock'.window.lastAckReceived = cfg.isn .server + 1 := by
      rw [hlast, hp.ack]
      show cMax e.sock.window.lastAckReceived _ = _
      rw [h.lastAck, cMax, if_neg]
      rw [gt_iff_lt, UInt32.lt_iff_toNat_lt, UInt32.toNat_add, UInt32.toNat_one]
      omega
    refine ⟨⟨by simp, by simp, hstate, h.initCalls, fun _ => hlast'⟩, hpackets, ?_⟩
    exact ⟨fun hnil => absurd (h.initCalls.symm.trans hnil) (by simp), fun _ _ => hlast'⟩

/-! ## Open endpoints -/

theorem dataPacket_isAck {sock : CmuSocket} {seq : UInt32} {payload : List UInt8}
    {payloadLen : UInt16} {p : Packet} (hp : p ∈ dataPacket sock seq payload payloadLen) :
    p.IsAck sock.window.nextSeqExpected :=
  ⟨(createPacket_header hp).1, (createPacket_header hp).2.2⟩

/-- Everything that the sending part of an iteration sends is an ACK. -/
theorem transmit_isAck {sock : CmuSocket} {sent : Sent} (h : transmit sock now beyond = .ok sent) :
    ∀ p ∈ sent.packets, p.IsAck sock.window.nextSeqExpected := by
  intro p hp
  obtain ⟨_, _, _, _, _, hmsg⟩ := transmit_isData h p hp
  exact dataPacket_isAck hmsg

/-- What the handshakes look at stays as it is, and so does the last byte acknowledged. -/
structure Endpoint.SameControl (e e' : Endpoint) : Prop where
  type : e'.sock.type = e.sock.type
  state : e'.sock.state = e.sock.state
  window : e'.sock.window = e.sock.window
  initCalls : e'.initCalls = e.initCalls
  acksHandled : e'.acksHandled = e.acksHandled
  acked : e'.sock.sendBuf.lastByteAckedIndex = e.sock.sendBuf.lastByteAckedIndex

theorem Endpoint.SameControl.enters {e' : Endpoint} (h : e.SameControl e') :
    e.Enters e' cfg x :=
  .of_same h.initCalls fun hest => h.state ▸ hest

theorem Endpoint.Open.of_same {e' : Endpoint} (h : e.Open cfg x) (hsame : e.SameControl e')
    (hentry : e'.pc ≠ .entry) (hhandshake : ∀ packet, e'.pc ≠ .handshake packet) :
    e'.Open cfg x where
  notEntry := hentry
  notHandshake := hhandshake
  state := hsame.state.trans h.state
  initCalls := hsame.initCalls.trans h.initCalls
  lastAck hall := by
    rw [hsame.acksHandled] at hall
    rw [hsame.window]
    exact h.lastAck hall

/-- An open endpoint goes on in its loop and sends ACKs. -/
theorem Endpoint.Open.backendSilent (h : e.Open cfg x)
    (hstep : backendSilent e now beyond = some r) :
    Tolerates r ∧ ∀ e' packets, r = .ok (e', packets) → e'.Open cfg x ∧ e.SameControl e' ∧
      ∀ p ∈ packets, p.IsAck e.sock.window.nextSeqExpected := by
  rcases backendSilent_cases h.notEntry h.notHandshake hstep with ⟨_, rfl⟩ | ⟨pc, hadvances, rfl⟩
  · refine ⟨.bind (tolerates_transmit ..) fun _ => .ok _, fun e' packets hr => ?_⟩
    obtain ⟨sent, htransmit, hret⟩ := ok_of_bind_ok hr
    obtain ⟨rfl, rfl⟩ := Prod.mk.inj (Except.ok.inj hret)
    have hsame : e.SameControl { e with
        sock := { e.sock with sendBuf := sent.sendBuf }, pc := sent.pc
        strayed := e.strayed || !sent.inBounds } :=
      ⟨rfl, rfl, rfl, rfl, rfl, (transmit_sameAcked htransmit).index⟩
    obtain ⟨hentry, hhandshake, _⟩ := sent.pc_ne
    exact ⟨h.of_same hsame hentry hhandshake, hsame, transmit_isAck htransmit⟩
  · -- only the program counter moves
    obtain ⟨hentry, hhandshake, _⟩ := hadvances.pc_ne
    refine ⟨.ok _, fun e' packets hr => ?_⟩
    obtain ⟨rfl, rfl⟩ := Prod.mk.inj (Except.ok.inj hr)
    have hsame : e.SameControl { e with pc := pc } := ⟨rfl, rfl, rfl, rfl, rfl, rfl⟩
    exact ⟨h.of_same hsame hentry hhandshake, hsame, by simp⟩

/-- An open endpoint handles an ACK. -/
theorem Endpoint.Open.receiveAck (h : e.Open cfg x) (hflags : p.header.flags = ackFlagMask)
    (hstep : backendReceive e now source p = some r) :
    Tolerates r ∧ ∀ e' packets, r = .ok (e', packets) → e'.Open cfg x ∧
      (∀ q ∈ packets, q.header.flags = ackFlagMask) ∧ e.Enters e' cfg x := by
  obtain ⟨_, rfl⟩ := backendReceive_eq_some h.notHandshake hstep
  obtain ⟨htol, hok⟩ := handleMessage_ack (e.sock.heardFrom source) hflags now
  refine ⟨.bind htol fun _ => .ok _, fun e' packets hr => ?_⟩
  obtain ⟨⟨sock', sent⟩, hmsg, hret⟩ := ok_of_bind_ok hr
  obtain ⟨hstate, hlast, hpackets⟩ := hok sock' sent hmsg
  obtain ⟨rfl, rfl⟩ := Prod.mk.inj (Except.ok.inj hret)
  refine ⟨⟨by simp, by simp, hstate.trans h.state, h.initCalls, ?_⟩, hpackets,
    .of_same rfl fun _ => h.state⟩
  intro hall
  -- an ack of no data leaves the greatest one
  have hold : e.sock.window.lastAckReceived = cfg.isn x + 1 :=
    h.lastAck fun a ha => hall a (List.mem_append_left _ ha)
  have hle : p.header.ackNum ≤ cfg.isn x + 1 := hall _ (by simp)
  rw [hlast]
  show cMax e.sock.window.lastAckReceived _ = _
  rw [hold, cMax]
  split
  · rfl
  · rename_i hgt
    exact UInt32.le_antisymm hle (UInt32.not_lt.mp hgt)

/-- A SYN or a SYN-ACK aborts an open endpoint that looks for packets. -/
theorem backendReceive_syn (hpc : e.pc = .checkData) (hsyn : p.hasFlag synFlagMask = true)
    (now : Int) (source : SockAddr) :
    ∃ f, backendReceive e now source p = some (.error f) ∧ f.ofHandshake = true := by
  obtain ⟨f, hf, hsite⟩ := handleMessage_syn (e.sock.heardFrom source) hsyn now
  refine ⟨f, ?_, hsite⟩
  simp only [backendReceive, hpc, checkForData, hf]
  rfl

/-! ## Applications -/

/-- What a step of an application does to what the handshakes look at: nothing, and it
    needs an initialized socket, or data that is left from a call on one. -/
structure Endpoint.AppStep (e : Endpoint) (r : Except Fault Endpoint) : Prop where
  ready : e.sock.initialized = true ∨ e.pending ≠ []
  tolerates : Tolerates r
  same : ∀ e', r = .ok e' → e.SameControl e' ∧ e'.pc = e.pc

theorem appWriteCall_appStep {data : List UInt8} {e' : Endpoint}
    (h : appWriteCall e data = some e') : e.AppStep (.ok e') := by
  obtain ⟨hguard, rfl⟩ := appWriteCall_eq_some h
  refine ⟨Or.inl hguard.1, .ok _, fun e' he => ?_⟩
  obtain rfl := Except.ok.inj he
  exact ⟨⟨rfl, rfl, rfl, rfl, rfl, rfl⟩, rfl⟩

theorem appClose_appStep {e' : Endpoint} (h : appClose e = some e') : e.AppStep (.ok e') := by
  obtain ⟨hguard, rfl⟩ := appClose_eq_some h
  refine ⟨Or.inl hguard.1, .ok _, fun e' he => ?_⟩
  obtain rfl := Except.ok.inj he
  exact ⟨⟨rfl, rfl, rfl, rfl, rfl, rfl⟩, rfl⟩

theorem appWrite_appStep {r : Except Fault Endpoint} (h : appWrite e = some r) :
    e.AppStep r := by
  obtain ⟨hpending, _, hr⟩ := appWrite_eq_some h
  refine ⟨Or.inr hpending, ?_, ?_⟩
  · rw [hr]
    exact .map (tolerates_cmuWriteIteration ..) _
  · rintro e' rfl
    obtain ⟨_, _, _, _, hwrite, rfl⟩ := appWrite_ok h
    exact ⟨⟨rfl, rfl, rfl, rfl, rfl, (cmuWriteIteration_sameAcked hwrite).index⟩, rfl⟩

theorem appRead_appStep {length : Int} {flags : CmuReadMode} {r : Except Fault Endpoint}
    (h : appRead e length flags = some r) : e.AppStep r := by
  obtain ⟨hready, _, hr⟩ := appRead_eq_some h
  refine ⟨Or.inl hready, ?_, ?_⟩
  · rw [hr]
    exact .map (tolerates_cmuRead ..) _
  · rintro e' rfl
    obtain ⟨_, _, _, _, rfl⟩ := appRead_ok h
    exact ⟨⟨rfl, rfl, rfl, rfl, rfl, rfl⟩, rfl⟩

theorem Endpoint.Unopened.not_appStep (h : e.Unopened cfg x) {r : Except Fault Endpoint} :
    ¬ e.AppStep r := by
  intro hstep
  rcases hstep.ready with hinit | hpending
  · exact absurd (h.initialized.symm.trans hinit) (by decide)
  · exact hpending h.pending

theorem Endpoint.HalfOpen.of_same {e' : Endpoint} (h : e.HalfOpen cfg)
    (hsame : e.SameControl e') (hpc : e'.pc = e.pc) : e'.HalfOpen cfg where
  type := hsame.type.trans h.type
  state := hsame.state.trans h.state
  lastAck := hsame.window ▸ h.lastAck
  initCalls := hsame.initCalls.trans h.initCalls
  acksHandled := hsame.acksHandled.trans h.acksHandled
  pc := hpc ▸ h.pc

end Steps

end CmuTcp
