import CmuTcp.Handshake.Stages

/-!
# The Handshake Leads to an Established Connection

Three packets that arrive take two sockets just created to `Config.established`, from
where the theorems about connections start.

The run is executed with the parameters as variables: the SYN, the SYN-ACK and the ACK are
computed from them, and after each packet the state is written down (`synReceived` in the
middle).  The ACK may as well be the first data packet of the client, which the server
handles in the same way (`handshakeSynRcvd_completes`).
-/

namespace CmuTcp

open FaultSystem

namespace Config

variable (cfg : Config)

/-! ## The three packets -/

def syn : Packet where
  header := ⟨packetIdentifier, (cfg.env .client).myPort, (cfg.env .client).conn.sinPort,
    cfg.isn .client, 0, headerLen, headerLen, synFlagMask, cp1WindowSize, 0⟩
  body := []

def synAck : Packet where
  header := ⟨packetIdentifier, (cfg.env .server).myPort, (cfg.addr .client).sinPort,
    cfg.isn .server, cfg.isn .client + 1, headerLen, headerLen, synFlagMask ||| ackFlagMask,
    cp1WindowSize, 0⟩
  body := []

def pureAck : Packet where
  header := ⟨packetIdentifier, (cfg.env .client).myPort, (cfg.addr .server).sinPort,
    cfg.isn .client + 1, cfg.isn .server + 1, headerLen, headerLen, ackFlagMask,
    cp1WindowSize, 0⟩
  body := []

/-- The SYN has arrived, and the SYN-ACK is on its way. -/
def synReceived : Sys where
  ep
    | .client => ⟨{ cfg.createdSocket .client with state := .synSent },
        .handshake (some cfg.syn), [], [], [], [], [], false⟩
    | .server => ⟨{ cfg.createdSocket .server with
          conn := cfg.addr .client
          recvBuf := cfg.initializedRecvBuf .server
          initialized := true
          window := ⟨cfg.isn .client + 1, cfg.isn .server, cp1WindowSize⟩
          state := .synRcvd },
        .handshake (some cfg.synAck), [], [], [], [cfg.isn .client], [], false⟩
  addr := cfg.addr
  net
    | .client => [cfg.synAck]
    | .server => []

end Config

variable {cfg : Config}

theorem Sys.ext_sides {s t : Sys} (hep : ∀ x, s.ep x = t.ep x) (haddr : s.addr = t.addr)
    (hnet : ∀ x, s.net x = t.net x) : s = t := by
  cases s
  cases t
  rw [Sys.mk.injEq]
  exact ⟨funext hep, haddr, funext hnet⟩

/-! ## The steps -/

/-- The SYN is sent, and arrives. -/
theorem exec_syn : exec (systemFrom cfg.created) (fun _ => True) cfg.created
    [.backend .client 0 (fun _ => 0), .backend .server 0 (fun _ => 0), .receive .server 0 0] =
      some (.ok cfg.synReceived) := by
  refine congrArg (fun t => some (Except.ok t)) (?_ : _ = _)
  refine Sys.ext_sides ?_ rfl ?_
  · intro x
    cases x <;> rfl
  · intro x
    cases x <;> rfl

/-- The SYN-ACK arrives. -/
theorem receive_synAck :
    backendReceive (cfg.synReceived.ep .client) 0 (cfg.addr .server) cfg.synAck =
      some (.ok (cfg.established.ep .client, [cfg.pureAck])) := by
  have hp : cfg.synAck.IsSynAck (cfg.isn .server) (cfg.isn .client) := ⟨rfl, rfl, rfl⟩
  have hnum : cfg.synAck.header.ackNum =
      (cfg.synReceived.ep .client).sock.window.lastAckReceived + 1 := rfl
  have hinit : recvBufferInitialize (cfg.synReceived.ep .client).sock.recvBuf
      cfg.synAck.header.seqNum = .ok (cfg.initializedRecvBuf .client) := rfl
  have hpc : (cfg.synReceived.ep .client).pc = .handshake (some cfg.syn) := rfl
  have htype : (cfg.synReceived.ep .client).sock.type = .tcpInitiator := rfl
  simp only [backendReceive, hpc, CmuSocket.heardFrom, htype, clientIteration,
    initHandshakeClientIteration, hp.hasSyn, hp.hasAck, hnum, hinit, cAssert_of, bind,
    Except.bind, pure, Except.pure]
  rfl

/-- The packet that completes the handshake of the server, with data or without, is handled
    as by a socket that has had its SYN acknowledged before. -/
theorem handshakeSynRcvd_completes {sock : CmuSocket} {pkt : Packet}
    (hstate : sock.state = .synRcvd)
    (hacked : sock.sendBuf.lastByteAckedSeqnum = sock.window.lastAckReceived)
    (hlt : sock.window.lastAckReceived.toNat + 1 < 2 ^ 32)
    (hcompletes : completesHandshake sock pkt = true) (hfin : pkt.hasFlag finFlagMask = false)
    (packet : Option Packet) (now : Int) : handshakeSynRcvd sock packet pkt now =
      handleMessage { sock with
        state := .established
        window := { sock.window with
          lastAckReceived := sock.window.lastAckReceived + 1 } } pkt now := by
  obtain ⟨_, hnum⟩ := Bool.and_eq_true_iff.mp hcompletes
  have hnum' : pkt.header.ackNum = sock.window.lastAckReceived + 1 := eq_of_beq hnum
  have hnew : ¬ sock.window.lastAckReceived + 1 = sock.window.lastAckReceived := by
    intro h
    have hnat := congrArg UInt32.toNat h
    rw [UInt32.toNat_add, UInt32.toNat_one] at hnat
    omega
  have hgreatest : ¬ sock.window.lastAckReceived > sock.window.lastAckReceived + 1 := by
    rw [gt_iff_lt, UInt32.lt_iff_toNat_lt, UInt32.toNat_add, UInt32.toNat_one]
    omega
  -- no byte is acknowledged
  have hnothing : ¬ sock.window.lastAckReceived + 1 - 1 > sock.window.lastAckReceived := by
    rw [UInt32.add_sub_cancel]
    exact UInt32.lt_irrefl _
  simp only [handshakeSynRcvd, hstate, cAssert_of, hcompletes, if_true, handleMessage, hfin,
    Bool.false_eq_true, if_false, hnum', handleAck, hnew, sendBufferUpdateAck, hacked, hnothing,
    cMax, hgreatest, bind, Except.bind, pure, Except.pure]

/-- The ACK arrives. -/
theorem receive_pureAck (hisn : (cfg.isn .server).toNat < 2 ^ 31) :
    backendReceive (cfg.synReceived.ep .server) 0 (cfg.addr .client) cfg.pureAck =
      some (.ok (cfg.established.ep .server, [])) := by
  have hflags : cfg.pureAck.header.flags = ackFlagMask := rfl
  have hack : cfg.pureAck.hasFlag ackFlagMask = true := by
    rw [Packet.hasFlag, hflags]
    decide
  have hfin : cfg.pureAck.hasFlag finFlagMask = false := by
    rw [Packet.hasFlag, hflags]
    decide
  have hnum : cfg.pureAck.header.ackNum = cfg.isn .server + 1 := rfl
  have hlen : getPayloadLen cfg.pureAck = 0 := UInt16.sub_self headerLen
  have hstate : ((cfg.synReceived.ep .server).sock.heardFrom (cfg.addr .client)).state =
      .synRcvd := rfl
  have hlisten : ¬ ((cfg.synReceived.ep .server).sock.heardFrom (cfg.addr .client)).state =
      .listen := by
    rw [hstate]
    decide
  have hcompletes : completesHandshake ((cfg.synReceived.ep .server).sock.heardFrom
      (cfg.addr .client)) cfg.pureAck = true :=
    Bool.and_eq_true_iff.mpr ⟨hack, beq_self_eq_true _⟩
  have hhandle := handshakeSynRcvd_completes hstate rfl
    (show (cfg.isn .server).toNat + 1 < 2 ^ 32 by omega) hcompletes hfin (some cfg.synAck) 0
  -- for that socket the ACK is a duplicate
  rw [handleMessage_of_flags _ hflags, handleAck, if_pos] at hhandle
  swap
  · exact hnum
  simp only [hlen, bind, Except.bind, pure, Except.pure, ne_eq, not_true_eq_false,
    if_false] at hhandle
  show some (serverIteration { cfg.synReceived.ep .server with
    sock := (cfg.synReceived.ep .server).sock.heardFrom (cfg.addr .client) } (some cfg.synAck)
      cfg.pureAck 0) = _
  unfold serverIteration
  dsimp only
  rw [if_neg hlisten, hhandle]
  simp only [hcompletes, if_true, bind, Except.bind, pure, Except.pure]
  rfl

/-- **Two sockets just created can reach the established connection**, for all parameters. -/
theorem established_reachable (hisn : (cfg.isn .server).toNat < 2 ^ 31) :
    ∃ tr, Run (systemFrom cfg.created) (fun _ => True) tr cfg.established := by
  have hrun : Run (systemFrom cfg.created) (fun _ => True) [] cfg.created := .init rfl trivial
  have hsyn := hrun.exec _ (exec_syn)
  have hclient : (systemFrom cfg.created).step cfg.synReceived (.receive .client 0 0) =
      some (.ok ((cfg.synReceived.takePacket .client 0).put .client
        (cfg.established.ep .client, [cfg.pureAck]))) := by
    show (backendReceive (cfg.synReceived.ep .client) 0 (cfg.addr .server) cfg.synAck).map _ = _
    rw [receive_synAck]
    rfl
  have hserver : (systemFrom cfg.created).step ((cfg.synReceived.takePacket .client 0).put
      .client (cfg.established.ep .client, [cfg.pureAck])) (.receive .server 0 0) =
        some (.ok cfg.established) := by
    show (backendReceive (cfg.synReceived.ep .server) 0 (cfg.addr .client) cfg.pureAck).map _ = _
    rw [receive_pureAck hisn]
    refine congrArg (fun t => some (Except.ok t)) (?_ : _ = _)
    refine Sys.ext_sides ?_ rfl ?_
    · intro x
      cases x <;> rfl
    · intro x
      cases x <;> rfl
  exact ⟨_, (hsyn.step hclient trivial).step hserver trivial⟩

end CmuTcp
