import CmuTcp.Model.Socket

/-!
# The Backend

The functions of `backend.c`, in the order of the file: `handle_message`, the handshakes,
the two functions that send data, and what an iteration of `begin_backend` decides.
Packets that a function sends are part of its result, in the order of the `sendto` calls;
a packet that `create_packet` refused to build sends nothing.  The two handshake functions
and `begin_backend` loop over the network, so they are given as what they do before their
loop and what one iteration does.

`multiple_send` may die in a copy out of the send ring when some of its packets are already
on their way.  So the fault is part of its result, next to these packets.

The counters `counter1`, `counter2`, `counter3` that can suppress handshake packets have
the limit `0` in the source, so every `sendto` guarded by them takes place.
-/

namespace CmuTcp

/-! ## handle_message -/

/-- `MAX(X, Y)` -/
def cMax (x y : UInt32) : UInt32 := if x > y then x else y

/-- The ack update of `handle_message`. -/
def handleAck (sock : CmuSocket) (acknum : UInt32) (now : Int) : Except Fault CmuSocket :=
  if acknum = sock.window.lastAckReceived then
    -- duplicate ACK
    return sock
  else do
    let lastAckReceived := cMax sock.window.lastAckReceived acknum
    let sendBuf ← sendBufferUpdateAck sock.sendBuf acknum now
    return { sock with
      window := { sock.window with lastAckReceived := lastAckReceived }
      sendBuf := sendBuf }

/-- The ack update changes the send buffer and `last_ack_received` only. -/
theorem handleAck_eq_ok {sock sock' : CmuSocket} {acknum : UInt32} {now : Int}
    (h : handleAck sock acknum now = .ok sock') :
    acknum = sock.window.lastAckReceived ∧ sock' = sock ∨
      ∃ sb, sendBufferUpdateAck sock.sendBuf acknum now = .ok sb ∧ sock' = { sock with
        window := { sock.window with
          lastAckReceived := cMax sock.window.lastAckReceived acknum }
        sendBuf := sb } := by
  unfold handleAck at h
  split at h
  · rename_i hdup
    exact Or.inl ⟨hdup, (Except.ok.inj h).symm⟩
  · obtain ⟨sb, hupdate, hret⟩ := FaultSystem.ok_of_bind_ok h
    exact Or.inr ⟨sb, hupdate, (Except.ok.inj hret).symm⟩

theorem handleAck_recvBuf {sock sock' : CmuSocket} {acknum : UInt32} {now : Int}
    (h : handleAck sock acknum now = .ok sock') : sock'.recvBuf = sock.recvBuf := by
  rcases handleAck_eq_ok h with ⟨_, rfl⟩ | ⟨sb, _, rfl⟩
  · rfl
  · rfl

/-- The guarded call of `recv_buffer_receive` in `handle_message`. -/
def receivePayload (rb : RecvBuffer) (seqnum len : UInt32) (payload : List UInt8) :
    Except Fault RecvBuffer :=
  if recvBufferCanReceive rb seqnum len = 0 then recvBufferReceive rb seqnum len payload
  else return rb

/-- The part of `handle_message` for a packet with data: try to receive it, and answer
    with a pure ACK in any case. -/
def handlePayload (sock : CmuSocket) (pkt : Packet) :
    Except Fault (CmuSocket × List Packet) := do
  let recvBuf ← receivePayload sock.recvBuf pkt.header.seqNum (getPayloadLen pkt).toUInt32
    (getPayload pkt)
  let sock := { sock with
    recvBuf := recvBuf
    window := { sock.window with nextSeqExpected := getNextByteExpectedSeqnum recvBuf } }
  let advWindow := (recvBufferMaxReceive sock.recvBuf).toUInt16
  let packet := createPacket sock.myPort sock.conn.sinPort sock.window.lastAckReceived
    sock.window.nextSeqExpected headerLen headerLen ackFlagMask advWindow [] 0
  return (sock, packet.toList)

/-- `handle_message`; `now` is what `get_time_ms` returns. -/
def handleMessage (sock : CmuSocket) (pkt : Packet) (now : Int) :
    Except Fault (CmuSocket × List Packet) := do
  cAssert (pkt.hasFlag ackFlagMask) .handleMessageAck
  cAssert (!pkt.hasFlag synFlagMask) .handleMessageSyn
  if pkt.hasFlag finFlagMask then
    return (sock, [])
  else
    let sock ← handleAck sock pkt.header.ackNum now
    let sock := { sock with
      window := { sock.window with rcvdAdvertisedWindow := pkt.header.advertisedWindow } }
    if getPayloadLen pkt ≠ 0 then
      handlePayload sock pkt
    else
      return (sock, [])

/-- A packet with the ACK flag passes the asserts if it has no SYN flag. -/
theorem handleMessage_of_hasFlag (sock : CmuSocket) {p : Packet}
    (hack : p.hasFlag ackFlagMask = true) (hsyn : p.hasFlag synFlagMask = false)
    (hfin : p.hasFlag finFlagMask = false) (now : Int) : handleMessage sock p now = (do
      let sock ← handleAck sock p.header.ackNum now
      let sock := { sock with
        window := { sock.window with rcvdAdvertisedWindow := p.header.advertisedWindow } }
      if getPayloadLen p ≠ 0 then handlePayload sock p else return (sock, [])) := by
  have hsyn' : (!p.hasFlag synFlagMask) = true := by
    rw [hsyn]
    rfl
  have hfin' : ¬ p.hasFlag finFlagMask = true := by
    rw [hfin]
    exact Bool.false_ne_true
  unfold handleMessage
  rw [cAssert_of hack, cAssert_of hsyn', if_neg hfin']
  rfl

/-- A packet with the ACK flag alone. -/
theorem handleMessage_of_flags (sock : CmuSocket) {p : Packet}
    (hflags : p.header.flags = ackFlagMask) (now : Int) : handleMessage sock p now = (do
      let sock ← handleAck sock p.header.ackNum now
      let sock := { sock with
        window := { sock.window with rcvdAdvertisedWindow := p.header.advertisedWindow } }
      if getPayloadLen p ≠ 0 then handlePayload sock p else return (sock, [])) := by
  apply handleMessage_of_hasFlag
  · rw [Packet.hasFlag, hflags]
    decide
  · rw [Packet.hasFlag, hflags]
    decide
  · rw [Packet.hasFlag, hflags]
    decide

/-! ## The handshakes -/

/-- `init_handshake_client` up to its loop: the SYN, which is sent and kept for
    retransmission. -/
def initHandshakeClient (sock : CmuSocket) : Except Fault (CmuSocket × Option Packet) := do
  cAssert (sock.type = .tcpInitiator) .handshakeClientType
  let packet := createPacket sock.myPort sock.conn.sinPort sock.window.lastAckReceived 0
    headerLen headerLen synFlagMask cp1WindowSize [] 0
  return ({ sock with state := .synSent }, packet)

/-- One iteration of the loop of `init_handshake_client`; no arrival is a timeout of
    `poll`.  An arriving packet has a whole header, so the peek returns its 25 bytes. -/
def initHandshakeClientIteration (sock : CmuSocket) (packet : Option Packet)
    (arrival : Option Packet) : Except Fault (CmuSocket × List Packet) :=
  match arrival with
  | none => return (sock, packet.toList)
  | some pkt => do
    cAssert (pkt.hasFlag synFlagMask) .handshakeClientSyn
    cAssert (pkt.hasFlag ackFlagMask) .handshakeClientAck
    let recvBuf ← recvBufferInitialize sock.recvBuf pkt.header.seqNum
    cAssert (pkt.header.ackNum = sock.window.lastAckReceived + 1) .handshakeClientAckNumber
    let window := { sock.window with
      lastAckReceived := pkt.header.ackNum
      nextSeqExpected := pkt.header.seqNum + 1 }
    let ack := createPacket sock.myPort sock.conn.sinPort window.lastAckReceived
      window.nextSeqExpected headerLen headerLen ackFlagMask cp1WindowSize [] 0
    return ({ sock with recvBuf := recvBuf, window := window, state := .established },
      ack.toList)

/-- `init_handshake_server` up to its loop. -/
def initHandshakeServer (sock : CmuSocket) : Except Fault CmuSocket := do
  cAssert (sock.type = .tcpListener) .handshakeServerType
  return { sock with state := .listen }

/-- The `LISTEN` branch of the loop of `init_handshake_server`: the SYN-ACK is sent and
    kept for retransmission. -/
def handshakeListen (sock : CmuSocket) (pkt : Packet) :
    Except Fault (CmuSocket × Option Packet) := do
  cAssert (pkt.header.flags = synFlagMask) .handshakeServerSyn
  let recvBuf ← recvBufferInitialize sock.recvBuf pkt.header.seqNum
  let window := { sock.window with nextSeqExpected := pkt.header.seqNum + 1 }
  let packet := createPacket sock.myPort sock.conn.sinPort window.lastAckReceived
    window.nextSeqExpected headerLen headerLen (synFlagMask ||| ackFlagMask) cp1WindowSize [] 0
  return ({ sock with
    recvBuf := recvBuf, initialized := true, window := window, state := .synRcvd }, packet)

/-- Does the packet complete the server's handshake? -/
def completesHandshake (sock : CmuSocket) (pkt : Packet) : Bool :=
  pkt.hasFlag ackFlagMask && pkt.header.ackNum == sock.window.lastAckReceived + 1

/-- The `SYN_RCVD` branch of the loop of `init_handshake_server`. -/
def handshakeSynRcvd (sock : CmuSocket) (packet : Option Packet) (pkt : Packet) (now : Int) :
    Except Fault (CmuSocket × List Packet) := do
  cAssert (sock.state = .synRcvd) .handshakeServerState
  if completesHandshake sock pkt then
    -- the pure ACK of the handshake, or a later packet of an established client
    handleMessage { sock with state := .established } pkt now
  else
    -- the client did not receive the SYN-ACK and sends its SYN again
    cAssert (pkt.hasFlag synFlagMask) .handshakeServerSynAgain
    return (sock, packet.toList)

/-! ## Sending -/

/-- What a send function did: the send buffer it leaves, the packets it sent, whether all
    its copies out of the ring were in bounds, and the fault in which the process ended, if
    it did not come to its end. -/
structure Sent where
  sendBuf : SendBuffer
  packets : List Packet
  inBounds : Bool
  fault : Option Fault

/-- A data packet of an established endpoint, with the ack and the window it has now. -/
def dataPacket (sock : CmuSocket) (seq : UInt32) (payload : List UInt8)
    (payloadLen : UInt16) : Option Packet :=
  createPacket sock.myPort sock.conn.sinPort seq sock.window.nextSeqExpected headerLen
    (headerLen + payloadLen) ackFlagMask (recvBufferMaxReceive sock.recvBuf).toUInt16
    payload payloadLen

/-- `payload_len = MIN(target_send_len, MSS)` -/
def chunkLen (targetSendLen : UInt32) : UInt16 :=
  (if targetSendLen < mss then targetSendLen else mss).toUInt16

/-- The loop of `multiple_send`. -/
def multipleSendLoop (sock : CmuSocket) (beyond : ℕ → UInt8) :
    ℕ → SendBuffer → UInt32 → Sent
  | 0, sb, _ => ⟨sb, [], true, none⟩
  | fuel + 1, sb, targetSendLen =>
    if targetSendLen > 0 then
      let payloadLen := chunkLen targetSendLen
      let seq := getLastByteSentSeqnum sb + 1
      let startIndex := (sb.lastByteSentIndex + 1) % sb.capacity
      match sendBufferDump sb beyond startIndex payloadLen.toUInt32 with
      | .ok (sb', payload) =>
        let msg := dataPacket sock seq payload.bytes payloadLen
        let rest := multipleSendLoop sock beyond fuel sb' (targetSendLen - payloadLen.toUInt32)
        ⟨rest.sendBuf, msg.toList ++ rest.packets, payload.inBounds && rest.inBounds,
          rest.fault⟩
      -- the packets of the iterations before have been sent
      | .error f => ⟨sb, [], false, some f⟩
    else ⟨sb, [], true, none⟩

/-- `target_send_len` of `multiple_send`: the fresh bytes that fit the peer's window. -/
def freshSendLen (sock : CmuSocket) : UInt32 :=
  let numUnacknowledged := getUnacknowledgedCount sock.sendBuf
  let window := sock.window.rcvdAdvertisedWindow.toUInt32
  if numUnacknowledged < window then
    let numFreshDataAvailable := sendBufferMaxNewDump sock.sendBuf
    let maxFreshDataAllowed := window - numUnacknowledged
    if numFreshDataAvailable < maxFreshDataAllowed then numFreshDataAvailable
    else maxFreshDataAllowed
  else 0

/-- `multiple_send`; `beyond` is the memory that follows the ring.  Every iteration of
    the loop sends at least one byte, so `target_send_len` iterations are enough. -/
def multipleSend (sock : CmuSocket) (beyond : ℕ → UInt8) : Sent :=
  multipleSendLoop sock beyond (freshSendLen sock).toNat sock.sendBuf (freshSendLen sock)

/-- The loop of `resend_unacknowledged`, from the `num_sent`-th unacknowledged byte on.
    The payload pointer goes to `create_packet` as it is, `buffer + curr_index`. -/
def resendLoop (sock : CmuSocket) (beyond : ℕ → UInt8) (startIndex startSeq : UInt32) :
    ℕ → UInt32 → UInt32 → List Packet × Bool
  | 0, _, _ => ([], true)
  | fuel + 1, numSent, targetSendLen =>
    if targetSendLen > 0 then
      let currIndex := (startIndex + numSent) % sock.sendBuf.capacity
      let currSeq := startSeq + numSent
      let payloadLen := chunkLen targetSendLen
      let payload := sock.sendBuf.copyOut beyond currIndex payloadLen.toUInt32
      let msg := dataPacket sock currSeq payload.bytes payloadLen
      let rest := resendLoop sock beyond startIndex startSeq fuel
        (numSent + payloadLen.toUInt32) (targetSendLen - payloadLen.toUInt32)
      (msg.toList ++ rest.1, payload.inBounds && rest.2)
    else ([], true)

/-- `target_send_len` of `resend_unacknowledged`. -/
def resendLen (sock : CmuSocket) : UInt32 :=
  let numUnacknowledged := getUnacknowledgedCount sock.sendBuf
  let window := sock.window.rcvdAdvertisedWindow.toUInt32
  if numUnacknowledged < window then numUnacknowledged else window

/-- `resend_unacknowledged` -/
def resendUnacknowledged (sock : CmuSocket) (beyond : ℕ → UInt8) : Except Fault Sent := do
  cAssert (getUnacknowledgedCount sock.sendBuf > 0) .resendUnacknowledged
  let startIndex := (sock.sendBuf.lastByteAckedIndex + 1) % sock.sendBuf.capacity
  let startSeq := sock.sendBuf.lastByteAckedSeqnum + 1
  if resendLen sock = 0 then
    -- the advertised window is 0: a zero window probe of a single byte
    let payload := sock.sendBuf.copyOut beyond startIndex 1
    let msg := dataPacket sock startSeq payload.bytes 1
    return ⟨sock.sendBuf, msg.toList, payload.inBounds, none⟩
  else
    let (packets, inBounds) := resendLoop sock beyond startIndex startSeq
      (resendLen sock).toNat 0 (resendLen sock)
    return ⟨sock.sendBuf, packets, inBounds, none⟩

/-! ## The loop of begin_backend -/

/-- The exit test of the loop: `death && (num_unacknowledged + num_fresh) == 0`. -/
def exitTest (sock : CmuSocket) (death : Bool) : Bool :=
  death && getUnacknowledgedCount sock.sendBuf + sendBufferMaxNewDump sock.sendBuf == 0

/-- `curr_ts - last_ack_ts > DEFAULT_TIMEOUT && num_unacknowledged > 0` -/
def resendDue (sock : CmuSocket) (now : Int) : Bool :=
  decide (now - sock.sendBuf.lastByteAckedTs > defaultTimeout)
    && decide (getUnacknowledgedCount sock.sendBuf > 0)

/-- The sending part of an iteration: a resend on timeout, else fresh data. -/
def transmit (sock : CmuSocket) (now : Int) (beyond : ℕ → UInt8) : Except Fault Sent :=
  if resendDue sock now then resendUnacknowledged sock beyond
  else return multipleSend sock beyond

end CmuTcp
