import CmuTcp.Model.Network

/-!
# Endpoints on UDP Sockets

The UDP socket is a queue of datagrams of any bytes and any length, from any address.
`recvfrom` stores the address of the datagram it returns; with `MSG_PEEK` it leaves the
datagram in the queue, without it removes the datagram, and it returns at most as many
bytes as it is asked for.  It waits if the queue is empty, unless it has `MSG_DONTWAIT`.

The first part is `check_for_data` as one call on a queue that does not change meanwhile.
The second takes one `recvfrom` at a time: an endpoint of the packet level, the datagrams
that wait in the queue of its socket, the read loop that its backend thread is in, and
where its packets have been sent.  Any datagram from any address may arrive at any time.
-/

namespace CmuTcp

/-! ## check_for_data on a queue -/

structure Datagram where
  source : SockAddr
  bytes : List UInt8

/-- What a call of `check_for_data` does to the queue and to `sock->conn`, and the bytes
    that it hands to `handle_message`. -/
inductive Framing where
  -- a `recvfrom` waits for a datagram
  | blocks
  | returns (conn : SockAddr) (queue : List Datagram)
  | handles (pkt : List UInt8) (conn : SockAddr) (queue : List Datagram)

/-- The read loop: `recvfrom` for what is missing, until there are `plen` bytes. -/
def readLoop (plen : ℕ) (pkt : List UInt8) (conn : SockAddr) : List Datagram → Framing
  | [] => if pkt.length < plen then .blocks else .handles pkt conn []
  | d :: rest =>
    if pkt.length < plen then
      readLoop plen (pkt ++ d.bytes.take (plen - pkt.length)) d.source rest
    else .handles pkt conn (d :: rest)

/-- `check_for_data` up to `handle_message`. -/
def checkForDataFraming (flags : CmuReadMode) (conn : SockAddr) : List Datagram → Framing
  | [] =>
    match flags with
    | .noFlag => .blocks
    -- `poll` times out, or `recvfrom` returns `-1`
    | .timeout => .returns conn []
    | .noWait => .returns conn []
  | d :: rest =>
    let hdr := d.bytes.take headerLen.toNat
    if hdr.length ≥ headerLen.toNat then
      readLoop (parseHeader hdr).plen.toNat [] d.source (d :: rest)
    else .returns d.source (d :: rest)

/-- `check_for_data(sock, flags)`, with the packets sent and the queue that is left;
    nothing if it waits.  `handle_message` reads a whole header. -/
def checkForDataUdp (e : Endpoint) (flags : CmuReadMode) (queue : List Datagram) (now : Int) :
    Option (Except Fault ((Endpoint × List Packet) × List Datagram)) :=
  match checkForDataFraming flags e.sock.conn queue with
  | .blocks => none
  | .returns conn queue =>
    some (.ok (({ e with sock := e.sock.heardFrom conn, pc := .transmit }, []), queue))
  | .handles pkt conn queue => some do
    if pkt.length < headerLen.toNat then
      throw .memory
    else
      let r ← checkForData { e with sock := e.sock.heardFrom conn } (some (parsePacket pkt)) now
      return (r, queue)

/-! ## An endpoint and its socket -/

/-- A read loop in progress, in `check_for_data` or in `init_handshake_server`: the header
    that the peek returned, and the bytes read so far. -/
structure ReadLoop where
  hdr : CmuTcpHeader
  pkt : List UInt8

structure Host where
  ep : Endpoint
  queue : List Datagram
  reading : Option ReadLoop
  -- the destinations of the `sendto` calls
  sentTo : List SockAddr

inductive HostFault where
  | fault (f : Fault)
  -- `len == sizeof(cmu_tcp_header_t)` in the `LISTEN` branch of `init_handshake_server`
  | shortHeader

/-- Put the endpoint back; its packets go to `sock->conn`. -/
def Host.put (h : Host) (r : Endpoint × List Packet) : Host :=
  { h with ep := r.1, sentTo := h.sentTo ++ r.2.map fun _ => r.1.sock.conn }

/-- Put the result of a function of the packet level back. -/
def Host.putResult (h : Host) (r : Except Fault (Endpoint × List Packet)) :
    Except HostFault Host :=
  (r.mapError .fault).map h.put

/-! ## The backend thread -/

/-- The next `recvfrom` of the backend thread, and what follows it, when a datagram is
    there. -/
def Host.recvfrom (h : Host) (now : Int) : Option (Except HostFault Host) :=
  match h.queue with
  | [] => none
  | d :: rest =>
    let e := { h.ep with sock := h.ep.sock.heardFrom d.source }
    let hdr := d.bytes.take headerLen.toNat
    match h.reading with
    | some loop =>
      let size := loop.hdr.plen.toNat - loop.pkt.length
      if loop.pkt.length < loop.hdr.plen.toNat then
        some (.ok { h with
          ep := e, queue := rest
          reading := some { loop with pkt := loop.pkt ++ d.bytes.take size } })
      else none
    | none =>
      match e.pc with
      | .handshake packet =>
        match e.sock.type with
        | .tcpInitiator =>
          if hdr.length = headerLen.toNat then
            -- the second `recvfrom` returns the same header and removes the datagram
            some ({ h with queue := rest }.putResult
              (clientIteration e packet (some ⟨parseHeader hdr, []⟩)))
          else some (.ok { h with ep := e })
        | .tcpListener =>
          if e.sock.state = .listen then
            if hdr.length = headerLen.toNat then
              some ({ h with queue := rest }.putResult
                (serverIteration e packet ⟨parseHeader hdr, []⟩ now))
            else some (.error .shortHeader)
          else if hdr.length = headerLen.toNat then
            some (.ok { h with ep := e, reading := some ⟨parseHeader hdr, []⟩ })
          else some (.ok { h with ep := e })
      | .checkData =>
        if hdr.length ≥ headerLen.toNat then
          some (.ok { h with ep := e, reading := some ⟨parseHeader hdr, []⟩ })
        else some (.ok { h with ep := { e with pc := .transmit } })
      | _ => none

/-- The thread looks for a datagram next. -/
def BackendPc.polls : BackendPc → Bool
  | .handshake _ => true
  | .checkData => true
  | _ => false

/-- A step of the backend thread without a `recvfrom` that returns a datagram.  A read loop
    with all its bytes ends; `handle_message` needs a whole header of them. -/
def Host.backend (h : Host) (now : Int) (beyond : ℕ → UInt8) : Option (Except HostFault Host) :=
  match h.reading with
  | some loop =>
    let pkt : Packet := ⟨loop.hdr, loop.pkt.drop headerLen.toNat⟩
    if loop.pkt.length < loop.hdr.plen.toNat then none
    else
      match h.ep.pc with
      | .handshake packet =>
        if completesHandshake h.ep.sock pkt ∧ loop.pkt.length < headerLen.toNat then
          some (.error (.fault .memory))
        else
          some ({ h with reading := none }.putResult (serverIteration h.ep packet pkt now))
      | .checkData =>
        if loop.pkt.length < headerLen.toNat then some (.error (.fault .memory))
        else
          some ({ h with reading := none }.putResult (checkForData h.ep (some pkt) now))
      | _ => none
  | none =>
    if h.ep.pc.polls ∧ h.queue ≠ [] then none
    else (backendSilent h.ep now beyond).map h.putResult

/-! ## Steps -/

inductive HostLabel where
  | arrive (d : Datagram)
  | recvfrom (now : Int)
  | backend (now : Int) (beyond : ℕ → UInt8)
  | writeCall (data : List UInt8)
  | write
  | read (length : Int) (flags : CmuReadMode)
  | close

def Host.step (h : Host) : HostLabel → Option (Except HostFault Host)
  | .arrive d => some (.ok { h with queue := h.queue ++ [d] })
  | .recvfrom now => h.recvfrom now
  | .backend now beyond => h.backend now beyond
  | .writeCall data => (appWriteCall h.ep data).map fun e => .ok (h.put (e, []))
  | .write => (appWrite h.ep).map fun r => h.putResult (r.map fun e => (e, []))
  | .read length flags =>
    (appRead h.ep length flags).map fun r => h.putResult (r.map fun e => (e, []))
  | .close => (appClose h.ep).map fun e => .ok (h.put (e, []))

/-- The host that starts in `h`. -/
def hostSystem (h : Host) : FaultSystem.System Host HostLabel HostFault where
  init := fun t => t = h
  step := Host.step

/-- The host of a socket that `cmu_socket` has just made. -/
def Config.createdHost (cfg : Config) (x : Side) : Host :=
  ⟨cfg.created.ep x, [], none, []⟩

end CmuTcp
