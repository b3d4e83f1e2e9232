import CmuTcp.Model.Host

/-!
# Two Hosts and Datagrams

Both hosts of a connection, and the datagrams on their way to each: bytes and the address
they come from.  What a host sends is what its `sendto` calls are given, the first `plen`
bytes of the packets that `create_packet` made, and it reaches the other host if that is
where `sock->conn` points.  The network may lose, duplicate, delay and reorder datagrams;
one that arrives is put at the end of the queue of the socket.
-/

namespace CmuTcp

structure Udp where
  host : Side → Host
  addr : Side → SockAddr
  wire : Side → List Datagram

/-! ## What a host sends -/

/-- The packets that a function of the packet level sent. -/
def sentBy : Except Fault (Endpoint × List Packet) → List Packet
  | .ok r => r.2
  | .error _ => []

/-- The packets sent after a `recvfrom` that returned a datagram: those of an iteration of
    a handshake loop that reads a header alone. -/
def Host.recvfromSends (h : Host) (now : Int) : List Packet :=
  match h.queue with
  | [] => []
  | d :: _ =>
    let e := { h.ep with sock := h.ep.sock.heardFrom d.source }
    let hdr := d.bytes.take headerLen.toNat
    match h.reading with
    | some _ => []
    | none =>
      match e.pc with
      | .handshake packet =>
        match e.sock.type with
        | .tcpInitiator =>
          if hdr.length = headerLen.toNat then
            sentBy (clientIteration e packet (some ⟨parseHeader hdr, []⟩))
          else []
        | .tcpListener =>
          if e.sock.state = .listen ∧ hdr.length = headerLen.toNat then
            sentBy (serverIteration e packet ⟨parseHeader hdr, []⟩ now)
          else []
      | _ => []

/-- The packets sent by a step of the backend thread without a `recvfrom`. -/
def Host.backendSends (h : Host) (now : Int) (beyond : ℕ → UInt8) : List Packet :=
  match h.reading with
  | some loop =>
    let pkt : Packet := ⟨loop.hdr, loop.pkt.drop headerLen.toNat⟩
    match h.ep.pc with
    | .handshake packet => sentBy (serverIteration h.ep packet pkt now)
    | .checkData => sentBy (checkForData h.ep (some pkt) now)
    | _ => []
  | none => ((backendSilent h.ep now beyond).map sentBy).getD []

/-- The packets that a step sends. -/
def Host.sends (h : Host) : HostLabel → List Packet
  | .recvfrom now => h.recvfromSends now
  | .backend now beyond => h.backendSends now beyond
  | _ => []

/-- `sendto(socket, packet, plen, 0, conn, conn_len)` from the address `source`. -/
def Packet.datagram (source : SockAddr) (p : Packet) : Datagram :=
  ⟨source, p.bytes.take p.header.plen.toNat⟩

/-! ## Steps -/

inductive UdpLabel where
  | host (x : Side) (l : HostLabel)
  -- the `i`-th of the datagrams on the way to `x` arrives
  | arrive (x : Side) (i : ℕ)
  | lose (x : Side) (i : ℕ)
  | duplicate (x : Side) (i : ℕ)

/-- Put a host back; what it sent goes to where `sock->conn` points. -/
def Udp.put (u : Udp) (x : Side) (h : Host) (packets : List Packet) : Udp :=
  { u with
    host := Function.update u.host x h
    wire := Function.update u.wire x.other (u.wire x.other ++
      if h.ep.sock.conn = u.addr x.other then packets.map (Packet.datagram (u.addr x)) else []) }

/-- Take the `i`-th datagram off the wire. -/
def Udp.takeDatagram (u : Udp) (x : Side) (i : ℕ) : Udp :=
  { u with wire := Function.update u.wire x ((u.wire x).eraseIdx i) }

def Udp.step (u : Udp) : UdpLabel → Option (Except HostFault Udp)
  -- a datagram comes from the wire
  | .host _ (.arrive _) => none
  | .host x l =>
    ((u.host x).step l).map fun r => r.map fun h => u.put x h ((u.host x).sends l)
  | .arrive x i =>
    match (u.wire x)[i]? with
    | some d => some (.ok { u.takeDatagram x i with
        host := Function.update u.host x { u.host x with queue := (u.host x).queue ++ [d] } })
    | none => none
  | .lose x i => if i < (u.wire x).length then some (.ok (u.takeDatagram x i)) else none
  | .duplicate x i =>
    match (u.wire x)[i]? with
    | some d => some (.ok { u with wire := Function.update u.wire x (u.wire x ++ [d]) })
    | none => none

/-- Two hosts whose sockets `cmu_socket` has just made. -/
def Config.createdHosts (cfg : Config) : Udp where
  host := cfg.createdHost
  addr := cfg.addr
  wire _ := []

/-- The system of the two hosts that starts in `u`. -/
def udpFrom (u : Udp) : FaultSystem.System Udp UdpLabel HostFault where
  init := fun t => t = u
  step := Udp.step

end CmuTcp
