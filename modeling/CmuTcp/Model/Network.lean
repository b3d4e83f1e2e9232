import Mathlib.Logic.Function.Basic
import CmuTcp.Library.FaultSystem
import CmuTcp.Model.Backend

/-!
# Two Endpoints and a Network

A client and a server, each with its backend thread and its application, and the packets
on their way to each side.  A step is one critical section of a thread, or the network
losing or duplicating a packet.  Any packet in flight may be the next to arrive, so
delay and reordering need no steps of their own.

The backend's program counter follows `begin_backend`: the handshake, and then round and
round the loop, which reads `dying`, evaluates the exit test, looks for a packet and
sends.  The clock is an input of every backend step, so timeouts are free to fire.

A step that fails an assertion, or copies outside a receive ring, is a fault and ends the
run.  The copy of `multiple_send` that faults after the wrap of the send ring is not: by
then packets may have been sent, and the peer lives on.  So that step leads to an endpoint
that is `crashed`, in which neither the backend thread nor the application does anything
any more, with the packets sent before it on the network.

An endpoint also carries a record of what happened to it, which no step reads: the bytes
passed to `cmu_write` and returned by `cmu_read`, the arguments of the calls of
`recv_buffer_initialize`, the ack numbers `handle_message` has processed, and whether a
copy out of the send ring has ever been out of bounds.
-/

namespace CmuTcp

/-! ## States -/

/-- Where the backend thread is. -/
inductive BackendPc where
  | entry
  -- inside the handshake loop, with the packet it retransmits
  | handshake (packet : Option Packet)
  | loopTop
  -- `death` has been read, the exit test is next
  | exitTest (death : Bool)
  | checkData
  | transmit
  | exited
  -- the process has died in a copy out of the send ring
  | crashed
  deriving DecidableEq, Repr

/-- The thread has ended, or the whole process. -/
def BackendPc.ended : BackendPc → Bool
  | .exited => true
  | .crashed => true
  | _ => false

theorem BackendPc.ne_exited {pc : BackendPc} (h : pc.ended = false) : pc ≠ .exited := by
  rintro rfl
  exact absurd h (by decide)

/-- An endpoint: its socket, its backend thread, what is left of the `cmu_write` call in
    progress, and the record of its past. -/
structure Endpoint where
  sock : CmuSocket
  pc : BackendPc
  pending : List UInt8
  passed : List UInt8
  delivered : List UInt8
  initCalls : List UInt32
  acksHandled : List UInt32
  strayed : Bool

inductive Side where
  | client
  | server
  deriving DecidableEq, Repr

def Side.other : Side → Side
  | .client => .server
  | .server => .client

@[simp] theorem Side.other_other (x : Side) : x.other.other = x := by
  cases x <;> rfl

@[simp] theorem Side.other_ne (x : Side) : x.other ≠ x := by
  cases x <;> decide

/-- Both endpoints, the addresses their datagrams come from, and for each side the
    packets on their way to it. -/
structure Sys where
  ep : Side → Endpoint
  addr : Side → SockAddr
  net : Side → List Packet

/-! ## Backend steps -/

/-- `recvfrom` stores the source of the datagram it returns in `sock->conn`. -/
def CmuSocket.heardFrom (sock : CmuSocket) (source : SockAddr) : CmuSocket :=
  { sock with conn := source }

/-- `begin_backend` up to the first iteration of a handshake loop. -/
def enterHandshake (e : Endpoint) : Except Fault (Endpoint × List Packet) :=
  match e.sock.type with
  | .tcpInitiator => do
    let (sock, packet) ← initHandshakeClient e.sock
    return ({ e with sock := sock, pc := .handshake packet }, packet.toList)
  | .tcpListener => do
    let sock ← initHandshakeServer e.sock
    return ({ e with sock := sock, pc := .handshake none }, [])

/-- One iteration of the client's handshake loop, and the end of `init_handshake_client`
    once the state is `ESTABLISHED`. -/
def clientIteration (e : Endpoint) (packet : Option Packet) (arrival : Option Packet) :
    Except Fault (Endpoint × List Packet) := do
  let (sock, sent) ← initHandshakeClientIteration e.sock packet arrival
  match arrival with
  | none => return ({ e with sock := sock }, sent)
  | some pkt =>
    return ({ e with
      sock := { sock with initialized := true }
      pc := .loopTop
      initCalls := e.initCalls ++ [pkt.header.seqNum] }, sent)

/-- One iteration of the server's handshake loop. -/
def serverIteration (e : Endpoint) (packet : Option Packet) (pkt : Packet) (now : Int) :
    Except Fault (Endpoint × List Packet) :=
  if e.sock.state = .listen then do
    let (sock, synAck) ← handshakeListen e.sock pkt
    return ({ e with
      sock := sock
      pc := .handshake synAck
      initCalls := e.initCalls ++ [pkt.header.seqNum] }, synAck.toList)
  else do
    let (sock, sent) ← handshakeSynRcvd e.sock packet pkt now
    if completesHandshake e.sock pkt then
      return ({ e with
        sock := sock, pc := .loopTop
        acksHandled := e.acksHandled ++ [pkt.header.ackNum] }, sent)
    else
      return ({ e with sock := sock }, sent)

/-- `check_for_data(sock, NO_WAIT)`: a packet of the peer is a datagram of exactly `plen`
    bytes, so the read loop takes it in one `recvfrom`. -/
def checkForData (e : Endpoint) (arrival : Option Packet) (now : Int) :
    Except Fault (Endpoint × List Packet) :=
  match arrival with
  | none => return ({ e with pc := .transmit }, [])
  | some pkt => do
    let (sock, sent) ← handleMessage e.sock pkt now
    return ({ e with
      sock := sock, pc := .transmit
      acksHandled := e.acksHandled ++ [pkt.header.ackNum] }, sent)

/-- Where the thread is after a send function. -/
def Sent.pc (sent : Sent) : BackendPc :=
  if sent.fault = none then .loopTop else .crashed

/-- The sending part of an iteration, which ends it. -/
def transmitStep (e : Endpoint) (now : Int) (beyond : ℕ → UInt8) :
    Except Fault (Endpoint × List Packet) := do
  let sent ← transmit e.sock now beyond
  return ({ e with
    sock := { e.sock with sendBuf := sent.sendBuf }
    pc := sent.pc
    strayed := e.strayed || !sent.inBounds }, sent.packets)

/-- The thread stays behind its handshake. -/
theorem Sent.pc_ne (sent : Sent) :
    sent.pc ≠ .entry ∧ (∀ packet, sent.pc ≠ .handshake packet) ∧ sent.pc ≠ .exited ∧
      ∀ death, sent.pc ≠ .exitTest death := by
  unfold Sent.pc
  split
  · exact ⟨by simp, by simp, by simp, by simp⟩
  · exact ⟨by simp, by simp, by simp, by simp⟩

/-- A step of the backend thread that receives no packet. -/
def backendSilent (e : Endpoint) (now : Int) (beyond : ℕ → UInt8) :
    Option (Except Fault (Endpoint × List Packet)) :=
  match e.pc with
  | .entry => some (enterHandshake e)
  | .handshake packet =>
    match e.sock.type with
    | .tcpInitiator => some (clientIteration e packet none)
    -- the server's `recvfrom` blocks
    | .tcpListener => none
  | .loopTop => some (.ok ({ e with pc := .exitTest e.sock.dying }, []))
  | .exitTest death =>
    some (.ok ({ e with pc := if exitTest e.sock death then .exited else .checkData }, []))
  | .checkData => some (checkForData e none now)
  | .transmit => some (transmitStep e now beyond)
  | .exited => none
  | .crashed => none

/-- How an endpoint in its loop moves on without looking at a packet or sending one. -/
inductive Endpoint.Advances (e : Endpoint) : BackendPc → Prop
  | loopTop (hpc : e.pc = .loopTop) : Advances e (.exitTest e.sock.dying)
  | exits {death : Bool} (hpc : e.pc = .exitTest death) (hexit : exitTest e.sock death = true) :
      Advances e .exited
  | stays {death : Bool} (hpc : e.pc = .exitTest death) (hexit : ¬ exitTest e.sock death = true) :
      Advances e .checkData
  | looks (hpc : e.pc = .checkData) : Advances e .transmit

/-- Behind its handshake the thread moves on, or transmits. -/
theorem backendSilent_cases {e : Endpoint} {now : Int} {beyond : ℕ → UInt8}
    {r : Except Fault (Endpoint × List Packet)} (hentry : e.pc ≠ .entry)
    (hhandshake : ∀ packet, e.pc ≠ .handshake packet)
    (h : backendSilent e now beyond = some r) :
    (e.pc = .transmit ∧ r = transmitStep e now beyond) ∨
      ∃ pc, e.Advances pc ∧ r = .ok ({ e with pc := pc }, []) := by
  unfold backendSilent at h
  split at h
  case h_1 hpc => exact absurd hpc hentry
  case h_2 packet hpc => exact absurd hpc (hhandshake packet)
  case h_3 hpc => exact Or.inr ⟨_, .loopTop hpc, (Option.some.inj h).symm⟩
  case h_4 death hpc =>
    by_cases hexit : exitTest e.sock death = true
    · rw [if_pos hexit] at h
      exact Or.inr ⟨_, .exits hpc hexit, (Option.some.inj h).symm⟩
    · rw [if_neg hexit] at h
      exact Or.inr ⟨_, .stays hpc hexit, (Option.some.inj h).symm⟩
  case h_5 hpc => exact Or.inr ⟨_, .looks hpc, (Option.some.inj h).symm⟩
  case h_6 hpc => exact Or.inl ⟨hpc, (Option.some.inj h).symm⟩
  case h_7 => exact absurd h (by simp)
  case h_8 => exact absurd h (by simp)

theorem Endpoint.Advances.pc_ne {e : Endpoint} {pc : BackendPc} (h : e.Advances pc) :
    pc ≠ .entry ∧ (∀ packet, pc ≠ .handshake packet) ∧ pc ≠ .crashed := by
  cases h with
  | loopTop _ => exact ⟨by simp, by simp, by simp⟩
  | exits _ _ => exact ⟨by simp, by simp, by simp⟩
  | stays _ _ => exact ⟨by simp, by simp, by simp⟩
  | looks _ => exact ⟨by simp, by simp, by simp⟩

/-- A step of the backend thread that receives the packet `pkt`. -/
def backendReceive (e : Endpoint) (now : Int) (source : SockAddr) (pkt : Packet) :
    Option (Except Fault (Endpoint × List Packet)) :=
  let e := { e with sock := e.sock.heardFrom source }
  match e.pc with
  | .handshake packet =>
    match e.sock.type with
    | .tcpInitiator => some (clientIteration e packet (some pkt))
    | .tcpListener => some (serverIteration e packet pkt now)
  | .checkData => some (checkForData e (some pkt) now)
  | _ => none

/-- Behind its handshake the thread receives packets only where it looks for them. -/
theorem backendReceive_eq_some {e : Endpoint} {now : Int} {source : SockAddr} {pkt : Packet}
    {r : Except Fault (Endpoint × List Packet)} (hhandshake : ∀ packet, e.pc ≠ .handshake packet)
    (h : backendReceive e now source pkt = some r) :
    e.pc = .checkData ∧
      r = checkForData { e with sock := e.sock.heardFrom source } (some pkt) now := by
  unfold backendReceive at h
  dsimp only at h
  split at h
  case h_1 packet hpc => exact absurd hpc (hhandshake packet)
  case h_2 hpc => exact ⟨hpc, (Option.some.inj h).symm⟩
  case h_3 => exact absurd h (by simp)

/-! ## Application steps -/

/-- A call of `cmu_write`; its loop is the steps of `appWrite`.  The calls of one
    application follow each other, and the length is an `int`. -/
def appWriteCall (e : Endpoint) (data : List UInt8) : Option Endpoint :=
  if e.sock.initialized ∧ e.sock.dying = false ∧ e.pending = [] ∧ data.length < 2 ^ 31
      ∧ e.pc ≠ .crashed then
    some { e with pending := data, passed := e.passed ++ data }
  else none

/-- One iteration of the loop of the `cmu_write` call in progress. -/
def appWrite (e : Endpoint) : Option (Except Fault Endpoint) :=
  if e.pending = [] ∨ e.pc.ended then none
  else some do
    let (rest, sock) ← cmuWriteIteration e.sock e.pending
    return { e with sock := sock, pending := rest }

/-- A call of `cmu_read`, which in the blocking mode waits for data to be available. -/
def appRead (e : Endpoint) (length : Int) (flags : CmuReadMode) :
    Option (Except Fault Endpoint) :=
  if e.sock.initialized = false ∨ e.pc.ended
      ∨ (0 ≤ length ∧ flags = .noFlag ∧ recvBufferMaxRead e.sock.recvBuf = 0) then none
  else some do
    let (_, data, sock) ← cmuRead e.sock length flags
    return { e with sock := sock, delivered := e.delivered ++ data }

/-- `cmu_close`, up to the point where it waits for the backend thread to exit. -/
def appClose (e : Endpoint) : Option Endpoint :=
  if e.sock.initialized ∧ e.sock.dying = false ∧ e.pending = [] ∧ e.pc ≠ .crashed then
    some { e with sock := { e.sock with dying := true } }
  else none

theorem appWriteCall_eq_some {e e' : Endpoint} {data : List UInt8}
    (h : appWriteCall e data = some e') :
    (e.sock.initialized = true ∧ e.sock.dying = false ∧ e.pending = [] ∧ data.length < 2 ^ 31 ∧
        e.pc ≠ .crashed) ∧
      e' = { e with pending := data, passed := e.passed ++ data } := by
  unfold appWriteCall at h
  split at h
  · exact ⟨‹_›, (Option.some.inj h).symm⟩
  · exact absurd h (by simp)

theorem appClose_eq_some {e e' : Endpoint} (h : appClose e = some e') :
    (e.sock.initialized = true ∧ e.sock.dying = false ∧ e.pending = [] ∧ e.pc ≠ .crashed) ∧
      e' = { e with sock := { e.sock with dying := true } } := by
  unfold appClose at h
  split at h
  · exact ⟨‹_›, (Option.some.inj h).symm⟩
  · exact absurd h (by simp)

theorem appWrite_eq_some {e : Endpoint} {r : Except Fault Endpoint} (h : appWrite e = some r) :
    e.pending ≠ [] ∧ e.pc.ended = false ∧ r = (cmuWriteIteration e.sock e.pending).map
      fun x => { e with sock := x.2, pending := x.1 } := by
  unfold appWrite at h
  split at h
  · exact absurd h (by simp)
  · rename_i hguard
    obtain ⟨hpending, hpc⟩ := not_or.mp hguard
    exact ⟨hpending, Bool.eq_false_iff.mpr hpc, (Option.some.inj h).symm⟩

theorem appRead_eq_some {e : Endpoint} {length : Int} {flags : CmuReadMode}
    {r : Except Fault Endpoint} (h : appRead e length flags = some r) :
    e.sock.initialized = true ∧ e.pc.ended = false ∧ r = (cmuRead e.sock length flags).map
      fun x => { e with sock := x.2.2, delivered := e.delivered ++ x.2.1 } := by
  unfold appRead at h
  split at h
  · exact absurd h (by simp)
  · rename_i hguard
    obtain ⟨hinit, hrest⟩ := not_or.mp hguard
    exact ⟨Bool.eq_true_of_not_eq_false hinit, Bool.eq_false_iff.mpr (not_or.mp hrest).1,
      (Option.some.inj h).symm⟩

/-! ## Steps of the system -/

/-- What can happen next, and to which side. -/
inductive Label where
  | backend (x : Side) (now : Int) (beyond : ℕ → UInt8)
  -- the backend receives the `i`-th of the packets in flight to it
  | receive (x : Side) (now : Int) (i : ℕ)
  | writeCall (x : Side) (data : List UInt8)
  | write (x : Side)
  | read (x : Side) (length : Int) (flags : CmuReadMode)
  | close (x : Side)
  | lose (x : Side) (i : ℕ)
  | duplicate (x : Side) (i : ℕ)

/-- Put an endpoint back and send its packets to the other side. -/
def Sys.put (s : Sys) (x : Side) (r : Endpoint × List Packet) : Sys :=
  { s with
    ep := Function.update s.ep x r.1
    net := Function.update s.net x.other (s.net x.other ++ r.2) }

/-- Take the `i`-th packet out of those in flight to `x`. -/
def Sys.takePacket (s : Sys) (x : Side) (i : ℕ) : Sys :=
  { s with net := Function.update s.net x ((s.net x).eraseIdx i) }

def Sys.step (s : Sys) : Label → Option (Except Fault Sys)
  | .backend x now beyond =>
    (backendSilent (s.ep x) now beyond).map fun r => r.map (s.put x)
  | .receive x now i =>
    match (s.net x)[i]? with
    | some pkt =>
      (backendReceive (s.ep x) now (s.addr x.other) pkt).map fun r =>
        r.map ((s.takePacket x i).put x)
    | none => none
  | .writeCall x data => (appWriteCall (s.ep x) data).map fun e => .ok (s.put x (e, []))
  | .write x => (appWrite (s.ep x)).map fun r => r.map fun e => s.put x (e, [])
  | .read x length flags =>
    (appRead (s.ep x) length flags).map fun r => r.map fun e => s.put x (e, [])
  | .close x => (appClose (s.ep x)).map fun e => .ok (s.put x (e, []))
  | .lose x i =>
    if i < (s.net x).length then some (.ok (s.takePacket x i)) else none
  | .duplicate x i =>
    match (s.net x)[i]? with
    | some pkt => some (.ok { s with net := Function.update s.net x (s.net x ++ [pkt]) })
    | none => none

/-! ## Where runs start -/

def Side.socketType : Side → CmuSocketType
  | .client => .tcpInitiator
  | .server => .tcpListener

/-- The parameters of a connection: what the outside supplies to both sockets, the
    capacities of the four rings, and the addresses of the two sides. -/
structure Config where
  env : Side → SocketEnv
  sendCapacity : Side → UInt32
  recvCapacity : Side → UInt32
  addr : Side → SockAddr

/-- The initial sequence number that a side draws. -/
def Config.isn (cfg : Config) (x : Side) : UInt32 := (cfg.env x).rand

/-- A freshly `malloc`ed segment is read with null links, on both sides. -/
def Config.FreshNull (cfg : Config) : Prop :=
  ∀ x p, ((cfg.env x).freshSegment p).prev = none ∧ ((cfg.env x).freshSegment p).next = none

/-- The socket that `cmu_socket` makes. -/
def Config.createdSocket (cfg : Config) (x : Side) : CmuSocket where
  type := x.socketType
  myPort := (cfg.env x).myPort
  conn := (cfg.env x).conn
  recvBuf := recvBufferCreate (cfg.recvCapacity x) (cfg.env x).recvMem (cfg.env x).freshSegment
  sendBuf := { sendBufferCreate (cfg.sendCapacity x) (cfg.env x).sendMem with
    lastByteAckedTs := (cfg.env x).now
    lastByteAckedSeqnum := cfg.isn x
    lastByteAckedIndex := 0
    lastByteSentIndex := 0
    nextByteWrittenIndex := 1 }
  dying := false
  window := ⟨0, cfg.isn x, cp1WindowSize⟩
  state := .closed
  initialized := false

theorem cmuSocket_eq (cfg : Config) (x : Side) :
    cmuSocket x.socketType (cfg.recvCapacity x) (cfg.sendCapacity x) (cfg.env x) =
      .ok (cfg.createdSocket x) := rfl

/-- Two sockets just created, whose backend threads have not run yet. -/
def Config.created (cfg : Config) : Sys where
  ep x := ⟨cfg.createdSocket x, .entry, [], [], [], [], [], false⟩
  addr := cfg.addr
  net _ := []

/-- The receive buffer after `recv_buffer_initialize` with the peer's sequence number. -/
def Config.initializedRecvBuf (cfg : Config) (x : Side) : RecvBuffer :=
  { (cfg.createdSocket x).recvBuf with
    lastByteReadSeqnum := cfg.isn x.other
    lastByteReadIndex := 0
    nextByteExpectedIndex := 1 }

theorem recvBufferInitialize_eq (cfg : Config) (x : Side) :
    recvBufferInitialize (cfg.createdSocket x).recvBuf (cfg.isn x.other) =
      .ok (cfg.initializedRecvBuf x) := rfl

/-- A socket right after the handshake. -/
def Config.establishedSocket (cfg : Config) (x : Side) : CmuSocket :=
  { cfg.createdSocket x with
    conn := cfg.addr x.other
    recvBuf := cfg.initializedRecvBuf x
    window := ⟨cfg.isn x.other + 1, cfg.isn x + 1, cp1WindowSize⟩
    state := .established
    initialized := true }

/-- Two endpoints right after the handshake, with nothing in flight. -/
def Config.established (cfg : Config) : Sys where
  ep x := ⟨cfg.establishedSocket x, .loopTop, [], [], [], [cfg.isn x.other],
    -- the server has handled the ACK of its SYN-ACK
    match x with
    | .client => []
    | .server => [cfg.isn .server + 1], false⟩
  addr := cfg.addr
  net _ := []

/-- The system that starts in `s`. -/
def systemFrom (s : Sys) : FaultSystem.System Sys Label Fault where
  init := fun t => t = s
  step := Sys.step

/-! ## Small connections, for concrete runs -/

/-- Two sides with rings of `capacity` cells and the sequence numbers `100` and `500`. -/
def smallConfig (capacity : UInt32) : Config where
  env
    | .client => .zeroed 100
    | .server => .zeroed 500
  sendCapacity _ := capacity
  recvCapacity _ := capacity
  addr _ := ⟨0, 0⟩

/-- An iteration of the backend loop that finds no packet. -/
def silentIteration (x : Side) (beyond : ℕ → UInt8) : List Label :=
  [.backend x 0 beyond, .backend x 0 beyond, .backend x 0 beyond, .backend x 0 beyond]

/-- An iteration of the backend loop that receives the `i`-th packet in flight. -/
def receivingIteration (x : Side) (i : ℕ) : List Label :=
  [.backend x 0 (fun _ => 0), .backend x 0 (fun _ => 0), .receive x 0 i,
    .backend x 0 (fun _ => 0)]

/-! ## One endpoint on its own

An endpoint without its peer: whatever packet arrives, with whatever header and body and
from whatever address, may come from anywhere.  The steps are those of the two-endpoint
system, taken by one side. -/

/-- What can happen to an endpoint. -/
inductive Event where
  | backend (now : Int) (beyond : ℕ → UInt8)
  | receive (now : Int) (source : SockAddr) (pkt : Packet)
  | writeCall (data : List UInt8)
  | write
  | read (length : Int) (flags : CmuReadMode)
  | close

/-- The endpoint after the event, and the packets that it sends. -/
def Endpoint.act (e : Endpoint) : Event → Option (Except Fault (Endpoint × List Packet))
  | .backend now beyond => backendSilent e now beyond
  | .receive now source pkt => backendReceive e now source pkt
  | .writeCall data => (appWriteCall e data).map fun e => .ok (e, [])
  | .write => (appWrite e).map fun r => r.map fun e => (e, [])
  | .read length flags => (appRead e length flags).map fun r => r.map fun e => (e, [])
  | .close => (appClose e).map fun e => .ok (e, [])

/-- The endpoint of the side `x` right after the handshake, and every event. -/
def loneSystem (cfg : Config) (x : Side) : FaultSystem.System Endpoint Event Fault where
  init e := e = cfg.established.ep x
  step e ev := (e.act ev).map fun r => r.map Prod.fst

/-! ## An endpoint and its clock

The same endpoint with a clock that does not run backwards, and a record of the data
packets that it has transmitted: when, and by which of the two functions. -/

/-- The packet has the byte with the sequence number `q` in its payload. -/
def Packet.Covers (p : Packet) (q : UInt32) : Prop :=
  (q - p.header.seqNum).toNat < (getPayloadLen p).toNat

instance (p : Packet) : DecidablePred p.Covers :=
  fun _ => inferInstanceAs (Decidable (_ < _))

/-- A data packet put on the network by `resend_unacknowledged`, or by `multiple_send`. -/
structure Transmission where
  time : Int
  resent : Bool
  packet : Packet

/-- What `get_time_ms` returns in the step, if the step looks at the clock. -/
def Event.time : Event → Option Int
  | .backend now _ => some now
  | .receive now _ _ => some now
  | _ => none

structure TimedEndpoint where
  ep : Endpoint
  clock : Int
  sent : List Transmission

/-- What a step that sends `packets` transmits; the replies of `handle_message` have no
    payload. -/
def Endpoint.transmissions (e : Endpoint) (packets : List Packet) : Event → List Transmission
  | .backend now _ =>
    if e.pc = .transmit then packets.map fun p => ⟨now, resendDue e.sock now, p⟩ else []
  | _ => []

/-- The clock shows what the step reads, or stands still. -/
def TimedEndpoint.step (s : TimedEndpoint) (ev : Event) : Option (Except Fault TimedEndpoint) :=
  if ∀ now ∈ ev.time, s.clock ≤ now then
    (s.ep.act ev).map fun r => r.map fun r => {
      ep := r.1
      clock := ev.time.getD s.clock
      sent := s.sent ++ s.ep.transmissions r.2 ev }
  else none

/-- The endpoint of the side `x` right after the handshake, before any data. -/
def timedSystem (cfg : Config) (x : Side) : FaultSystem.System TimedEndpoint Event Fault where
  init s := s = ⟨cfg.established.ep x, (cfg.env x).now, []⟩
  step := TimedEndpoint.step

end CmuTcp
