import CmuTcp.Model.RecvBuffer

/-!
# Sockets

The socket of `cmu_tcp.h` and the application's side of it in `cmu_tcp.c`: creation,
one critical section of `cmu_read`, and one iteration of the loop of `cmu_write`.

The mutexes are not part of the model: what a thread does while it holds a lock is one
step.  Neither are the fields that no modelled function reads (the file descriptor, the
thread id, the condition variable, `last_send_ms`).
-/

namespace CmuTcp

open LinkedHeap (Ptr)

/-- `cmu_socket_type_t` -/
inductive CmuSocketType where
  | tcpInitiator
  | tcpListener
  deriving DecidableEq, Repr

/-- `cmu_socket_state_t` -/
inductive CmuSocketState where
  | closed
  | listen
  | synRcvd
  | synSent
  | established
  | finWait1
  | finWait2
  | closing
  | timeWait
  | closeWait
  | lastAck
  deriving DecidableEq, Repr

/-- `window_t` -/
structure WindowT where
  nextSeqExpected : UInt32
  lastAckReceived : UInt32
  rcvdAdvertisedWindow : UInt16
  deriving DecidableEq, Repr

/-- The address and port of a `sockaddr_in`, in host byte order. -/
structure SockAddr where
  sinAddr : UInt32
  sinPort : UInt16
  deriving DecidableEq, Repr

/-- `cmu_socket_t` -/
structure CmuSocket where
  type : CmuSocketType
  myPort : UInt16
  conn : SockAddr
  recvBuf : RecvBuffer
  sendBuf : SendBuffer
  dying : Bool
  window : WindowT
  state : CmuSocketState
  initialized : Bool

/-- `cmu_read_mode_t` -/
inductive CmuReadMode where
  | noFlag
  | noWait
  | timeout
  deriving DecidableEq, Repr

/-- What the outside world supplies to a socket that is being created: the random
    number, the clock, the ports and the peer's address, and the memory `malloc` returns. -/
structure SocketEnv where
  rand : UInt32
  now : Int
  myPort : UInt16
  conn : SockAddr
  recvMem : Garbage
  sendMem : Garbage
  freshSegment : Ptr → Segment

/-- An environment for concrete runs: all memory is zero and the clock stands at `0`. -/
def SocketEnv.zeroed (isn : UInt32) : SocketEnv where
  rand := isn
  now := 0
  myPort := 0
  conn := ⟨0, 0⟩
  recvMem := ⟨fun _ => 0, fun _ => 0⟩
  sendMem := ⟨fun _ => 0, fun _ => 0⟩
  freshSegment _ := ⟨⟨0, 0⟩, none, none⟩

/-- `cmu_socket`; both capacities are `DEFAULT_BUFF_SIZE` in the source, and the calls to
    the operating system are assumed to succeed. -/
def cmuSocket (type : CmuSocketType) (recvCapacity sendCapacity : UInt32) (env : SocketEnv) :
    Except Fault CmuSocket := do
  let window : WindowT := {
    lastAckReceived := env.rand
    nextSeqExpected := 0
    rcvdAdvertisedWindow := cp1WindowSize }
  let recvBuf := recvBufferCreate recvCapacity env.recvMem env.freshSegment
  let sendBuf ← sendBufferInitialize (sendBufferCreate sendCapacity env.sendMem)
    window.lastAckReceived env.now
  return {
    type := type, myPort := env.myPort, conn := env.conn
    recvBuf := recvBuf, sendBuf := sendBuf, dying := false
    window := window, state := .closed, initialized := false }

/-- The part of `cmu_read` that takes what is available, up to `length` bytes. -/
def cmuReadAvailable (sock : CmuSocket) (length : Int) :
    Except Fault (Int × List UInt8 × CmuSocket) := do
  let maxRead := recvBufferMaxRead sock.recvBuf
  if maxRead > 0 then
    let readLen : UInt32 :=
      if maxRead > length.toNat.toUInt32 then length.toNat.toUInt32 else maxRead
    let (data, recvBuf) ← recvBufferRead sock.recvBuf readLen
    return (readLen.toNat, data, { sock with recvBuf := recvBuf })
  else
    return (0, [], sock)

/-- `cmu_read` once it holds `recv_lock` and, in the blocking mode, has been woken up
    with data available: the returned count and the bytes put into `buf`. -/
def cmuRead (sock : CmuSocket) (length : Int) (flags : CmuReadMode) :
    Except Fault (Int × List UInt8 × CmuSocket) :=
  if length < 0 then
    return (-1, [], sock)
  else
    match flags with
    | .timeout => return (-1, [], sock)
    | _ => cmuReadAvailable sock length

/-- One iteration of the loop of `cmu_write` on the `length` bytes of `buf` that are not
    written yet: what remains after it. -/
def cmuWriteIteration (sock : CmuSocket) (buf : List UInt8) :
    Except Fault (List UInt8 × CmuSocket) := do
  let length := buf.length.toUInt32
  let maxWrite := sendBufferMaxWrite sock.sendBuf
  let writeLen := if length > maxWrite then maxWrite else length
  if writeLen > 0 then
    let sendBuf ← sendBufferWrite sock.sendBuf buf writeLen
    return (buf.drop writeLen.toNat, { sock with sendBuf := sendBuf })
  else
    return (buf, sock)

end CmuTcp
