import Mathlib.Data.Fintype.Basic
import CmuTcp.Model.Network

/-!
# Threads and Locks

An established socket as its threads see it: the backend thread, and the threads of an
application that may call `cmu_write` and `cmu_read` at the same time.  A step takes a
mutex, or is what a thread does until it gives the mutex back, or what it does between two
mutexes; so other threads run between the critical sections of `handle_message`, and
between a packet and the window of its answer.

`multiple_send` and `resend_unacknowledged` read the receive buffer without `recv_lock`.
What they see while a thread of the application holds it is not defined, and is an input of
the step; the last section takes such a call load by load.

A copy out of the send ring that the backend thread does not survive ends the process, with
every thread in it.

`cmu_close` frees the buffers when it has joined the backend thread, and nothing in the code
keeps the other threads of the application from using them then.  The frees are left out:
the theorems are about runs in which a socket is closed last (`ThreadedSys.ClosesLast`), where
no thread can tell.
-/

namespace CmuTcp

/-! ## States -/

/-- The mutexes of a socket. -/
inductive Mutex where
  | deathLock
  | sendLock
  | recvLock
  deriving DecidableEq, Repr

/-- The threads of a socket; `T` are those of the application. -/
inductive Thread (T : Type) where
  | backend
  | app (t : T)
  deriving DecidableEq, Repr

/-- Where the backend thread is in the loop of `begin_backend`. -/
inductive LoopPc where
  | loopTop
  -- `death` has been read, the exit test is next
  | exitTest (death : Bool)
  | checkData
  -- in `handle_message`, before `send_buffer_update_ack`
  | updateAck (pkt : Packet)
  -- in `handle_message`, before `recv_buffer_can_receive`
  | receiveData (pkt : Packet)
  -- in `handle_message`, before `adv_window` of the answer is computed
  | answer
  | transmit
  | alert
  -- `recv_lock` has been given back
  | signal (availableToRead : UInt32)
  | exited
  -- in `send_buffer_dump`, where the process has died
  | crashed
  deriving DecidableEq, Repr

/-- Where a thread of the application is. -/
inductive AppPc where
  | idle
  -- in the loop of `cmu_write`, with what is left to write
  | writing (buf : List UInt8)
  | reading (length : Int) (flags : CmuReadMode)
  | closing
  | joining
  deriving DecidableEq, Repr

/-- A socket and its threads.  The record of the past is what each thread has passed to
    `cmu_write`, what has been written into the ring and by whom, what has been read and by
    whom, and whether a copy out of the send ring has ever been out of bounds. -/
structure Threads (T : Type) where
  sock : CmuSocket
  pc : LoopPc
  app : T → AppPc
  holder : Mutex → Option (Thread T)
  -- the threads that sleep on `wait_cond`
  waiters : List T
  -- `cmu_close` has been called
  closed : Bool
  passed : T → List UInt8
  written : List (T × UInt8)
  read : List (T × UInt8)
  strayed : Bool

/-! ## Mutexes and the condition variable -/

/-- The mutex that the backend thread takes next, or has taken. -/
def LoopPc.wants : LoopPc → Option Mutex
  | .loopTop => some .deathLock
  | .exitTest _ => some .sendLock
  | .updateAck _ => some .sendLock
  | .receiveData _ => some .recvLock
  | .answer => some .recvLock
  | .transmit => some .sendLock
  | .alert => some .recvLock
  | .crashed => some .sendLock
  | .checkData => none
  | .signal _ => none
  | .exited => none

def AppPc.wants : AppPc → Option Mutex
  | .writing (_ :: _) => some .sendLock
  | .reading length _ => if length < 0 then none else some .recvLock
  | .closing => some .deathLock
  | _ => none

section Locks

variable {T : Type} [DecidableEq T]

/-- The mutex that a thread takes next; one that sleeps takes none. -/
def Threads.wants (h : Threads T) : Thread T → Option Mutex
  | .backend => h.pc.wants
  | .app t => if t ∈ h.waiters then none else (h.app t).wants

/-- `pthread_mutex_lock` -/
def Threads.lock (h : Threads T) (th : Thread T) : Option (Threads T) :=
  match h.wants th with
  | some m =>
    if h.holder m = none then some { h with holder := Function.update h.holder m (some th) }
    else none
  | none => none

/-- `pthread_mutex_unlock` -/
def Threads.unlock (h : Threads T) (m : Mutex) : Threads T :=
  { h with holder := Function.update h.holder m none }

/-- `pthread_cond_signal`, which wakes the `i`-th of the threads that sleep, if any do. -/
def Threads.signal (h : Threads T) (i : ℕ) : Option (Threads T) :=
  match h.waiters with
  | [] => some h
  | _ :: _ =>
    if i < h.waiters.length then some { h with waiters := h.waiters.eraseIdx i } else none

/-! ## The backend thread -/

/-- `handle_message` from the update of the advertised window to its next mutex. -/
def takeWindow (sock : CmuSocket) (pkt : Packet) : CmuSocket × LoopPc :=
  ({ sock with
    window := { sock.window with rcvdAdvertisedWindow := pkt.header.advertisedWindow } },
    if getPayloadLen pkt ≠ 0 then .receiveData pkt else .transmit)

/-- `handle_message` up to its first mutex. -/
def handleArrival (sock : CmuSocket) (pkt : Packet) : Except Fault (CmuSocket × LoopPc) := do
  cAssert (pkt.hasFlag ackFlagMask) .handleMessageAck
  cAssert (!pkt.hasFlag synFlagMask) .handleMessageSyn
  if pkt.hasFlag finFlagMask then
    return (sock, .transmit)
  else if pkt.header.ackNum = sock.window.lastAckReceived then
    -- duplicate ACK
    return takeWindow sock pkt
  else
    return ({ sock with
      window := { sock.window with
        lastAckReceived := cMax sock.window.lastAckReceived pkt.header.ackNum } },
      .updateAck pkt)

/-- What a read of the receive buffer without `recv_lock` sees. -/
def Threads.sees (h : Threads T) : Option RecvBuffer → Option RecvBuffer
  | none => some h.sock.recvBuf
  | some torn =>
    match h.holder .recvLock with
    | some (.app _) => some torn
    | _ => none

/-- The backend thread from the mutex that it holds, or from the last one that it held, to
    the next. -/
def Threads.proceed (h : Threads T) (now : Int) (beyond : ℕ → UInt8) (torn : Option RecvBuffer)
    (i : ℕ) : Option (Except Fault (Threads T × List Packet)) :=
  match h.pc with
  | .loopTop => some (.ok ({ h with pc := .exitTest h.sock.dying }.unlock .deathLock, []))
  | .exitTest death =>
    some (.ok ({ h with
      pc := if exitTest h.sock death then .exited else .checkData }.unlock .sendLock, []))
  | .checkData => some (.ok ({ h with pc := .transmit }, []))
  | .updateAck pkt => some do
    let sendBuf ← sendBufferUpdateAck h.sock.sendBuf pkt.header.ackNum now
    let (sock, pc) := takeWindow { h.sock with sendBuf := sendBuf } pkt
    return ({ h with sock := sock, pc := pc }.unlock .sendLock, [])
  | .receiveData pkt =>
    let len := (getPayloadLen pkt).toUInt32
    let woken :=
      if recvBufferCanReceive h.sock.recvBuf pkt.header.seqNum len = 0 then h.signal i
      else some h
    woken.map fun h => do
      let recvBuf ← receivePayload h.sock.recvBuf pkt.header.seqNum len (getPayload pkt)
      let sock := { h.sock with
        recvBuf := recvBuf
        window := { h.sock.window with nextSeqExpected := getNextByteExpectedSeqnum recvBuf } }
      return ({ h with sock := sock, pc := .answer }.unlock .recvLock, [])
  | .answer =>
    let advWindow := (recvBufferMaxReceive h.sock.recvBuf).toUInt16
    let packet := createPacket h.sock.myPort h.sock.conn.sinPort h.sock.window.lastAckReceived
      h.sock.window.nextSeqExpected headerLen headerLen ackFlagMask advWindow [] 0
    some (.ok ({ h with pc := .transmit }.unlock .recvLock, packet.toList))
  | .transmit =>
    (h.sees torn).map fun recvBuf => do
      let sent ← transmit { h.sock with recvBuf := recvBuf } now beyond
      let h := { h with
        sock := { h.sock with sendBuf := sent.sendBuf }
        strayed := h.strayed || !sent.inBounds }
      if sent.fault = none then
        return ({ h with pc := .alert }.unlock .sendLock, sent.packets)
      else
        return ({ h with pc := .crashed }, sent.packets)
  | .alert =>
    some (.ok ({ h with pc := .signal (recvBufferMaxRead h.sock.recvBuf) }.unlock .recvLock, []))
  | .signal availableToRead =>
    (if availableToRead > 0 then h.signal i else some h).map fun h =>
      .ok ({ h with pc := .loopTop }, [])
  | .exited | .crashed => none

/-- A step of the backend thread, which holds the mutex that it wants. -/
def Threads.backend (h : Threads T) (now : Int) (beyond : ℕ → UInt8) (torn : Option RecvBuffer)
    (i : ℕ) : Option (Except Fault (Threads T × List Packet)) :=
  if ∀ m ∈ h.pc.wants, h.holder m = some .backend then h.proceed now beyond torn i else none

/-- `check_for_data` reads the packet `pkt`. -/
def Threads.receive (h : Threads T) (source : SockAddr) (pkt : Packet) :
    Option (Except Fault (Threads T)) :=
  match h.pc with
  | .checkData => some do
    let (sock, pc) ← handleArrival (h.sock.heardFrom source) pkt
    return { h with sock := sock, pc := pc }
  | _ => none

/-! ## The threads of the application -/

/-- A thread of the application goes on to `pc`. -/
def Threads.goto (h : Threads T) (t : T) (pc : AppPc) : Threads T :=
  { h with app := Function.update h.app t pc }

/-- A call of `cmu_write`. -/
def Threads.writeCall (h : Threads T) (t : T) (data : List UInt8) : Option (Threads T) :=
  if h.app t = .idle ∧ data.length < 2 ^ 31 then
    some ({ h with passed := Function.update h.passed t (h.passed t ++ data) }.goto t
      (.writing data))
  else none

/-- A call of `cmu_read`. -/
def Threads.readCall (h : Threads T) (t : T) (length : Int) (flags : CmuReadMode) :
    Option (Threads T) :=
  if h.app t = .idle then some (h.goto t (.reading length flags)) else none

/-- A call of `cmu_close`. -/
def Threads.closeCall (h : Threads T) (t : T) : Option (Threads T) :=
  if h.app t = .idle then some ({ h with closed := true }.goto t .closing) else none

/-- A thread of the application from the mutex that it holds to the next, or to the end of
    its call. -/
def Threads.appStep (h : Threads T) (t : T) : Option (Except Fault (Threads T)) :=
  match h.app t with
  | .idle => none
  | .writing [] => some (.ok (h.goto t .idle))
  | .writing buf =>
    if h.holder .sendLock = some (.app t) then some do
      let (rest, sock) ← cmuWriteIteration h.sock buf
      let data := buf.take (buf.length - rest.length)
      return ({ h with
        sock := sock
        written := h.written ++ data.map (t, ·) }.goto t (.writing rest)).unlock .sendLock
    else none
  | .reading length flags =>
    if length < 0 then some (.ok (h.goto t .idle))
    else if h.holder .recvLock = some (.app t) then
      if flags = .noFlag ∧ recvBufferMaxRead h.sock.recvBuf = 0 then
        -- `pthread_cond_wait` gives the mutex back; the loop takes it again
        some (.ok ({ h with waiters := h.waiters ++ [t] }.unlock .recvLock))
      else some do
        let (_, data, sock) ← cmuRead h.sock length flags
        return ({ h with
          sock := sock
          read := h.read ++ data.map (t, ·) }.goto t .idle).unlock .recvLock
    else none
  | .closing =>
    if h.holder .deathLock = some (.app t) then
      some (.ok (({ h with sock := { h.sock with dying := true } }.goto t .joining).unlock
        .deathLock))
    else none
  | .joining =>
    -- `pthread_join`
    if h.pc = .exited then some (.ok (h.goto t .idle)) else none

end Locks

/-! ## Two sockets and a network -/

/-- Both sockets with their threads, their addresses, and the packets on their way to each
    side. -/
structure ThreadedSys (T : Type) where
  host : Side → Threads T
  addr : Side → SockAddr
  net : Side → List Packet

inductive ThreadLabel (T : Type) where
  | lock (x : Side) (th : Thread T)
  | backend (x : Side) (now : Int) (beyond : ℕ → UInt8) (torn : Option RecvBuffer) (i : ℕ)
  -- the backend thread receives the `i`-th of the packets in flight
  | receive (x : Side) (i : ℕ)
  | writeCall (x : Side) (t : T) (data : List UInt8)
  | readCall (x : Side) (t : T) (length : Int) (flags : CmuReadMode)
  | closeCall (x : Side) (t : T)
  | app (x : Side) (t : T)
  -- a thread wakes up without a signal
  | wakeUp (x : Side) (i : ℕ)
  | lose (x : Side) (i : ℕ)
  | duplicate (x : Side) (i : ℕ)

section System

variable {T : Type} [DecidableEq T]

/-- The process whose step it is; the network takes the other steps. -/
def ThreadLabel.process : ThreadLabel T → Option Side
  | .lock x _ => some x
  | .backend x _ _ _ _ => some x
  | .receive x _ => some x
  | .writeCall x _ _ => some x
  | .readCall x _ _ _ => some x
  | .closeCall x _ => some x
  | .app x _ => some x
  | .wakeUp x _ => some x
  | .lose _ _ => none
  | .duplicate _ _ => none

/-- Put a socket back and send its packets to the other side. -/
def ThreadedSys.put (s : ThreadedSys T) (x : Side) (h : Threads T) (packets : List Packet) :
    ThreadedSys T :=
  { s with
    host := Function.update s.host x h
    net := Function.update s.net x.other (s.net x.other ++ packets) }

/-- Take the `i`-th packet out of those in flight to `x`. -/
def ThreadedSys.takePacket (s : ThreadedSys T) (x : Side) (i : ℕ) : ThreadedSys T :=
  { s with net := Function.update s.net x ((s.net x).eraseIdx i) }

/-- A step of the network, or of a process that has not died. -/
def ThreadedSys.act (s : ThreadedSys T) :
    ThreadLabel T → Option (Except Fault (ThreadedSys T))
  | .lock x th => ((s.host x).lock th).map fun h => .ok (s.put x h [])
  | .backend x now beyond torn i =>
    ((s.host x).backend now beyond torn i).map fun r => r.map fun (h, packets) =>
      s.put x h packets
  | .receive x i =>
    match (s.net x)[i]? with
    | some pkt =>
      ((s.host x).receive (s.addr x.other) pkt).map fun r => r.map fun h =>
        (s.takePacket x i).put x h []
    | none => none
  | .writeCall x t data => ((s.host x).writeCall t data).map fun h => .ok (s.put x h [])
  | .readCall x t length flags =>
    ((s.host x).readCall t length flags).map fun h => .ok (s.put x h [])
  | .closeCall x t => ((s.host x).closeCall t).map fun h => .ok (s.put x h [])
  | .app x t => ((s.host x).appStep t).map fun r => r.map fun h => s.put x h []
  | .wakeUp x i =>
    if i < (s.host x).waiters.length then
      some (.ok (s.put x { s.host x with waiters := (s.host x).waiters.eraseIdx i } []))
    else none
  | .lose x i => if i < (s.net x).length then some (.ok (s.takePacket x i)) else none
  | .duplicate x i =>
    match (s.net x)[i]? with
    | some pkt => some (.ok { s with net := Function.update s.net x (s.net x ++ [pkt]) })
    | none => none

def ThreadedSys.step (s : ThreadedSys T) (l : ThreadLabel T) :
    Option (Except Fault (ThreadedSys T)) :=
  if ∃ x ∈ l.process, (s.host x).pc = .crashed then none else s.act l

/-- An application closes its socket while no other call is in progress, and does not use it
    any more. -/
def ThreadedSys.ClosesLast (s : ThreadedSys T) : ThreadLabel T → Prop
  | .writeCall x _ _ => (s.host x).closed = false
  | .readCall x _ _ _ => (s.host x).closed = false
  | .closeCall x _ => (s.host x).closed = false ∧ ∀ u, (s.host x).app u = .idle
  | _ => True

instance [Fintype T] (s : ThreadedSys T) : DecidablePred s.ClosesLast
  | .writeCall _ _ _ => inferInstanceAs (Decidable (_ = _))
  | .readCall _ _ _ _ => inferInstanceAs (Decidable (_ = _))
  | .closeCall _ _ => inferInstanceAs (Decidable (_ ∧ _))
  | .lock _ _ | .backend _ _ _ _ _ | .receive _ _ | .app _ _ | .wakeUp _ _ | .lose _ _
  | .duplicate _ _ => inferInstanceAs (Decidable True)

/-- Two sockets right after the handshake, with nothing in flight and no call in progress. -/
def Config.establishedThreads (cfg : Config) : ThreadedSys T where
  host x := ⟨cfg.establishedSocket x, .loopTop, fun _ => .idle, fun _ => none, [], false,
    fun _ => [], [], [], false⟩
  addr := cfg.addr
  net _ := []

/-- The system of threads that starts in `s`. -/
def threadsFrom (s : ThreadedSys T) : FaultSystem.System (ThreadedSys T) (ThreadLabel T) Fault where
  init := fun t => t = s
  step := ThreadedSys.step

end System

/-! ## The window without the lock

A call of `recv_buffer_max_receive` by the backend thread, which does not hold `recv_lock`,
while a thread of the application is in `recv_buffer_read`.  A step is one load by the
caller of a field that the reader writes, or one store of the reader.  The other fields are
written by the caller's own thread only, so they stay as they are. -/

/-- Which load of `recv_buffer_max_receive` is next, and what it has computed so far. -/
inductive WindowLoad where
  -- `next_byte_expected_index > last_byte_read_index`
  | compare
  -- the comparison was false (`wraps`) or true; `last_byte_read_index` is subtracted
  | subtract (wraps : Bool)
  -- `last_byte_read_seqnum` is added
  | add (nextByteExpectedSeqnum : UInt32)
  -- `last_byte_read_seqnum` is subtracted
  | minus (nextByteExpectedSeqnum : UInt32)
  | done (maxReceive : UInt32)
  deriving DecidableEq, Repr

/-- The buffer, what `recv_buffer_read` is about to add to `last_byte_read_index`, the call of
    `recv_buffer_max_receive`, and whether its two loads of that index have ever been on
    different laps of the ring. -/
structure UnlockedRun where
  rb : RecvBuffer
  reader : Option UInt32
  window : WindowLoad
  torn : Bool

inductive UnlockedLabel where
  -- `last_byte_read_seqnum += len`
  | storeSeqnum (len : UInt32)
  -- `last_byte_read_index = (last_byte_read_index + len) % capacity`
  | storeIndex
  | load
  deriving DecidableEq, Repr

/-- `recv_buffer_max_receive` up to its next load. -/
def UnlockedRun.load (s : UnlockedRun) : Option UnlockedRun :=
  match s.window with
  | .compare =>
    some { s with
      window := .subtract (!decide (s.rb.nextByteExpectedIndex > s.rb.lastByteReadIndex)) }
  | .subtract wraps =>
    some { s with
      window := .add (if wraps then
          s.rb.capacity - 1 - s.rb.lastByteReadIndex + (s.rb.nextByteExpectedIndex + 1)
        else s.rb.nextByteExpectedIndex - s.rb.lastByteReadIndex)
      torn := wraps && decide (s.rb.nextByteExpectedIndex > s.rb.lastByteReadIndex) }
  | .add next => some { s with window := .minus (next + s.rb.lastByteReadSeqnum) }
  | .minus next =>
    some { s with window := .done (s.rb.capacity - (next - s.rb.lastByteReadSeqnum)) }
  | .done _ => none

/-- A thread that reads holds `recv_lock`, so one read follows another. -/
def UnlockedRun.step (s : UnlockedRun) : UnlockedLabel → Option (Except Fault UnlockedRun)
  | .storeSeqnum len =>
    if s.reader = none ∧ 0 < len ∧ len ≤ recvBufferMaxRead s.rb then
      some (.ok { s with
        rb := { s.rb with lastByteReadSeqnum := s.rb.lastByteReadSeqnum + len }
        reader := some len })
    else none
  | .storeIndex =>
    match s.reader with
    | some len =>
      some (.ok { s with
        rb := { s.rb with
          lastByteReadIndex := (s.rb.lastByteReadIndex + len) % s.rb.capacity }
        reader := none })
    | none => none
  | .load => s.load.map .ok

/-- The call begins while nobody reads. -/
def unlockedFrom (rb : RecvBuffer) : FaultSystem.System UnlockedRun UnlockedLabel Fault where
  init s := s = ⟨rb, none, .compare, false⟩
  step := UnlockedRun.step

end CmuTcp
