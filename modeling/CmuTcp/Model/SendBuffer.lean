import CmuTcp.Library.CircularBuffer
import CmuTcp.Library.FaultSystem
import CmuTcp.Model.Packet

/-!
# The Send Buffer

The functions of `send_buffer.c`, on a ring of `capacity` cells and three wrapped
indices: the conversions between indices and sequence numbers, the two functions around
`memcpy`, and the interface that the socket uses.

A copy that would write outside its destination ends in a memory fault: the copies into
the ring, and the copy out of it whose second length `len - tail_len` has wrapped around
in `uint32_t`, which asks for almost four gigabytes.  A copy that only reads past the last
cell is different: `send_buffer_dump` and `resend_unacknowledged` can do that, the program
goes on, and what it then does with its sequence numbers is of interest too.  So such a
copy has a result, a `RingCopy`, in which the bytes read beyond the ring come from the
memory that happens to lie there, and which records whether all its accesses were in
bounds.
-/

namespace CmuTcp

/-- `send_buffer_t` -/
structure SendBuffer where
  capacity : UInt32
  lastByteAckedTs : Int
  lastByteAckedSeqnum : UInt32
  lastByteAckedIndex : UInt32
  lastByteSentIndex : UInt32
  nextByteWrittenIndex : UInt32
  buffer : List UInt8

/-- What `malloc`ed memory holds before it is written: the words of a structure and the
    bytes of a buffer. -/
structure Garbage where
  word : ℕ → UInt32
  byte : ℕ → UInt8

/-! ## Seqnum and index -/

/-- `seqnum_to_index_send` -/
def seqnumToIndexSend (sb : SendBuffer) (seqnum : UInt32) : Except Fault UInt32 := do
  cAssert (seqnum ≥ sb.lastByteAckedSeqnum) .seqnumToIndexSendLow
  cAssert (seqnum < sb.lastByteAckedSeqnum + sb.capacity) .seqnumToIndexSendHigh
  return (sb.lastByteAckedIndex + (seqnum - sb.lastByteAckedSeqnum)) % sb.capacity

/-- `index_to_seqnum_send` -/
def indexToSeqnumSend (sb : SendBuffer) (index : UInt32) : UInt32 :=
  if index ≥ sb.lastByteAckedIndex then
    index - sb.lastByteAckedIndex + sb.lastByteAckedSeqnum
  else
    let tailLen := sb.capacity - 1 - sb.lastByteAckedIndex
    index + 1 + tailLen + sb.lastByteAckedSeqnum

/-- `get_next_byte_written_seqnum` -/
def getNextByteWrittenSeqnum (sb : SendBuffer) : UInt32 :=
  if sb.nextByteWrittenIndex > sb.lastByteAckedIndex then
    sb.nextByteWrittenIndex - sb.lastByteAckedIndex + sb.lastByteAckedSeqnum
  else
    sb.capacity - 1 - sb.lastByteAckedIndex + (sb.nextByteWrittenIndex + 1)
      + sb.lastByteAckedSeqnum

/-- `get_last_byte_sent_seqnum` -/
def getLastByteSentSeqnum (sb : SendBuffer) : UInt32 :=
  if sb.lastByteSentIndex ≥ sb.lastByteAckedIndex then
    sb.lastByteSentIndex - sb.lastByteAckedIndex + sb.lastByteAckedSeqnum
  else
    sb.capacity - 1 - sb.lastByteAckedIndex + (sb.lastByteSentIndex + 1)
      + sb.lastByteAckedSeqnum

/-! ## Memcpy -/

/-- `memcpy(dst + at, src + from, len)` into a buffer: a fault if it leaves either. -/
def memcpyTo (dst : List UInt8) (dstOff : UInt32) (src : List UInt8) (srcOff len : UInt32) :
    Except Fault (List UInt8) :=
  if dstOff.toNat + len.toNat ≤ dst.length ∧ srcOff.toNat + len.toNat ≤ src.length then
    .ok (CircularBuffer.overwrite dst dstOff.toNat
      (CircularBuffer.slice src srcOff.toNat len.toNat))
  else
    .error .memory

/-- `safe_memcpy_to_sendbuf` -/
def safeMemcpyToSendbuf (sb : SendBuffer) (len : UInt32) (data : List UInt8) :
    Except Fault (List UInt8) :=
  let startIndex := sb.nextByteWrittenIndex
  if startIndex + len - 1 ≤ sb.capacity - 1 then
    memcpyTo sb.buffer startIndex data 0 len
  else do
    let tailLen := sb.capacity - startIndex
    let buffer ← memcpyTo sb.buffer startIndex data 0 tailLen
    memcpyTo buffer 0 data tailLen (len - tailLen)

/-- The result of copying `len` bytes out of the send ring: the bytes the destination
    then holds, and whether the copy read ring cells only and stayed inside the
    destination. -/
structure RingCopy where
  bytes : List UInt8
  inBounds : Bool

/-- The byte at `buffer + i`; `beyond` is the memory that follows the ring. -/
def SendBuffer.byteAt (sb : SendBuffer) (beyond : ℕ → UInt8) (i : ℕ) : UInt8 :=
  sb.buffer.getD i (beyond i)

/-- `memcpy(data, buffer + start, len)` into a destination of `len` bytes. -/
def SendBuffer.copyOut (sb : SendBuffer) (beyond : ℕ → UInt8) (start len : UInt32) : RingCopy where
  bytes := (List.range len.toNat).map fun i => sb.byteAt beyond (start.toNat + i)
  inBounds := start.toNat + len.toNat ≤ sb.buffer.length

/-- `safe_memcpy_from_sendbuf`, with a destination of `len` bytes.  The two copies of the
    wrap branch write `tail_len` and then `len - tail_len` bytes, in `uint32_t`
    arithmetic: a fault unless `tail_len <= len`. -/
def safeMemcpyFromSendbuf (sb : SendBuffer) (beyond : ℕ → UInt8) (startIndex len : UInt32) :
    Except Fault RingCopy :=
  let endIndex := startIndex + len - 1
  if endIndex > sb.lastByteAckedIndex then
    .ok (sb.copyOut beyond startIndex len)
  else
    let tailLen := sb.capacity - startIndex
    if tailLen ≤ len then
      let tail := sb.copyOut beyond startIndex tailLen
      let head := sb.copyOut beyond 0 (len - tailLen)
      .ok ⟨tail.bytes ++ head.bytes, tail.inBounds && head.inBounds⟩
    else
      .error .memory

/-! ## Interface -/

/-- `send_buffer_create`; the fields it does not set keep what `malloc` left there. -/
def sendBufferCreate (capacity : UInt32) (mem : Garbage) : SendBuffer where
  capacity := capacity
  lastByteAckedTs := (mem.word 0).toNat
  lastByteAckedSeqnum := 0
  lastByteAckedIndex := mem.word 1
  lastByteSentIndex := mem.word 2
  nextByteWrittenIndex := mem.word 3
  buffer := (List.range capacity.toNat).map mem.byte

/-- `send_buffer_initialize`; `now` is what `get_time_ms` returns. -/
def sendBufferInitialize (sb : SendBuffer) (isn : UInt32) (now : Int) :
    Except Fault SendBuffer := do
  cAssert (sb.lastByteAckedSeqnum = 0) .sendBufferInitialize
  return { sb with
    lastByteAckedTs := now
    lastByteAckedSeqnum := isn
    lastByteAckedIndex := 0
    lastByteSentIndex := 0
    nextByteWrittenIndex := 1 }

/-- `send_buffer_max_write` -/
def sendBufferMaxWrite (sb : SendBuffer) : UInt32 :=
  let bufSize := getNextByteWrittenSeqnum sb - sb.lastByteAckedSeqnum
  sb.capacity - bufSize

/-- `send_buffer_max_new_dump` -/
def sendBufferMaxNewDump (sb : SendBuffer) : UInt32 :=
  getNextByteWrittenSeqnum sb - getLastByteSentSeqnum sb - 1

/-- `send_buffer_write` -/
def sendBufferWrite (sb : SendBuffer) (buf : List UInt8) (len : UInt32) :
    Except Fault SendBuffer := do
  cAssert (len ≤ sendBufferMaxWrite sb) .sendBufferWrite
  if len = 0 then
    return sb
  else
    let buffer ← safeMemcpyToSendbuf sb len buf
    return { sb with
      buffer := buffer
      nextByteWrittenIndex := (sb.nextByteWrittenIndex + len) % sb.capacity }

/-- The index update of `send_buffer_dump`. -/
def dumpIndex (sb : SendBuffer) (startIndex len : UInt32) : SendBuffer :=
  let endIndex := (startIndex + len - 1) % sb.capacity
  let tempLastByteSentSeqnum := indexToSeqnumSend sb endIndex
  let originalLastByteSentSeqnum := getLastByteSentSeqnum sb
  if tempLastByteSentSeqnum ≥ originalLastByteSentSeqnum then
    { sb with lastByteSentIndex := endIndex }
  else sb

/-- `send_buffer_dump`, with a destination of `len` bytes -/
def sendBufferDump (sb : SendBuffer) (beyond : ℕ → UInt8) (startIndex len : UInt32) :
    Except Fault (SendBuffer × RingCopy) :=
  if len = 0 then return (sb, ⟨[], true⟩)
  else do
    let data ← safeMemcpyFromSendbuf sb beyond startIndex len
    return (dumpIndex sb startIndex len, data)

/-- `send_buffer_update_ack`; `now` is what `get_time_ms` returns. -/
def sendBufferUpdateAck (sb : SendBuffer) (hdrAck : UInt32) (now : Int) :
    Except Fault SendBuffer := do
  let hdrAck := hdrAck - 1
  if hdrAck > sb.lastByteAckedSeqnum then
    let idx ← seqnumToIndexSend sb hdrAck
    return { sb with
      lastByteAckedSeqnum := hdrAck
      lastByteAckedIndex := idx
      lastByteAckedTs := now }
  else
    return sb

/-- A new ack moves the buffer to `ack - 1`, if it passes the asserts; any other does nothing. -/
theorem sendBufferUpdateAck_eq_ok {sb sb' : SendBuffer} {hdrAck : UInt32} {now : Int}
    (h : sendBufferUpdateAck sb hdrAck now = .ok sb') :
    (sb.lastByteAckedSeqnum < hdrAck - 1 ∧ ∃ idx, seqnumToIndexSend sb (hdrAck - 1) = .ok idx ∧
      sb' = { sb with lastByteAckedSeqnum := hdrAck - 1, lastByteAckedIndex := idx,
                      lastByteAckedTs := now }) ∨
      hdrAck - 1 ≤ sb.lastByteAckedSeqnum ∧ sb' = sb := by
  unfold sendBufferUpdateAck at h
  dsimp only at h
  split at h
  · rename_i hnew
    obtain ⟨idx, hidx, hret⟩ := FaultSystem.ok_of_bind_ok h
    exact Or.inl ⟨hnew, idx, hidx, (Except.ok.inj hret).symm⟩
  · rename_i hold
    exact Or.inr ⟨UInt32.not_lt.mp hold, (Except.ok.inj h).symm⟩

/-- `get_unacknowledged_count` -/
def getUnacknowledgedCount (sb : SendBuffer) : UInt32 :=
  getLastByteSentSeqnum sb - sb.lastByteAckedSeqnum

end CmuTcp
