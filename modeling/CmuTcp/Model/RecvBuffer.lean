import CmuTcp.Library.LinkedHeap
import CmuTcp.Model.SendBuffer

/-!
# The Receive Buffer

The functions of `recv_buffer.c`: a ring of `capacity` cells, the index of the last byte
read and of the next byte expected, and a doubly linked list of the segments received
out of order.  The `segment_t` nodes live in a heap that belongs to the buffer; what
`malloc` leaves in a new node is a parameter of the heap.

The segment functions return no result when they would touch memory that is not a live
node; `recvBufferReceive` turns that into a memory fault.
-/

namespace CmuTcp

open LinkedHeap (Ptr Node Heap)

/-! ## Segments -/

/-- The two data fields of `segment_t`; its links are those of the heap's nodes. -/
structure SegmentRange where
  startSeqnumInclusive : UInt32
  endSeqnumInclusive : UInt32
  deriving DecidableEq, Repr

abbrev Segment := Node SegmentRange

abbrev SegmentHeap := Heap SegmentRange

/-- `segment_disconnect` -/
def segmentDisconnect (h : SegmentHeap) (seg : Ptr) : Option SegmentHeap := do
  let s ← h.load seg
  let h ← h.modifyPtr s.prev fun n => { n with next := s.next }
  h.modifyPtr s.next fun n => { n with prev := s.prev }

/-- The loop of the clean-up in `segment_merge`:
    `while (left_end != right_end) { free(left_end->prev); left_end = left_end->next; }` -/
def freeUpTo (rightEnd : Ptr) : ℕ → SegmentHeap → Option Ptr → Option SegmentHeap
  | 0, _, _ => none
  | fuel + 1, h, leftEnd =>
    if leftEnd = some rightEnd then some h
    else do
      let p ← leftEnd
      let s ← h.load p
      let h ← h.freePtr s.prev
      let s ← h.load p
      freeUpTo rightEnd fuel h s.next

/-- The clean-up of `left_end, ..., right_end` in `segment_merge`. -/
def freeSwallowed (h : SegmentHeap) (leftEnd rightEnd : Ptr) : Option SegmentHeap :=
  if leftEnd = rightEnd then
    h.free leftEnd
  else do
    let s ← h.load leftEnd
    let h ← freeUpTo rightEnd (h.size + 1) h s.next
    let r ← h.load rightEnd
    let h ← h.freePtr r.prev
    h.free rightEnd

/-- `segment_merge`: the address of the merged segment, and the heap.  Both scans are
    given as much fuel as there are addresses, which a list without cycles never uses up. -/
def segmentMerge (h : SegmentHeap) (start «end» : Option Ptr) (segStartSeq segEndSeq : UInt32) :
    Option (Ptr × SegmentHeap) := do
  let leftEnd ← LinkedHeap.walkNext h
    (fun s => decide (s.val.endSeqnumInclusive < segStartSeq)) (h.size + 1) start
  let rightEnd ← LinkedHeap.walkPrev h
    (fun s => decide (s.val.startSeqnumInclusive > segEndSeq)) (h.size + 1) «end»
  let (seg, h) := h.malloc
  match leftEnd, rightEnd with
  | none, _ =>
    -- no segment ends at or after the new one starts: place it right-most
    let h ← h.modify seg fun s => { s with val := ⟨segStartSeq, segEndSeq⟩ }
    let h ← h.modify seg fun s => { s with prev := «end» }
    let e ← «end»
    let h ← h.modify e fun s => { s with next := some seg }
    return (seg, h)
  | some _, none =>
    -- no segment starts at or before the new one ends: place it left-most
    let h ← h.modify seg fun s => { s with val := ⟨segStartSeq, segEndSeq⟩ }
    let h ← h.modify seg fun s => { s with next := start }
    let b ← start
    let h ← h.modify b fun s => { s with prev := some seg }
    return (seg, h)
  | some leftEnd, some rightEnd =>
    let r ← h.load rightEnd
    if r.next = some leftEnd then
      -- it lies between `right_end` and `left_end`
      let h ← h.modify seg fun s => { s with val := ⟨segStartSeq, segEndSeq⟩ }
      let h ← h.modify seg fun s => { s with next := some leftEnd }
      let h ← h.modify leftEnd fun s => { s with prev := some seg }
      let h ← h.modify seg fun s => { s with prev := some rightEnd }
      let h ← h.modify rightEnd fun s => { s with next := some seg }
      return (seg, h)
    else
      -- it meets the segments from `left_end` to `right_end`: replace them by the hull
      let l ← h.load leftEnd
      let h ← h.modify seg fun s => { s with
        val := ⟨min l.val.startSeqnumInclusive segStartSeq,
          max r.val.endSeqnumInclusive segEndSeq⟩ }
      let h ← h.modify seg fun s => { s with next := r.next }
      let h ← h.modifyPtr r.next fun s => { s with prev := some seg }
      let h ← h.modify seg fun s => { s with prev := l.prev }
      let h ← h.modifyPtr l.prev fun s => { s with next := some seg }
      let h ← freeSwallowed h leftEnd rightEnd
      return (seg, h)

/-- The loop of `segment_clean`:
    `while (start != end) { start = start->next; free(start->prev); }` -/
def cleanUpTo («end» : Ptr) : ℕ → SegmentHeap → Ptr → Option SegmentHeap
  | 0, _, _ => none
  | fuel + 1, h, start =>
    if start = «end» then some h
    else do
      let s ← h.load start
      let start ← s.next
      let s ← h.load start
      let h ← h.freePtr s.prev
      cleanUpTo «end» fuel h start

/-- `segment_clean` -/
def segmentClean (h : SegmentHeap) (start «end» : Option Ptr) : Option SegmentHeap :=
  match start, «end» with
  | none, _ => some h
  | some _, none => some h
  | some start, some «end» =>
    if start = «end» then
      h.free start
    else do
      let h ← cleanUpTo «end» (h.size + 1) h start
      -- the loop has left `start` at `end`
      h.free «end»

/-! ## Seqnum and index -/

/-- `recv_buffer_t`, with the heap of its segments -/
structure RecvBuffer where
  capacity : UInt32
  lastByteReadSeqnum : UInt32
  lastByteReadIndex : UInt32
  nextByteExpectedIndex : UInt32
  buffer : List UInt8
  start : Option Ptr
  «end» : Option Ptr
  heap : SegmentHeap

/-- `seqnum_to_index_recv` -/
def seqnumToIndexRecv (rb : RecvBuffer) (seqnum : UInt32) : Except Fault UInt32 := do
  cAssert (seqnum ≥ rb.lastByteReadSeqnum) .seqnumToIndexRecv
  return (rb.lastByteReadIndex + (seqnum - rb.lastByteReadSeqnum)) % rb.capacity

/-- `get_next_byte_expected_seqnum` -/
def getNextByteExpectedSeqnum (rb : RecvBuffer) : UInt32 :=
  if rb.nextByteExpectedIndex > rb.lastByteReadIndex then
    -- no wrap-around
    rb.nextByteExpectedIndex - rb.lastByteReadIndex + rb.lastByteReadSeqnum
  else
    rb.capacity - 1 - rb.lastByteReadIndex + (rb.nextByteExpectedIndex + 1)
      + rb.lastByteReadSeqnum

/-! ## Memcpy -/

/-- `safe_memcpy_to_recvbuf` -/
def safeMemcpyToRecvbuf (rb : RecvBuffer) (startIndex len : UInt32) (data : List UInt8) :
    Except Fault (List UInt8) :=
  if startIndex + len - 1 ≤ rb.capacity - 1 then
    memcpyTo rb.buffer startIndex data 0 len
  else do
    let tailLen := rb.capacity - startIndex
    let buffer ← memcpyTo rb.buffer startIndex data 0 tailLen
    memcpyTo buffer 0 data tailLen (len - tailLen)

/-- `memcpy(data, src + from, len)` into fresh memory: a fault if it leaves `src`. -/
def memcpyFrom (src : List UInt8) (srcOff len : UInt32) : Except Fault (List UInt8) :=
  if srcOff.toNat + len.toNat ≤ src.length then
    .ok (CircularBuffer.slice src srcOff.toNat len.toNat)
  else
    .error .memory

/-- `safe_memcpy_from_recvbuf`: the bytes copied to the application's buffer, which is
    at least `len` bytes long. -/
def safeMemcpyFromRecvbuf (rb : RecvBuffer) (len : UInt32) : Except Fault (List UInt8) := do
  let endSeq := rb.lastByteReadSeqnum + len
  let endIndex ← seqnumToIndexRecv rb endSeq
  if endIndex > rb.lastByteReadIndex then
    memcpyFrom rb.buffer (rb.lastByteReadIndex + 1) len
  else
    let tailLen := rb.capacity - 1 - rb.lastByteReadIndex
    let tail ← memcpyFrom rb.buffer (rb.lastByteReadIndex + 1) tailLen
    let rest ← memcpyFrom rb.buffer 0 (len - tailLen)
    return tail ++ rest

/-! ## Interface -/

/-- `recv_buffer_create`; the fields it does not set keep what `malloc` left there. -/
def recvBufferCreate (capacity : UInt32) (mem : Garbage) (fresh : Ptr → Segment) :
    RecvBuffer where
  capacity := capacity
  lastByteReadSeqnum := 0
  lastByteReadIndex := mem.word 0
  nextByteExpectedIndex := mem.word 1
  buffer := (List.range capacity.toNat).map mem.byte
  start := none
  «end» := none
  heap := Heap.empty fresh

/-- `recv_buffer_initialize` -/
def recvBufferInitialize (rb : RecvBuffer) (otherIsn : UInt32) : Except Fault RecvBuffer := do
  cAssert (rb.lastByteReadSeqnum = 0) .recvBufferInitialize
  return { rb with
    lastByteReadSeqnum := otherIsn
    lastByteReadIndex := 0
    nextByteExpectedIndex := 1 }

/-- `recv_buffer_max_read` -/
def recvBufferMaxRead (rb : RecvBuffer) : UInt32 :=
  getNextByteExpectedSeqnum rb - rb.lastByteReadSeqnum - 1

/-- `recv_buffer_max_receive` -/
def recvBufferMaxReceive (rb : RecvBuffer) : UInt32 :=
  let bufSize := getNextByteExpectedSeqnum rb - rb.lastByteReadSeqnum
  rb.capacity - bufSize

/-- `recv_buffer_read`: the bytes read and the buffer left behind -/
def recvBufferRead (rb : RecvBuffer) (len : UInt32) :
    Except Fault (List UInt8 × RecvBuffer) := do
  cAssert (len ≤ recvBufferMaxRead rb) .recvBufferRead
  if len = 0 then
    return ([], rb)
  else
    let data ← safeMemcpyFromRecvbuf rb len
    return (data, { rb with
      lastByteReadSeqnum := rb.lastByteReadSeqnum + len
      lastByteReadIndex := (rb.lastByteReadIndex + len) % rb.capacity })

/-- `recv_buffer_can_receive` -/
def recvBufferCanReceive (rb : RecvBuffer) (seqnum len : UInt32) : UInt8 :=
  if seqnum ≤ rb.lastByteReadSeqnum then 2
  else
    let lastSeq := seqnum + len - 1
    let nextByteExpectedSeqnum := getNextByteExpectedSeqnum rb
    if lastSeq < nextByteExpectedSeqnum then 3
    else if lastSeq - rb.lastByteReadSeqnum ≥ rb.capacity then 1
    else 0

/-- The guard of `recv_buffer_receive`: the segment starts after the last byte read, ends at or
    after the next byte expected, and fits into the ring. -/
theorem recvBufferCanReceive_eq_zero_iff {rb : RecvBuffer} {seqnum len : UInt32} :
    recvBufferCanReceive rb seqnum len = 0 ↔ rb.lastByteReadSeqnum < seqnum ∧
      getNextByteExpectedSeqnum rb ≤ seqnum + len - 1 ∧
      seqnum + len - 1 - rb.lastByteReadSeqnum < rb.capacity := by
  unfold recvBufferCanReceive
  by_cases hlow : seqnum ≤ rb.lastByteReadSeqnum
  · rw [if_pos hlow]
    exact iff_of_false (by decide) fun h => UInt32.not_le.mpr h.1 hlow
  · rw [if_neg hlow]
    dsimp only
    by_cases hold : seqnum + len - 1 < getNextByteExpectedSeqnum rb
    · rw [if_pos hold]
      exact iff_of_false (by decide) fun h => UInt32.not_lt.mpr h.2.1 hold
    · rw [if_neg hold]
      by_cases hlong : seqnum + len - 1 - rb.lastByteReadSeqnum ≥ rb.capacity
      · rw [if_pos hlong]
        exact iff_of_false (by decide) fun h => UInt32.not_le.mpr h.2.2 hlong
      · rw [if_neg hlong]
        exact iff_of_true rfl
          ⟨UInt32.not_le.mp hlow, UInt32.not_lt.mp hold, UInt32.not_le.mp hlong⟩

/-- A memory fault for a heap computation without a result. -/
def orMemoryFault {α : Type} : Option α → Except Fault α
  | some a => .ok a
  | none => .error .memory

/-- The part of `recv_buffer_receive` that follows `segment_merge`: hand the merged
    segment over to the in-order data, or hook it into the list. -/
def settleMerged (rb : RecvBuffer) (nextExpectedSeq : UInt32) (seg : Ptr) :
    Except Fault RecvBuffer := do
  let s ← orMemoryFault (rb.heap.load seg)
  if s.val.startSeqnumInclusive ≤ nextExpectedSeq then
    -- the merged block continues the in-order data
    let index ← seqnumToIndexRecv rb (s.val.endSeqnumInclusive + 1)
    let start := if s.prev = none then s.next else rb.start
    let «end» := if s.next = none then s.prev else rb.end
    let heap ← orMemoryFault (segmentDisconnect rb.heap seg)
    let heap ← orMemoryFault (heap.free seg)
    return { rb with
      nextByteExpectedIndex := index, start := start, «end» := «end», heap := heap }
  else
    let start := if s.prev = none then some seg else rb.start
    let «end» := if s.next = none then some seg else rb.end
    return { rb with start := start, «end» := «end» }

/-- `recv_buffer_receive`; `data` is what lies at the payload pointer. -/
def recvBufferReceive (rb : RecvBuffer) (seqnum len : UInt32) (data : List UInt8) :
    Except Fault RecvBuffer := do
  cAssert (recvBufferCanReceive rb seqnum len = 0) .recvBufferReceive
  let nextExpectedSeq := getNextByteExpectedSeqnum rb
  match rb.start with
  | none =>
    if seqnum ≤ nextExpectedSeq then
      -- in-order data, no out-of-order segments
      let startIndex ← seqnumToIndexRecv rb seqnum
      let buffer ← safeMemcpyToRecvbuf rb startIndex len data
      let index ← seqnumToIndexRecv rb (seqnum + len)
      return { rb with buffer := buffer, nextByteExpectedIndex := index }
    else
      -- the first gap: `prev` and `next` of the new segment are not set
      let startIndex ← seqnumToIndexRecv rb seqnum
      let buffer ← safeMemcpyToRecvbuf rb startIndex len data
      let (seg, heap) := rb.heap.malloc
      let heap ← orMemoryFault (heap.modify seg fun s =>
        { s with val := ⟨seqnum, seqnum + len - 1⟩ })
      return { rb with buffer := buffer, start := some seg, «end» := some seg, heap := heap }
  | some _ =>
    -- out-of-order segments exist, whether or not the data is in order
    let (seg, heap) ← orMemoryFault
      (segmentMerge rb.heap rb.start rb.end seqnum (seqnum + len - 1))
    let rb ← settleMerged { rb with heap := heap } nextExpectedSeq seg
    let startIndex ← seqnumToIndexRecv rb seqnum
    let buffer ← safeMemcpyToRecvbuf rb startIndex len data
    return { rb with buffer := buffer }

/-- `recv_buffer_clean`, as far as the segments go: the ring and the buffer itself are freed
    as a whole, and no address in them is used again. -/
def recvBufferClean (rb : RecvBuffer) : Except Fault SegmentHeap :=
  orMemoryFault (segmentClean rb.heap rb.start rb.end)

end CmuTcp
