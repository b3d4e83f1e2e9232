import CmuTcp.Ring.Malloc

/-!
# Segments That Disagree

Runs of the receive ring on its own, with segments of any bytes: a retransmission need not
carry what the first transmission carried.

1. `last_writer_wins`: every byte that is read or can be read is the one that arrived last
   before it was read, and what has been read cannot be changed any more.
2. `segments_accounted`: the nodes that are alive are those of the out-of-order list, they
   are no more than the free cells of the ring, and `recv_buffer_clean` frees them all.

There is no stream that the segments are cut from.  The invariant has the stream that they
amount to instead: at each position the byte of the newest segment that covers it.  An accepted
segment overlays it, and starts behind what is read, so what is read stays as it was.
-/

namespace CmuTcp

open FaultSystem (System Run)
open CircularBuffer LinkedHeap IntervalList

/-- A receive buffer, the sequence numbers and the bytes of the segments that it has
    accepted, the newest first, and the bytes read out of it. -/
structure RingRun where
  rb : RecvBuffer
  accepted : List (ℕ × List UInt8)
  delivered : List UInt8

def RingRun.step (s : RingRun) : RecvCall → Option (Except Fault RingRun)
  | .receive seqnum len data =>
    if 0 < len.toNat ∧ recvBufferCanReceive s.rb seqnum len = 0 ∧ len.toNat ≤ data.length then
      some do
        let rb ← recvBufferReceive s.rb seqnum len data
        return { s with rb := rb, accepted := (seqnum.toNat, data.take len.toNat) :: s.accepted }
    else none
  | .read len =>
    if len ≤ recvBufferMaxRead s.rb then some do
      let (data, rb) ← recvBufferRead s.rb len
      return { s with rb := rb, delivered := s.delivered ++ data }
    else none

/-- Runs start with a buffer just created and initialized with the peer's ISN. -/
def ringRuns (capacity : UInt32) (mem : Garbage) (fresh : Ptr → Segment) (isn : UInt32) :
    System RingRun RecvCall Fault where
  init s := ∃ rb, recvBufferInitialize (recvBufferCreate capacity mem fresh) isn = .ok rb ∧
    s = ⟨rb, [], []⟩
  step := RingRun.step

/-- The byte that the newest of the segments has at a sequence number. -/
def lastWritten : List (ℕ × List UInt8) → ℕ → Option UInt8
  | [], _ => none
  | (a, bytes) :: older, q =>
    if a ≤ q ∧ q < a + bytes.length then bytes[q - a]? else lastWritten older q

/-- The same by positions. -/
theorem lastWritten_cons (isn a : ℕ) (bytes : List UInt8) (older : List (ℕ × List UInt8)) :
    (fun k => lastWritten ((isn + a, bytes) :: older) (isn + k)) =
      overlay (fun k => lastWritten older (isn + k)) a bytes := by
  funext k
  show (if isn + a ≤ isn + k ∧ isn + k < isn + a + bytes.length then bytes[isn + k - (isn + a)]?
    else lastWritten older (isn + k)) = if _ then _ else _
  by_cases hin : a ≤ k ∧ k < a + bytes.length
  · rw [if_pos hin, if_pos ⟨by omega, by omega⟩]
    congr 1
    omega
  · rw [if_neg hin, if_neg (by omega)]

/-! ## Contents -/

section Contents

variable {rb rb' : RecvBuffer} {isn : ℕ} {r : Reassembly} {S : ℕ → Option UInt8}

/-- What can be read is the in-order part that is not read. -/
theorem RecvBuffer.Holds.readable (h : rb.Holds r S) (href : rb.Refines isn r) :
    (readableBytes rb).length = r.next - r.read - 1 ∧
      IsSlice S (r.read + 1) (readableBytes rb) := by
  have hlt := r.read_lt_next
  have hlength : (readableBytes rb).length = r.next - r.read - 1 := by
    simp only [readableBytes, List.length_map, List.length_range, href.recvBufferMaxRead]
  refine ⟨hlength, fun j hj => ?_⟩
  rw [hlength] at hj
  have hgt : r.read < r.read + 1 + j := by omega
  have hcell := h (r.read + 1 + j) ⟨hgt, Or.inl ⟨by omega, by omega⟩⟩
  have hbound : (r.read + 1 + j) % r.capacity < rb.buffer.length := by
    rw [href.length]
    exact Nat.mod_lt _ href.capacity_pos
  simp only [readableBytes, href.recvBufferMaxRead, href.readIndex, href.capacity,
    List.getElem?_map, List.getElem?_range hj, Option.map_some]
  rw [show r.read % r.capacity + 1 + j = r.read % r.capacity + (1 + j) by omega,
    Nat.mod_add_mod, ← Nat.add_assoc, List.getD_eq_getElem?_getD, ← hcell,
    List.getElem?_eq_getElem hbound, Option.getD_some]

end Contents

/-! ## Runs -/

/-- What has been accepted, by positions. -/
def RingRun.written (s : RingRun) (isn : UInt32) (k : ℕ) : Option UInt8 :=
  lastWritten s.accepted (isn.toNat + k)

structure RingRun.Invariant (isn : UInt32) (s : RingRun) (r : Reassembly) : Prop where
  refines : s.rb.Refines isn.toNat r
  holds : s.rb.Holds r (s.written isn)
  read : s.delivered.length = r.read
  delivered : IsSlice (s.written isn) 1 s.delivered

section Runs

variable {capacity : UInt32} {mem : Garbage} {fresh : Ptr → Segment} {isn : UInt32}
  {s : RingRun} {r : Reassembly}

/-- No step faults, and every step keeps the invariant. -/
theorem RingRun.Invariant.step (h : s.Invariant isn r) {c : RecvCall} (hwrap : c.NoWrap)
    {e : Except Fault RingRun} (hstep : s.step c = some e) :
    ∃ s' r', e = .ok s' ∧ s'.Invariant isn r' := by
  have href := h.refines
  cases c with
  | receive seqnum len data =>
    rw [RingRun.step] at hstep
    -- a segment that passes the checks overwrites the last writers of its positions
    by_cases hguard : 0 < len.toNat ∧ recvBufferCanReceive s.rb seqnum len = 0 ∧
        len.toNat ≤ data.length
    · rw [if_pos hguard] at hstep
      obtain ⟨hpos, hcan, hdata⟩ := hguard
      have hlow := (recvBufferCanReceive_eq_zero_iff.mp hcan).1
      rw [UInt32.lt_iff_toNat_lt, href.readSeqnum] at hlow
      obtain ⟨a, hseq⟩ := Nat.exists_eq_add_of_le (show isn.toNat ≤ seqnum.toNat by omega)
      have hlt : isn.toNat + a + len.toNat < 2 ^ 32 := hseq ▸ hwrap
      have hacc := (href.canReceive_iff hseq hpos (Nat.le_of_lt hlt)).mp hcan
      obtain ⟨rb', hreceive, href', hbuf⟩ := href.recvBufferReceive hseq hpos hlt hacc hdata
      rw [hreceive] at hstep
      refine ⟨_, _, (Option.some.inj hstep).symm, href', ?_, ?_, ?_⟩
      · have hwritten := h.holds.overlay href hacc hdata hbuf
        show rb'.Holds _ fun k => lastWritten ((seqnum.toNat, _) :: s.accepted) (isn.toNat + k)
        rw [hseq, lastWritten_cons]
        exact hwritten
      · rw [Reassembly.accept_read]
        exact h.read
      · -- the segment starts after what is read
        have hread := hacc.read_lt
        show IsSlice (fun k => lastWritten ((seqnum.toNat, _) :: s.accepted) (isn.toNat + k)) 1
          s.delivered
        rw [hseq, lastWritten_cons]
        exact IsSlice.overlay h.delivered (by rw [h.read]; omega)
    · rw [if_neg hguard] at hstep
      cases hstep
  -- `cmu_read` takes what `recv_buffer_max_read` allows
  | read len =>
    rw [RingRun.step] at hstep
    by_cases hlen : len ≤ recvBufferMaxRead s.rb
    · rw [if_pos hlen] at hstep
      rw [UInt32.le_iff_toNat_le, href.recvBufferMaxRead] at hlen
      have hlt := r.read_lt_next
      have hn : r.read + len.toNat < r.next := by omega
      obtain ⟨rb', hread, href', hbuf⟩ := href.recvBufferRead hn
      obtain ⟨hlength, hslice⟩ := h.holds.readWrap href hn
      rw [hread] at hstep
      refine ⟨_, _, (Option.some.inj hstep).symm, href', h.holds.consume hn hbuf, ?_, ?_⟩
      · show (s.delivered ++ _).length = r.read + len.toNat
        rw [List.length_append, h.read, hlength]
      · refine h.delivered.append ?_
        rw [h.read, Nat.add_comm]
        exact hslice
    · rw [if_neg hlen] at hstep
      cases hstep

theorem RingRun.invariant_of_run (hcap : 2 ≤ capacity.toNat)
    (hnull : ∀ p, (fresh p).prev = none ∧ (fresh p).next = none)
    (hisn : isn.toNat + 1 < 2 ^ 32) {tr : List (RingRun × RecvCall)}
    (h : Run (ringRuns capacity mem fresh isn) (fun _ => True) tr s)
    (hwrap : ∀ p ∈ tr, p.2.NoWrap) : ∃ r, s.Invariant isn r := by
  refine h.invariant_of_steps (C := fun _ c => c.NoWrap) (I := fun s => ∃ r, s.Invariant isn r)
    ?_ ?_ hwrap
  · rintro s ⟨rb, hinit, rfl⟩ _
    obtain ⟨rb', hrb', href⟩ := recv_refines_initialize capacity mem fresh isn hcap hnull hisn
    obtain rfl := Except.ok.inj (hinit.symm.trans hrb')
    refine ⟨_, href, ?_, rfl, fun j hj => absurd hj (Nat.not_lt_zero j)⟩
    -- nothing has arrived
    rintro k ⟨hk, ⟨_, hlt⟩ | hcov⟩
    · have hnone : k < 1 := hlt
      have hpos : 0 < k := hk
      omega
    · exact absurd hcov (covers_nil k)
  · rintro s c s' ⟨r, hinv⟩ _ _ hc hstep
    obtain ⟨t, r', ht, hinv'⟩ := hinv.step hc hstep
    obtain rfl := Except.ok.inj ht
    exact ⟨r', hinv'⟩

/-- **The last writer wins**: after any segments, whatever bytes they carry and however they
    overlap, the bytes read so far followed by those that can be read are, at each sequence
    number from the ISN up to the next byte expected, the bytes of the newest accepted
    segment that covers it; and no step faults. -/
theorem last_writer_wins (hcap : 2 ≤ capacity.toNat)
    (hnull : ∀ p, (fresh p).prev = none ∧ (fresh p).next = none)
    (hisn : isn.toNat + 1 < 2 ^ 32) {tr : List (RingRun × RecvCall)}
    (h : Run (ringRuns capacity mem fresh isn) (fun _ => True) tr s)
    (hwrap : ∀ p ∈ tr, p.2.NoWrap) :
    isn.toNat + (s.delivered ++ readableBytes s.rb).length + 1 =
      (getNextByteExpectedSeqnum s.rb).toNat ∧
    (∀ i < (s.delivered ++ readableBytes s.rb).length,
      (s.delivered ++ readableBytes s.rb)[i]? = lastWritten s.accepted (isn.toNat + (1 + i))) ∧
    ∀ c e, c.NoWrap → s.step c = some e → ∃ s', e = .ok s' := by
  obtain ⟨r, hinv⟩ := RingRun.invariant_of_run hcap hnull hisn h hwrap
  obtain ⟨hlength, hslice⟩ := hinv.holds.readable hinv.refines
  have hlt := r.read_lt_next
  refine ⟨?_, ?_, fun c e hc hstep => ?_⟩
  · rw [List.length_append, hlength, hinv.read, hinv.refines.getNextByteExpectedSeqnum]
    omega
  · refine hinv.delivered.append ?_
    rw [hinv.read, Nat.add_comm]
    exact hslice
  · obtain ⟨s', _, hs', _⟩ := hinv.step hc hstep
    exact ⟨s', hs'⟩

/-- Two segments that disagree about a byte. -/
theorem last_writer_wins_disagreeing : ∃ tr s,
    Run (ringRuns 8 (SocketEnv.zeroed 100).recvMem (SocketEnv.zeroed 100).freshSegment 100)
      (fun _ => True) tr s ∧ s.accepted = [(101, [1, 2]), (102, [9])] ∧
    ∀ i < (s.delivered ++ readableBytes s.rb).length,
      (s.delivered ++ readableBytes s.rb)[i]? = lastWritten s.accepted (100 + (1 + i)) := by
  have hinit : Run (ringRuns 8 (SocketEnv.zeroed 100).recvMem (SocketEnv.zeroed 100).freshSegment
      100) (fun _ => True) [] ⟨_, [], []⟩ := .init ⟨_, rfl, rfl⟩ trivial
  have hrun := hinit.exec ([.receive 102 1 [9], .receive 101 2 [1, 2], .read 1] :
    List RecvCall) rfl
  exact ⟨_, _, hrun, rfl, (last_writer_wins (by decide) (fun _ => ⟨rfl, rfl⟩) (by decide) hrun
    (by decide)).2.1⟩

/-! ## Memory -/

/-- **Memory is accounted for**: after any segments and reads the nodes that are alive are as
    many as the out-of-order list has, which are no more than the bytes that could still be
    received, and `recv_buffer_clean` frees them all, each once. -/
theorem segments_accounted (hcap : 2 ≤ capacity.toNat)
    (hnull : ∀ p, (fresh p).prev = none ∧ (fresh p).next = none)
    (hisn : isn.toNat + 1 < 2 ^ 32) {tr : List (RecvBuffer × RecvCall)} {rb : RecvBuffer}
    (h : Run (recvCalls capacity mem fresh isn) (fun _ => True) tr rb)
    (hwrap : ∀ p ∈ tr, p.2.NoWrap) :
    rb.heap.live.length = (segmentList rb).length ∧
    (segmentList rb).length ≤ (recvBufferMaxReceive rb).toNat ∧
    ∃ heap, recvBufferClean rb = .ok heap ∧ heap.live = [] := by
  obtain ⟨r, href, _⟩ := recvCalls_refines hcap hnull hisn h hwrap
  obtain ⟨xs, hrep, hxs⟩ := href.segments
  have hsegments := segmentList_of_represents hrep
  refine ⟨?_, ?_, ?_⟩
  · rw [hrep.live.length_eq, hsegments, ptrs, List.length_map, List.length_map]
  · have hcount : (segmentList rb).length = r.held.length := by
      rw [hsegments, ← hxs, List.length_map, List.length_map]
    rw [hcount, href.recvBufferMaxReceive]
    have hle := r.sorted.length_le r.next_le_held r.held_lt
    have hlt := r.read_lt_next
    have hnext := r.next_le
    omega
  · obtain ⟨heap, hclean, hdead⟩ := recvBufferClean_of_represents hrep
    refine ⟨heap, hclean, List.filter_eq_nil_iff.mpr fun p _ => ?_⟩
    simp [hdead p]

/-- Two gaps, of which one is filled. -/
theorem segments_accounted_gaps : ∃ tr rb,
    Run (recvCalls 8 (SocketEnv.zeroed 100).recvMem (SocketEnv.zeroed 100).freshSegment 100)
      (fun _ => True) tr rb ∧ rb.heap.size = 4 ∧ rb.heap.live.length = 1 ∧
    ∃ heap, recvBufferClean rb = .ok heap ∧ heap.live = [] := by
  obtain ⟨rb, hrb⟩ : ∃ rb, recvBufferInitialize (recvBufferCreate 8 (SocketEnv.zeroed 100).recvMem
      (SocketEnv.zeroed 100).freshSegment) 100 = .ok rb := ⟨_, rfl⟩
  have hinit : Run (recvCalls 8 (SocketEnv.zeroed 100).recvMem
      (SocketEnv.zeroed 100).freshSegment 100) (fun _ => True) [] rb := .init hrb trivial
  obtain rfl := Except.ok.inj hrb
  have hrun := hinit.exec ([.receive 105 1 [5], .receive 103 1 [3], .receive 101 2 [1, 2],
    .receive 102 2 [2, 3]] : List RecvCall) rfl
  exact ⟨_, _, hrun, rfl, rfl, (segments_accounted (by decide) (fun _ => ⟨rfl, rfl⟩) (by decide)
    hrun (by decide)).2.2⟩

end Runs

end CmuTcp
