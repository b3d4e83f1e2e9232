import CmuTcp.Spec.Reassembly
import CmuTcp.Ring.Send
import CmuTcp.Ring.Merge
import CmuTcp.Model.Backend

/-!
# The Receive Ring Refines a Reassembly

`RecvBuffer.Refines rb isn r` relates the wrapped indices and the segment list of a
receive buffer to the positions that have arrived.  Under it the guard of
`recv_buffer_receive` decides whether a segment is accepted, and the operations of the
interface are those of the reassembly.

The refinement says nothing about the bytes in the ring; the specifications below give
them as explicit writes and reads, for the results on contents to build on.

1. The numbers that are computed from the indices are the counters they stand for.
2. The guard answers by the positions of the segment, and admits what is to be accepted.
3. `recv_buffer_receive` in two steps: `segment_merge` puts a node with the merged interval
   into the list, and what follows hands it over or leaves it (`settleMerged_positions`).
   The first gap needs no merge, and in-order data with an empty list no list at all.
4. Reads, and the contents of the cells (`RecvBuffer.Holds`).
-/

namespace CmuTcp

open CircularBuffer IntervalList LinkedHeap

/-- The copy into the receive ring is the one into the send ring. -/
theorem safeMemcpyToRecvbuf_eq {rb : RecvBuffer} {startIndex len : UInt32}
    {data : List UInt8} (hbuf : rb.buffer.length = rb.capacity.toNat)
    (hstart : startIndex.toNat < rb.capacity.toNat)
    (hpos : 0 < len.toNat) (hlen : len.toNat ≤ rb.capacity.toNat)
    (hdata : len.toNat ≤ data.length) (hnowrap : startIndex.toNat + len.toNat < 2 ^ 32) :
    safeMemcpyToRecvbuf rb startIndex len data =
      .ok (overwriteWrap rb.buffer startIndex.toNat (data.take len.toNat)) :=
  memcpyWrap_eq hbuf hstart hpos hlen hdata hnowrap

/-- The positions of a segment in the stream that starts after `isn`. -/
def SegmentRange.positions (isn : ℕ) (v : SegmentRange) : ℕ × ℕ :=
  (v.startSeqnumInclusive.toNat - isn, v.endSeqnumInclusive.toNat - isn)

/-- The receive buffer `rb` has the positions `r` of the stream that starts after `isn`,
    and no sequence number up to one past the last of them overflows. -/
structure RecvBuffer.Refines (rb : RecvBuffer) (isn : ℕ) (r : Reassembly) : Prop where
  capacity : rb.capacity.toNat = r.capacity
  readSeqnum : rb.lastByteReadSeqnum.toNat = isn + r.read
  readIndex : rb.lastByteReadIndex.toNat = r.read % r.capacity
  nextIndex : rb.nextByteExpectedIndex.toNat = r.next % r.capacity
  length : rb.buffer.length = r.capacity
  null : ∀ p, (rb.heap.fresh p).prev = none ∧ (rb.heap.fresh p).next = none
  segments : ∃ xs, Represents rb.heap rb.start rb.end xs ∧
    xs.map (fun x => x.2.positions isn) = r.held
  noWrap : ∃ m, isn + m + 1 < 2 ^ 32 ∧ r.Within m

namespace RecvBuffer.Refines

variable {rb : RecvBuffer} {isn : ℕ} {r : Reassembly}

theorem capacity_pos (_h : rb.Refines isn r) : 0 < r.capacity := by
  have := r.read_lt_next
  have := r.next_le
  omega

theorem next_lt (h : rb.Refines isn r) : isn + r.next < 2 ^ 32 := by
  obtain ⟨m, hm, hwithin⟩ := h.noWrap
  have := hwithin.next
  omega

/-! ## Sequence numbers from indices -/

theorem getNextByteExpectedSeqnum (h : rb.Refines isn r) :
    (getNextByteExpectedSeqnum rb).toNat = isn + r.next := by
  have hnext := h.next_lt
  have hlt := r.read_lt_next
  have hle := r.next_le
  have hmod : r.read % r.capacity < r.capacity := Nat.mod_lt _ h.capacity_pos
  have hcap : r.capacity < 2 ^ 32 := h.capacity ▸ rb.capacity.toNat_lt
  have hdist := forward_distance_pos hlt hle
  unfold CmuTcp.getNextByteExpectedSeqnum
  have hidx : rb.nextByteExpectedIndex > rb.lastByteReadIndex ↔
      r.read % r.capacity < r.next % r.capacity := by
    rw [gt_iff_lt, UInt32.lt_iff_toNat_lt, h.readIndex, h.nextIndex]
  split
  · rename_i hgt
    rw [if_pos (hidx.mp hgt)] at hdist
    rw [UInt32.toNat_add, UInt32.toNat_sub, h.readSeqnum, h.readIndex, h.nextIndex]
    omega
  · rename_i hgt
    rw [if_neg (fun hlt' => hgt (hidx.mpr hlt'))] at hdist
    simp only [UInt32.toNat_add, UInt32.toNat_sub, UInt32.toNat_one, h.readSeqnum, h.readIndex,
      h.nextIndex, h.capacity]
    omega

theorem recvBufferMaxRead (h : rb.Refines isn r) :
    (recvBufferMaxRead rb).toNat = r.next - r.read - 1 := by
  have hnext := h.next_lt
  have hlt := r.read_lt_next
  unfold CmuTcp.recvBufferMaxRead
  simp only [UInt32.toNat_sub, UInt32.toNat_one, h.getNextByteExpectedSeqnum, h.readSeqnum]
  omega

theorem recvBufferMaxReceive (h : rb.Refines isn r) :
    (recvBufferMaxReceive rb).toNat = r.read + r.capacity - r.next := by
  have hnext := h.next_lt
  have hlt := r.read_lt_next
  have hle := r.next_le
  have hcap : r.capacity < 2 ^ 32 := h.capacity ▸ rb.capacity.toNat_lt
  unfold CmuTcp.recvBufferMaxReceive
  simp only [UInt32.toNat_sub, h.getNextByteExpectedSeqnum, h.readSeqnum, h.capacity]
  omega

/-- The cell that `seqnum_to_index_recv` computes; its assert holds for what is not read. -/
theorem seqnumToIndexRecv (h : rb.Refines isn r) {q : UInt32} {k : ℕ}
    (hq : q.toNat = isn + k) (hlo : r.read ≤ k) :
    ∃ idx, seqnumToIndexRecv rb q = .ok idx ∧ idx.toNat = k % r.capacity := by
  have hlt := q.toNat_lt
  have hmod : r.read % r.capacity ≤ r.read := Nat.mod_le _ _
  refine ⟨(rb.lastByteReadIndex + (q - rb.lastByteReadSeqnum)) % rb.capacity, ?_, ?_⟩
  · unfold CmuTcp.seqnumToIndexRecv
    rw [cAssert_of (ge_iff_le.mpr (UInt32.le_iff_toNat_le.mpr
      (by rw [hq, h.readSeqnum]; omega)))]
    rfl
  · rw [UInt32.toNat_mod, UInt32.toNat_add, UInt32.toNat_sub, h.readIndex, h.readSeqnum,
      h.capacity, hq,
      show (r.read % r.capacity + (2 ^ 32 - (isn + r.read) + (isn + k)) % 2 ^ 32) % 2 ^ 32
        = r.read % r.capacity + (k - r.read) by omega,
      Nat.mod_add_mod, Nat.add_sub_cancel' hlo]

/-! ## The guard -/

/-- The answers of `recv_buffer_can_receive` for a nonempty segment. -/
theorem recvBufferCanReceive (h : rb.Refines isn r) {seqnum len : UInt32} {a : ℕ}
    (hseq : seqnum.toNat = isn + a) (hpos : 0 < len.toNat)
    (hlt : isn + a + len.toNat ≤ 2 ^ 32) :
    recvBufferCanReceive rb seqnum len =
      if a ≤ r.read then 2
      else if a + len.toNat - 1 < r.next then 3
      else if r.read + r.capacity ≤ a + len.toNat - 1 then 1
      else 0 := by
  have hread := r.read_lt_next
  have hlast : (seqnum + len - 1).toNat = isn + (a + len.toNat - 1) := by
    rw [UInt32.toNat_sub, UInt32.toNat_add, UInt32.toNat_one, hseq]
    omega
  have hlow : seqnum ≤ rb.lastByteReadSeqnum ↔ a ≤ r.read := by
    rw [UInt32.le_iff_toNat_le, hseq, h.readSeqnum]
    omega
  have hold : seqnum + len - 1 < CmuTcp.getNextByteExpectedSeqnum rb ↔
      a + len.toNat - 1 < r.next := by
    rw [UInt32.lt_iff_toNat_lt, hlast, h.getNextByteExpectedSeqnum]
    omega
  unfold CmuTcp.recvBufferCanReceive
  by_cases h2 : a ≤ r.read
  · rw [if_pos (hlow.mpr h2), if_pos h2]
  · rw [if_neg (fun hl => h2 (hlow.mp hl)), if_neg h2]
    -- the segment ends after what is read, so the difference does not wrap
    have hlong : seqnum + len - 1 - rb.lastByteReadSeqnum ≥ rb.capacity ↔
        r.read + r.capacity ≤ a + len.toNat - 1 := by
      rw [ge_iff_le, UInt32.le_iff_toNat_le, UInt32.toNat_sub, hlast, h.readSeqnum, h.capacity]
      omega
    exact if_congr hold rfl (if_congr hlong rfl rfl)

/-- The guard of `recv_buffer_receive` holds exactly for the segments to be accepted. -/
theorem canReceive_iff (h : rb.Refines isn r) {seqnum len : UInt32} {a : ℕ}
    (hseq : seqnum.toNat = isn + a) (hpos : 0 < len.toNat)
    (hlt : isn + a + len.toNat ≤ 2 ^ 32) :
    CmuTcp.recvBufferCanReceive rb seqnum len = 0 ↔ r.Accepts a (a + len.toNat - 1) := by
  rw [h.recvBufferCanReceive hseq hpos hlt]
  constructor
  · intro h0
    split at h0
    · exact absurd h0 (by decide)
    · split at h0
      · exact absurd h0 (by decide)
      · split at h0
        · exact absurd h0 (by decide)
        · exact ⟨by omega, by omega, by omega, by omega⟩
  · intro hacc
    have h1 := hacc.read_lt
    have h2 := hacc.next_le
    have h3 := hacc.lt
    rw [if_neg (by omega), if_neg (by omega), if_neg (by omega)]

/-! ## Receiving -/

/-- The copy of an accepted segment into the ring, made with the indices of `rb`. -/
theorem copy_segment (h : rb.Refines isn r) {seqnum len : UInt32} {a : ℕ} {data : List UInt8}
    (hseq : seqnum.toNat = isn + a) (hpos : 0 < len.toNat)
    (hlt : isn + a + len.toNat < 2 ^ 32) (hacc : r.Accepts a (a + len.toNat - 1))
    (hdata : len.toNat ≤ data.length) :
    ∃ idx, CmuTcp.seqnumToIndexRecv rb seqnum = .ok idx ∧
      safeMemcpyToRecvbuf rb idx len data =
        .ok (overwriteWrap rb.buffer (a % r.capacity) (data.take len.toNat)) := by
  obtain ⟨idx, hidx, hidx'⟩ := h.seqnumToIndexRecv hseq (Nat.le_of_lt hacc.read_lt)
  have hle : a % r.capacity ≤ a := Nat.mod_le _ _
  have hread := hacc.read_lt
  have hend := hacc.lt
  refine ⟨idx, hidx, ?_⟩
  rw [← hidx']
  refine safeMemcpyToRecvbuf_eq (h.length.trans h.capacity.symm) ?_ hpos ?_ hdata ?_
  · rw [hidx', h.capacity]
    exact Nat.mod_lt _ h.capacity_pos
  · rw [h.capacity]
    omega
  · omega

theorem length_copy (h : rb.Refines isn r) {a n : ℕ} {data : List UInt8}
    (hacc : r.Accepts a (a + n - 1)) :
    (overwriteWrap rb.buffer (a % r.capacity) (data.take n)).length = r.capacity := by
  have hread := hacc.read_lt
  have hend := hacc.lt
  have hmod : a % r.capacity < r.capacity := Nat.mod_lt _ h.capacity_pos
  rw [length_overwriteWrap (by rw [h.length]; omega)
    (by rw [h.length, List.length_take]; omega), h.length]

end RecvBuffer.Refines

/-! ### The merged range -/

theorem toNat_min (a b : UInt32) : (min a b).toNat = min a.toNat b.toNat := by
  change (if a ≤ b then a else b).toNat = _
  split
  · rename_i h
    rw [UInt32.le_iff_toNat_le] at h
    omega
  · rename_i h
    rw [UInt32.le_iff_toNat_le] at h
    omega

theorem toNat_max (a b : UInt32) : (max a b).toNat = max a.toNat b.toNat := by
  change (if a ≤ b then b else a).toNat = _
  split
  · rename_i h
    rw [UInt32.le_iff_toNat_le] at h
    omega
  · rename_i h
    rw [UInt32.le_iff_toNat_le] at h
    omega

/-- In terms of positions, `mergedRange` is the hull. -/
theorem positions_mergedRange {isn a b : ℕ} {segStart segEnd : UInt32}
    (xs : List SegmentRange) (hstart : segStart.toNat = isn + a) (hend : segEnd.toNat = isn + b)
    (hpos : ∀ v ∈ xs, isn < v.startSeqnumInclusive.toNat ∧ isn < v.endSeqnumInclusive.toNat)
    (hsorted : Sorted (xs.map (SegmentRange.positions isn))) :
    (mergedRange segStart segEnd xs).positions isn =
      hull a b (xs.map (SegmentRange.positions isn)) ∧
    isn ≤ (mergedRange segStart segEnd xs).startSeqnumInclusive.toNat ∧
    isn ≤ (mergedRange segStart segEnd xs).endSeqnumInclusive.toNat := by
  cases xs with
  -- no segment is met: the range is that of the new one
  | nil =>
    rw [mergedRange_nil]
    refine ⟨Prod.ext ?_ ?_, ?_, ?_⟩
    · simp only [SegmentRange.positions, hstart, List.map_nil, hull_nil]
      omega
    · simp only [SegmentRange.positions, hend, List.map_nil, hull_nil]
      omega
    · simp only [hstart, Nat.le_add_right]
    · simp only [hend, Nat.le_add_right]
  -- the hull is from the first of the segments met to the last
  | cons v vs =>
    obtain ⟨ws, w, hw⟩ := (List.eq_nil_or_concat (v :: vs)).resolve_left (by simp)
    rw [List.concat_eq_append] at hw
    have hv := hpos v (by simp)
    have hw' := hpos w (by rw [hw]; simp)
    have hstart' : (mergedRange segStart segEnd (v :: vs)).startSeqnumInclusive.toNat =
        min v.startSeqnumInclusive.toNat (isn + a) := by
      simp only [mergedRange, List.head?_cons, Option.map_some, Option.getD_some, toNat_min,
        hstart]
    have hend' : (mergedRange segStart segEnd (v :: vs)).endSeqnumInclusive.toNat =
        max w.endSeqnumInclusive.toNat (isn + b) := by
      simp only [mergedRange, hw, List.getLast?_append, List.getLast?_singleton, Option.some_or,
        Option.map_some, Option.getD_some, toNat_max, hend]
    -- the list is sorted, so the first and the last of them give the ends
    have hfst := (show Sorted (v.positions isn :: vs.map (SegmentRange.positions isn)) from
      hsorted).hull_fst a b
    have hsnd : (hull a b ((v :: vs).map (SegmentRange.positions isn))).2 =
        max (w.positions isn).2 b := by
      rw [hw, List.map_append] at hsorted ⊢
      exact hsorted.hull_snd a b
    refine ⟨Prod.ext ?_ ?_, by omega, by omega⟩
    · rw [List.map_cons, hfst]
      simp only [SegmentRange.positions, hstart']
      omega
    · rw [hsnd]
      simp only [SegmentRange.positions, hend']
      omega

/-! ### After the merge -/

/-- What `settleMerged` does when the list is `L ++ M ++ R` and `segment_merge` has put
    the node `seg` with the range `v` in place of `M`: the node is handed over and freed, or
    it stays in the list. -/
theorem settleMerged_eq {rb : RecvBuffer} (nextExpectedSeq : UInt32) {idx : UInt32}
    {L M R : List (Ptr × SegmentRange)} {h₀ h' : SegmentHeap} {seg : Ptr} {v : SegmentRange}
    (hold : Linked h₀ rb.start rb.end (L ++ (M ++ R)))
    (hr : Linked h' (headPtr (L ++ (seg, v) :: R) none) (lastPtr none (L ++ (seg, v) :: R))
      (L ++ (seg, v) :: R))
    (hidx : v.startSeqnumInclusive ≤ nextExpectedSeq →
      seqnumToIndexRecv rb (v.endSeqnumInclusive + 1) = .ok idx) :
    (v.startSeqnumInclusive ≤ nextExpectedSeq ∧ ∃ heap,
      settleMerged { rb with heap := h' } nextExpectedSeq seg = .ok { rb with
        nextByteExpectedIndex := idx, start := headPtr (L ++ R) none
        «end» := lastPtr none (L ++ R), heap := heap } ∧
      heap.fresh = h'.fresh ∧ heap.size = h'.size ∧
      Linked heap (headPtr (L ++ R) none) (lastPtr none (L ++ R)) (L ++ R) ∧
      ∀ p ∉ ptrs (L ++ R), heap.load p = if p = seg then none else h'.load p) ∨
    (nextExpectedSeq < v.startSeqnumInclusive ∧
      settleMerged { rb with heap := h' } nextExpectedSeq seg = .ok { rb with
        start := headPtr (L ++ (seg, v) :: R) none
        «end» := lastPtr none (L ++ (seg, v) :: R), heap := h' }) := by
  have hload : h'.load seg = some ⟨v, lastPtr none L, headPtr R none⟩ := hr.chain.middle
  -- an outer end of the list that is not next to the new node has not moved
  have hstart : L ≠ [] → ∀ zs : List (Ptr × SegmentRange),
      headPtr (L ++ zs) none = rb.start := by
    intro hL zs
    obtain ⟨l, L, rfl⟩ := List.exists_cons_of_ne_nil hL
    rw [hold.first_eq]
    rfl
  have hlast : R ≠ [] → ∀ zs : List (Ptr × SegmentRange), lastPtr none (zs ++ R) = rb.end := by
    intro hR zs
    obtain ⟨R, r, rfl⟩ := (List.eq_nil_or_concat R).resolve_left hR
    rw [hold.last_eq, List.concat_eq_append, ← List.append_assoc, ← List.append_assoc,
      ← List.append_assoc, lastPtr_concat, lastPtr_concat]
  by_cases hle : v.startSeqnumInclusive ≤ nextExpectedSeq
  · obtain ⟨h₁, h₂, hdisc, hfree, hfresh, hsize, hlist, hframe⟩ := disconnect_free_linked hr
    have hidx₁ : seqnumToIndexRecv { rb with heap := h' } (v.endSeqnumInclusive + 1) =
        .ok idx := hidx hle
    have hs : (if lastPtr none L = none then headPtr R none else rb.start) =
        headPtr (L ++ R) none := by
      by_cases hL : L = []
      · rw [if_pos (lastPtr_eq_none.mpr hL), hL, List.nil_append]
      · rw [if_neg (fun hn => hL (lastPtr_eq_none.mp hn)), hstart hL]
    have he : (if headPtr R none = none then lastPtr none L else rb.end) =
        lastPtr none (L ++ R) := by
      by_cases hR : R = []
      · rw [if_pos (headPtr_eq_none.mpr hR), hR, List.append_nil]
      · rw [if_neg (fun hn => hR (headPtr_eq_none.mp hn)), hlast hR]
    refine Or.inl ⟨hle, h₂, ?_, hfresh, hsize, hlist, hframe⟩
    simp only [settleMerged, orMemoryFault, hload, bind, Except.bind, pure, Except.pure,
      if_pos hle, hidx₁, hdisc, hfree, hs, he]
  · have hs : (if lastPtr none L = none then some seg else rb.start) =
        headPtr (L ++ (seg, v) :: R) none := by
      by_cases hL : L = []
      · rw [if_pos (lastPtr_eq_none.mpr hL), hL]
        rfl
      · rw [if_neg (fun hn => hL (lastPtr_eq_none.mp hn)), hstart hL]
    have he : (if headPtr R none = none then some seg else rb.end) =
        lastPtr none (L ++ (seg, v) :: R) := by
      by_cases hR : R = []
      · rw [if_pos (headPtr_eq_none.mpr hR), hR, lastPtr_concat]
      · rw [if_neg (fun hn => hR (headPtr_eq_none.mp hn)), ← List.singleton_append,
          ← List.append_assoc, hlast hR]
    refine Or.inr ⟨UInt32.not_le.mp hle, ?_⟩
    simp only [settleMerged, orMemoryFault, hload, bind, Except.bind, pure, Except.pure,
      if_neg hle, hs, he]

/-- The nodes of the list, split like the held intervals around a new segment. -/
theorem split_segments {isn : ℕ} {r : Reassembly} {xs : List (Ptr × SegmentRange)} {a b : ℕ}
    (hab : a ≤ b) (hxs : xs.map (fun x => x.2.positions isn) = r.held) :
    ∃ L M R, xs = L ++ (M ++ R) ∧
      L.map (fun x => x.2.positions isn) = before a r.held ∧
      M.map (fun x => x.2.positions isn) = meeting a b r.held ∧
      R.map (fun x => x.2.positions isn) = after b r.held := by
  rw [← r.sorted.parts hab] at hxs
  obtain ⟨L, MR, rfl, hL, hMR⟩ := List.map_eq_append_iff.mp hxs
  obtain ⟨M, R, rfl, hM, hR⟩ := List.map_eq_append_iff.mp hMR
  exact ⟨L, M, R, rfl, hL, hM, hR⟩

section Merging

variable {h : SegmentHeap} {first last : Option Ptr} {xs : List (Ptr × SegmentRange)} {isn : ℕ}
  {r : Reassembly} {a b : ℕ} {segStart segEnd : UInt32}

/-- `segment_merge` on the nodes of the held intervals: a node with the merged interval takes
    the place of those that meet the new one. -/
theorem segmentMerge_positions (hl : Linked h first last xs) (hne : xs ≠ [])
    (hnull : ∀ p, (h.fresh p).prev = none ∧ (h.fresh p).next = none)
    (hxs : xs.map (fun x => x.2.positions isn) = r.held) (hstart : segStart.toNat = isn + a)
    (hend : segEnd.toNat = isn + b) (hab : a ≤ b) :
    ∃ L M R h' v, xs = L ++ (M ++ R) ∧ L.map (fun x => x.2.positions isn) = before a r.held ∧
      R.map (fun x => x.2.positions isn) = after b r.held ∧
      segmentMerge h first last segStart segEnd = some (h.size, h') ∧
      Inserted h h' h.size v (lastPtr none L) (headPtr R none) (ptrs M) ∧
      v.positions isn = r.merged a b ∧ isn ≤ v.startSeqnumInclusive.toNat ∧
      isn ≤ v.endSeqnumInclusive.toNat := by
  have hnextread := r.read_lt_next
  -- every held segment lies after the ISN
  have hisn : ∀ y ∈ xs, isn < y.2.startSeqnumInclusive.toNat ∧
      isn < y.2.endSeqnumInclusive.toNat ∧
      y.2.startSeqnumInclusive.toNat ≤ y.2.endSeqnumInclusive.toNat := by
    intro y hy
    have hmem : y.2.positions isn ∈ r.held := hxs ▸ List.mem_map_of_mem hy
    have h1 := r.next_le_held _ hmem
    have h2 := r.sorted.nonempty _ hmem
    simp only [SegmentRange.positions] at h1 h2
    omega
  obtain ⟨L, M, R, rfl, hL, hM, hR⟩ := split_segments (a := a) hab hxs
  have hbefore : ∀ y ∈ L, y.2.endSeqnumInclusive < segStart ∧
      y.2.startSeqnumInclusive ≤ segEnd := by
    intro y hy
    have h1 := (mem_before.mp (hL ▸ List.mem_map_of_mem hy : y.2.positions isn ∈ _)).2
    have h2 := hisn y (by simp [hy])
    simp only [SegmentRange.positions] at h1
    rw [UInt32.lt_iff_toNat_lt, UInt32.le_iff_toNat_le, hstart, hend]
    omega
  have hmeeting : ∀ y ∈ M, segStart ≤ y.2.endSeqnumInclusive ∧
      y.2.startSeqnumInclusive ≤ segEnd := by
    intro y hy
    have h1 := (mem_meeting.mp (hM ▸ List.mem_map_of_mem hy : y.2.positions isn ∈ _)).2
    have h2 := hisn y (by simp [hy])
    simp only [SegmentRange.positions] at h1
    rw [UInt32.le_iff_toNat_le, UInt32.le_iff_toNat_le, hstart, hend]
    omega
  have hafter : ∀ y ∈ R, segStart ≤ y.2.endSeqnumInclusive ∧
      segEnd < y.2.startSeqnumInclusive := by
    intro y hy
    have h1 := (mem_after.mp (hR ▸ List.mem_map_of_mem hy : y.2.positions isn ∈ _)).2
    have h2 := hisn y (by simp [hy])
    simp only [SegmentRange.positions] at h1
    rw [UInt32.le_iff_toNat_le, UInt32.lt_iff_toNat_lt, hstart, hend]
    omega
  obtain ⟨h', hmerge, hins, _⟩ := segmentMerge_inserted hl hnull hne
    (fun y hy => (hbefore y hy).1)
    (fun y hy => (List.mem_append.mp hy).elim (fun hy => (hmeeting y hy).1)
      (fun hy => (hafter y hy).1))
    (fun y hy => (List.mem_append.mp hy).elim (fun hy => (hbefore y hy).2)
      (fun hy => (hmeeting y hy).2))
    (fun y hy => (hafter y hy).2)
  -- the range of the new node
  have hMpos : (M.map Prod.snd).map (SegmentRange.positions isn) = meeting a b r.held := by
    rw [List.map_map, ← hM]
    rfl
  have hmerged := positions_mergedRange (M.map Prod.snd) hstart hend
    (by
      intro v hv
      obtain ⟨y, hy, rfl⟩ := List.mem_map.mp hv
      have := hisn y (by simp [hy])
      exact ⟨this.1, this.2.1⟩)
    (by
      rw [hMpos]
      exact r.sorted.sublist List.filter_sublist)
  rw [hMpos] at hmerged
  exact ⟨L, M, R, h', _, rfl, hL, hR, hmerge, hins, hmerged⟩

/-- `segment_merge` and what follows it leave the intervals of the reassembly that has
    accepted the segment; every node that is in the list no more has been freed, and no
    other node has changed. -/
theorem settleMerged_positions {rb : RecvBuffer} (hl : Linked rb.heap rb.start rb.end xs)
    (hne : xs ≠ []) (hnull : ∀ p, (rb.heap.fresh p).prev = none ∧ (rb.heap.fresh p).next = none)
    (hxs : xs.map (fun x => x.2.positions isn) = r.held) (hacc : r.Accepts a b)
    (hstart : segStart.toNat = isn + a) (hend : segEnd.toNat = isn + b)
    {nextExpectedSeq : UInt32} (hnext : nextExpectedSeq.toNat = isn + r.next)
    {idx : UInt32} (hidx : ∀ q : UInt32, q.toNat = isn + ((r.merged a b).2 + 1) →
      seqnumToIndexRecv rb q = .ok idx)
    (hwrap : isn + (r.merged a b).2 + 1 < 2 ^ 32) :
    ∃ heap rb' ys, segmentMerge rb.heap rb.start rb.end segStart segEnd =
        some (rb.heap.size, heap) ∧
      settleMerged { rb with heap := heap } nextExpectedSeq rb.heap.size = .ok rb' ∧
      rb'.capacity = rb.capacity ∧ rb'.lastByteReadSeqnum = rb.lastByteReadSeqnum ∧
      rb'.lastByteReadIndex = rb.lastByteReadIndex ∧ rb'.buffer = rb.buffer ∧
      rb'.heap.fresh = rb.heap.fresh ∧
      rb'.nextByteExpectedIndex =
        (if (r.merged a b).1 ≤ r.next then idx else rb.nextByteExpectedIndex) ∧
      Linked rb'.heap rb'.start rb'.end ys ∧
      ys.map (fun x => x.2.positions isn) = (r.accept a b hacc).held ∧
      (∀ p ∈ ptrs ys, p ∈ ptrs xs ∨ p = rb.heap.size) ∧
      ∀ p ∉ ptrs ys, rb'.heap.load p =
        if p ∈ ptrs xs ∨ p = rb.heap.size then none else rb.heap.load p := by
  obtain ⟨L, M, R, h', v, rfl, hL, hR, hmerge, hins, hv, hv₁, hv₂⟩ :=
    segmentMerge_positions hl hne hnull hxs hstart hend hacc.le
  have hvend : (v.endSeqnumInclusive + 1).toNat = isn + ((r.merged a b).2 + 1) := by
    rw [← hv] at hwrap ⊢
    simp only [SegmentRange.positions] at hwrap ⊢
    rw [UInt32.toNat_add, UInt32.toNat_one]
    omega
  have hcond : v.startSeqnumInclusive ≤ nextExpectedSeq ↔ (r.merged a b).1 ≤ r.next := by
    rw [UInt32.le_iff_toNat_le, hnext, ← hv, SegmentRange.positions]
    omega
  -- which nodes of the old list are gone
  have hgone : ∀ p ∉ ptrs (L ++ R), (p ∈ ptrs (L ++ (M ++ R)) ↔ p ∈ ptrs M) := by
    intro p hp
    simp only [ptrs_append, List.mem_append, not_or] at hp ⊢
    tauto
  rcases settleMerged_eq nextExpectedSeq hl (hins.linked hl) (fun _ => hidx _ hvend) with
    ⟨hle, heap, hsettle, hfresh, _, hlist, hframe⟩ | ⟨hgt, hsettle⟩
  · have hle' := hcond.mp hle
    refine ⟨h', _, L ++ R, hmerge, hsettle, rfl, rfl, rfl, rfl, hfresh.trans hins.fresh,
      (if_pos hle').symm, hlist, ?_, fun p hp => ?_, fun p hp => ?_⟩
    · rw [Reassembly.accept_held_of_le hacc hle', List.map_append, hL, hR,
        r.before_eq_nil hacc.le hle', List.nil_append]
    · simp only [ptrs_append, List.mem_append] at hp ⊢
      tauto
    · rw [hframe p hp]
      by_cases hseg : p = rb.heap.size
      · rw [if_pos hseg, if_pos (Or.inr hseg)]
      · have hp' : p ∉ ptrs (L ++ (rb.heap.size, v) :: R) := by
          simp only [ptrs_append, ptrs_cons, List.mem_append, List.mem_cons, not_or] at hp ⊢
          exact ⟨hp.1, hseg, hp.2⟩
        rw [if_neg hseg, hins.load_of_notMem hp']
        simp only [hgone p hp, hseg, or_false]
  · have hgt' : r.next < (r.merged a b).1 :=
      Nat.lt_of_not_le (mt hcond.mpr (UInt32.not_le.mpr hgt))
    refine ⟨h', _, L ++ (rb.heap.size, v) :: R, hmerge, hsettle, rfl, rfl, rfl, rfl,
      hins.fresh, (if_neg (Nat.not_le.mpr hgt')).symm, hins.linked hl, ?_, fun p hp => ?_,
      fun p hp => ?_⟩
    · rw [Reassembly.accept_held_of_lt hacc hgt', List.map_append, List.map_cons, hL, hR, hv]
      rfl
    · simp only [ptrs_append, ptrs_cons, List.mem_append, List.mem_cons] at hp ⊢
      tauto
    · rw [hins.load_of_notMem hp]
      simp only [ptrs_append, ptrs_cons, List.mem_append, List.mem_cons, not_or] at hp
      have hp' : p ∉ ptrs (L ++ R) := by
        rw [ptrs_append, List.mem_append, not_or]
        exact ⟨hp.1, hp.2.2⟩
      simp only [hgone p hp', hp.2.1, or_false]

end Merging

/-- The two functions that copy a segment read only these fields. -/
theorem copy_congr {rb rb' : RecvBuffer} (hcap : rb'.capacity = rb.capacity)
    (hseq : rb'.lastByteReadSeqnum = rb.lastByteReadSeqnum)
    (hidx : rb'.lastByteReadIndex = rb.lastByteReadIndex) (hbuf : rb'.buffer = rb.buffer)
    (seqnum startIndex len : UInt32) (data : List UInt8) :
    seqnumToIndexRecv rb' seqnum = seqnumToIndexRecv rb seqnum ∧
      safeMemcpyToRecvbuf rb' startIndex len data = safeMemcpyToRecvbuf rb startIndex len data := by
  simp only [seqnumToIndexRecv, safeMemcpyToRecvbuf, hcap, hseq, hidx, hbuf, and_self]

namespace RecvBuffer.Refines

variable {rb : RecvBuffer} {isn : ℕ} {r : Reassembly}

/-- The fields that tell whether a buffer has accepted a segment. -/
theorem accept_of (h : rb.Refines isn r) {rb' : RecvBuffer} {a n : ℕ} {data : List UInt8}
    (hacc : r.Accepts a (a + n - 1)) (hlt : isn + a + n < 2 ^ 32)
    (hcap : rb'.capacity = rb.capacity)
    (hseq : rb'.lastByteReadSeqnum = rb.lastByteReadSeqnum)
    (hidx : rb'.lastByteReadIndex = rb.lastByteReadIndex)
    (hnext : rb'.nextByteExpectedIndex.toNat =
      (r.accept a (a + n - 1) hacc).next % r.capacity)
    (hbuf : rb'.buffer = overwriteWrap rb.buffer (a % r.capacity) (data.take n))
    (hfresh : rb'.heap.fresh = rb.heap.fresh)
    (hsegs : ∃ xs, Represents rb'.heap rb'.start rb'.end xs ∧
      xs.map (fun x => x.2.positions isn) = (r.accept a (a + n - 1) hacc).held) :
    rb'.Refines isn (r.accept a (a + n - 1) hacc) where
  capacity := by rw [Reassembly.accept_capacity, hcap, h.capacity]
  readSeqnum := by rw [Reassembly.accept_read, hseq, h.readSeqnum]
  readIndex := by rw [Reassembly.accept_read, Reassembly.accept_capacity, hidx, h.readIndex]
  nextIndex := by rw [Reassembly.accept_capacity, hnext]
  length := by rw [Reassembly.accept_capacity, hbuf, h.length_copy hacc]
  -- the allocator is the same, so nodes still come with null links
  null := by
    rw [hfresh]
    exact h.null
  segments := hsegs
  -- the segment may reach further than what was there
  noWrap := by
    obtain ⟨m, hm, hwithin⟩ := h.noWrap
    have hread := hacc.read_lt
    refine ⟨max m (a + n - 1), by omega, ?_⟩
    exact (hwithin.mono (le_max_left _ _)).accept hacc (le_max_right _ _)

/-- `recv_buffer_receive` when no segment is held. -/
theorem recvBufferReceive_nil (h : rb.Refines isn r) (hheld : r.held = [])
    {seqnum len : UInt32} {a : ℕ} {data : List UInt8} (hseq : seqnum.toNat = isn + a)
    (hpos : 0 < len.toNat) (hlt : isn + a + len.toNat < 2 ^ 32)
    (hacc : r.Accepts a (a + len.toNat - 1)) (hdata : len.toNat ≤ data.length) :
    ∃ rb', recvBufferReceive rb seqnum len data = .ok rb' ∧
      rb'.Refines isn (r.accept a (a + len.toNat - 1) hacc) ∧
      rb'.buffer = overwriteWrap rb.buffer (a % r.capacity) (data.take len.toNat) := by
  have hguard := (h.canReceive_iff hseq hpos (Nat.le_of_lt hlt)).mpr hacc
  obtain ⟨idx, hidx, hcopy⟩ := h.copy_segment hseq hpos hlt hacc hdata
  have hread := hacc.read_lt
  obtain ⟨xs, hrep, hxs⟩ := h.segments
  obtain rfl : xs = [] := by simpa [hheld] using hxs
  -- the list is empty, so there is nothing to merge with
  have hstart : rb.start = none := hrep.first_eq
  have hmerged : r.merged a (a + len.toNat - 1) = (a, a + len.toNat - 1) := by
    simp [Reassembly.merged, hheld, meeting]
  unfold CmuTcp.recvBufferReceive
  rw [cAssert_of hguard, hstart]
  -- the branch of the code is that of the positions
  have hcond : seqnum ≤ CmuTcp.getNextByteExpectedSeqnum rb ↔ a ≤ r.next := by
    rw [UInt32.le_iff_toNat_le, hseq, h.getNextByteExpectedSeqnum]
    omega
  by_cases hle : a ≤ r.next
  · -- in-order data
    have hle' : (r.merged a (a + len.toNat - 1)).1 ≤ r.next := by
      rw [hmerged]
      exact hle
    have hend : (seqnum + len).toNat = isn + (a + len.toNat) := by
      rw [UInt32.toNat_add, hseq]
      omega
    obtain ⟨idx', hidx', hval⟩ := h.seqnumToIndexRecv hend (by omega)
    refine ⟨{ rb with
      buffer := overwriteWrap rb.buffer (a % r.capacity) (data.take len.toNat)
      nextByteExpectedIndex := idx' }, ?_, ?_, rfl⟩
    · simp only [bind, Except.bind, pure, Except.pure, if_pos (hcond.mpr hle), hidx, hcopy,
        hidx', hstart]
    · refine h.accept_of hacc hlt rfl rfl rfl ?_ rfl rfl ⟨[], hrep, ?_⟩
      · rw [Reassembly.accept_next_of_le hacc hle', hmerged]
        show idx'.toNat = _
        rw [hval, Nat.sub_add_cancel (by omega)]
      · rw [Reassembly.accept_held_of_le hacc hle', hheld]
        rfl
  · -- the first gap
    have hlt' : r.next < (r.merged a (a + len.toNat - 1)).1 := by
      rw [hmerged]
      exact Nat.lt_of_not_le hle
    have hlast : (seqnum + len - 1).toNat = isn + (a + len.toNat - 1) := by
      rw [UInt32.toNat_sub, UInt32.toNat_add, UInt32.toNat_one, hseq]
      omega
    obtain ⟨h₁, hm₁, hins, _⟩ :=
      malloc_inserted (h.null _).1 (h.null _).2 ⟨seqnum, seqnum + len - 1⟩
    refine ⟨{ rb with
      buffer := overwriteWrap rb.buffer (a % r.capacity) (data.take len.toNat)
      start := some rb.heap.size, «end» := some rb.heap.size, heap := h₁ }, ?_, ?_, rfl⟩
    · simp only [bind, Except.bind, pure, Except.pure, if_neg (fun hc => hle (hcond.mp hc)),
        hidx, hcopy, fst_malloc, hm₁, orMemoryFault]
    · refine h.accept_of hacc hlt rfl rfl rfl ?_ rfl hins.fresh
        ⟨_, hins.represents (L := []) (M := []) (R := []) hrep, ?_⟩
      · rw [Reassembly.accept_next_of_lt hacc hlt', h.nextIndex]
      · rw [Reassembly.accept_held_of_lt hacc hlt', hheld]
        simp [SegmentRange.positions, hseq, hlast, insertMerge, before, meeting, after]

/-- `recv_buffer_receive` when segments are held. -/
theorem recvBufferReceive_cons (h : rb.Refines isn r) {x : Ptr × SegmentRange}
    {xs : List (Ptr × SegmentRange)} (hrep : Represents rb.heap rb.start rb.end (x :: xs))
    (hxs : (x :: xs).map (fun x => x.2.positions isn) = r.held)
    {seqnum len : UInt32} {a : ℕ} {data : List UInt8} (hseq : seqnum.toNat = isn + a)
    (hpos : 0 < len.toNat) (hlt : isn + a + len.toNat < 2 ^ 32)
    (hacc : r.Accepts a (a + len.toNat - 1)) (hdata : len.toNat ≤ data.length) :
    ∃ rb', recvBufferReceive rb seqnum len data = .ok rb' ∧
      rb'.Refines isn (r.accept a (a + len.toNat - 1) hacc) ∧
      rb'.buffer = overwriteWrap rb.buffer (a % r.capacity) (data.take len.toNat) := by
  have hguard := (h.canReceive_iff hseq hpos (Nat.le_of_lt hlt)).mpr hacc
  obtain ⟨idx, hidx, hcopy⟩ := h.copy_segment hseq hpos hlt hacc hdata
  have hread := hacc.read_lt
  have hstart : rb.start = some x.1 := hrep.first_eq
  have hlast : (seqnum + len - 1).toNat = isn + (a + len.toNat - 1) := by
    rw [UInt32.toNat_sub, UInt32.toNat_add, UInt32.toNat_one, hseq]
    omega
  have hvend := r.le_merged_snd a (a + len.toNat - 1)
  obtain ⟨m, hm, hwithin⟩ := h.noWrap
  have hvwithin := (hwithin.mono (le_max_left m (a + len.toNat - 1))).merged (a := a)
    (le_max_right m (a + len.toNat - 1))
  -- the cell after the merged segment
  have hafter : ((isn + ((r.merged a (a + len.toNat - 1)).2 + 1)).toUInt32).toNat =
      isn + ((r.merged a (a + len.toNat - 1)).2 + 1) := by
    rw [Nat.toUInt32, UInt32.toNat_ofNat_of_lt' (show _ < 2 ^ 32 by omega)]
  obtain ⟨vidx, hvidx, hvidx'⟩ := h.seqnumToIndexRecv hafter (by omega)
  obtain ⟨h', rb₁, ys, hmerge, hsettle, hcap₁, hseq₁, hidx₁, hbuf₁, hfresh₁, hindex, hlist, hys,
      -, hframe⟩ := settleMerged_positions hrep.linked (by simp) h.null hxs hacc hseq hlast
    h.getNextByteExpectedSeqnum
    (fun q hq => by rw [UInt32.toNat_inj.mp (hq.trans hafter.symm), hvidx]) (by omega)
  obtain ⟨hidx', hcopy'⟩ := copy_congr hcap₁ hseq₁ hidx₁ hbuf₁ seqnum idx len data
  refine ⟨{ rb₁ with
    buffer := overwriteWrap rb.buffer (a % r.capacity) (data.take len.toNat) }, ?_, ?_, rfl⟩
  · unfold CmuTcp.recvBufferReceive
    rw [cAssert_of hguard, hstart]
    simp only [← hstart, bind, Except.bind, pure, Except.pure, hmerge, orMemoryFault, hsettle,
      hidx', hidx, hcopy', hcopy]
  · refine h.accept_of hacc hlt hcap₁ hseq₁ hidx₁ ?_ rfl hfresh₁
      ⟨ys, hlist.represents hrep fun p hp => ?_, hys⟩
    · show rb₁.nextByteExpectedIndex.toNat = _
      rw [hindex, Reassembly.accept_next hacc]
      split
      · rw [hvidx']
      · rw [h.nextIndex]
    · rw [hframe p hp]
      by_cases hgone : p ∈ ptrs (x :: xs) ∨ p = rb.heap.size
      · exact Or.inl (if_pos hgone)
      · exact Or.inr ⟨fun hmem => hgone (Or.inl hmem), if_neg hgone⟩

/-- **`recv_buffer_receive`** on an accepted segment: no assert fails, no copy leaves the
    ring, and the data is written to the cells of its positions. -/
theorem recvBufferReceive (h : rb.Refines isn r) {seqnum len : UInt32} {a : ℕ}
    {data : List UInt8} (hseq : seqnum.toNat = isn + a) (hpos : 0 < len.toNat)
    (hlt : isn + a + len.toNat < 2 ^ 32) (hacc : r.Accepts a (a + len.toNat - 1))
    (hdata : len.toNat ≤ data.length) :
    ∃ rb', recvBufferReceive rb seqnum len data = .ok rb' ∧
      rb'.Refines isn (r.accept a (a + len.toNat - 1) hacc) ∧
      rb'.buffer = overwriteWrap rb.buffer (a % r.capacity) (data.take len.toNat) := by
  obtain ⟨xs, hrep, hxs⟩ := h.segments
  cases xs with
  | nil => exact h.recvBufferReceive_nil hxs.symm hseq hpos hlt hacc hdata
  | cons x xs => exact h.recvBufferReceive_cons hrep hxs hseq hpos hlt hacc hdata

/-! ## Reading -/

/-- The copies of `recv_buffer_read` stay in the ring: they read circularly from the cell
    after the last byte read. -/
theorem safeMemcpyFromRecvbuf (h : rb.Refines isn r) {len : UInt32} (hpos : 0 < len.toNat)
    (hlen : r.read + len.toNat < r.next) :
    safeMemcpyFromRecvbuf rb len =
      .ok (readWrap rb.buffer (r.read % r.capacity + 1) len.toNat) := by
  have hnext := h.next_lt
  have hle := r.next_le
  have hcap : r.capacity < 2 ^ 32 := h.capacity ▸ rb.capacity.toNat_lt
  have hmod : r.read % r.capacity < r.capacity := Nat.mod_lt _ h.capacity_pos
  -- the last byte that is read, and its cell
  have hq : (rb.lastByteReadSeqnum + len).toNat = isn + (r.read + len.toNat) := by
    rw [UInt32.toNat_add, h.readSeqnum]
    omega
  obtain ⟨idx, hidx, hidx'⟩ := h.seqnumToIndexRecv hq (Nat.le_add_right _ _)
  have hlap := add_mod_of_lt (C := r.capacity) (a := r.read) (q := len.toNat) (by omega)
  have hstart : (rb.lastByteReadIndex + 1).toNat = r.read % r.capacity + 1 := by
    rw [UInt32.toNat_add, UInt32.toNat_one, h.readIndex]
    omega
  -- how much of it lies before the end of the ring
  have htail : (rb.capacity - 1 - rb.lastByteReadIndex).toNat =
      r.capacity - (r.read % r.capacity + 1) := by
    simp only [UInt32.toNat_sub, UInt32.toNat_one, h.capacity, h.readIndex]
    omega
  -- the test compares the cells, and is about that
  have hcond : idx > rb.lastByteReadIndex ↔ r.read % r.capacity + len.toNat < r.capacity := by
    rw [gt_iff_lt, UInt32.lt_iff_toNat_lt, h.readIndex, hidx', hlap]
    split
    · omega
    · omega
  unfold CmuTcp.safeMemcpyFromRecvbuf CircularBuffer.readWrap
  simp only [hidx, bind, Except.bind, pure, Except.pure, memcpyFrom, hstart, htail, h.length]
  by_cases hfit : r.read % r.capacity + len.toNat < r.capacity
  · rw [if_pos (hcond.mpr hfit), if_pos (by omega), if_pos (by omega)]
  -- the second copy has the rest
  · have hrest : (len - (rb.capacity - 1 - rb.lastByteReadIndex)).toNat =
        len.toNat - (r.capacity - (r.read % r.capacity + 1)) := by
      rw [UInt32.toNat_sub, htail]
      omega
    rw [if_neg (fun hc => hfit (hcond.mp hc)), if_pos (by omega)]
    simp only [hrest, UInt32.toNat_zero]
    rw [if_pos (by omega), if_neg (by omega)]

/-- `recv_buffer_read` of at most `recv_buffer_max_read` bytes. -/
theorem recvBufferRead (h : rb.Refines isn r) {len : UInt32}
    (hlen : r.read + len.toNat < r.next) :
    ∃ rb', recvBufferRead rb len =
        .ok (readWrap rb.buffer (r.read % r.capacity + 1) len.toNat, rb') ∧
      rb'.Refines isn (r.consume len.toNat hlen) ∧ rb'.buffer = rb.buffer := by
  have hnext := h.next_lt
  -- the assert
  have hassert : len ≤ CmuTcp.recvBufferMaxRead rb := by
    rw [UInt32.le_iff_toNat_le, h.recvBufferMaxRead]
    omega
  unfold CmuTcp.recvBufferRead
  rw [cAssert_of hassert]
  -- nothing is read
  by_cases hzero : len = 0
  · subst hzero
    refine ⟨rb, ?_, h, rfl⟩
    have hmod : r.read % r.capacity < r.capacity := Nat.mod_lt _ h.capacity_pos
    have hempty : readWrap rb.buffer (r.read % r.capacity + 1) 0 = [] := by
      rw [readWrap, if_pos (by rw [h.length]; omega), slice, List.take_zero]
    simp only [bind, Except.bind, pure, Except.pure, if_true, UInt32.toNat_zero, hempty]
  · have hpos : 0 < len.toNat := toNat_pos_of_ne_zero hzero
    have hmod : r.read % r.capacity ≤ r.read := Nat.mod_le _ _
    -- the number and the index of the last byte read move on, and nothing else
    refine ⟨{ rb with
      lastByteReadSeqnum := rb.lastByteReadSeqnum + len
      lastByteReadIndex := (rb.lastByteReadIndex + len) % rb.capacity }, ?_, ?_, rfl⟩
    · simp only [bind, Except.bind, pure, Except.pure, if_neg hzero,
        h.safeMemcpyFromRecvbuf hpos hlen]
    · exact {
        capacity := h.capacity
        readSeqnum := by
          show (rb.lastByteReadSeqnum + len).toNat = isn + (r.read + len.toNat)
          rw [UInt32.toNat_add, h.readSeqnum]
          omega
        readIndex := by
          show ((rb.lastByteReadIndex + len) % rb.capacity).toNat =
            (r.read + len.toNat) % r.capacity
          rw [UInt32.toNat_mod, UInt32.toNat_add, h.readIndex, h.capacity,
            Nat.mod_eq_of_lt (show r.read % r.capacity + len.toNat < 2 ^ 32 by omega),
            Nat.mod_add_mod]
        nextIndex := h.nextIndex
        length := h.length
        null := h.null
        segments := h.segments
        noWrap := by
          obtain ⟨m, hm, hwithin⟩ := h.noWrap
          exact ⟨m, hm, hwithin.next, hwithin.held⟩ }

/-- The guarded call in `handle_message`: the segment is accepted, or nothing happens. -/
theorem receivePayload (h : rb.Refines isn r) {seqnum len : UInt32} {a : ℕ}
    {data : List UInt8} (hseq : seqnum.toNat = isn + a) (hpos : 0 < len.toNat)
    (hlt : isn + a + len.toNat < 2 ^ 32) (hdata : len.toNat ≤ data.length) :
    ∃ rb', receivePayload rb seqnum len data = .ok rb' ∧
      ((∃ hacc : r.Accepts a (a + len.toNat - 1),
          rb'.Refines isn (r.accept a (a + len.toNat - 1) hacc) ∧
          rb'.buffer = overwriteWrap rb.buffer (a % r.capacity) (data.take len.toNat)) ∨
        (¬ r.Accepts a (a + len.toNat - 1) ∧ rb' = rb)) := by
  have hguard := h.canReceive_iff hseq hpos (Nat.le_of_lt hlt)
  unfold CmuTcp.receivePayload
  by_cases hacc : r.Accepts a (a + len.toNat - 1)
  · obtain ⟨rb', hrecv, href, hbuf⟩ := h.recvBufferReceive hseq hpos hlt hacc hdata
    exact ⟨rb', by rw [if_pos (hguard.mpr hacc), hrecv], Or.inl ⟨hacc, href, hbuf⟩⟩
  · exact ⟨rb, by rw [if_neg (fun hg => hacc (hguard.mp hg))]; rfl, Or.inr ⟨hacc, rfl⟩⟩

end RecvBuffer.Refines

/-- A buffer just created and initialized with the peer's ISN. -/
theorem recv_refines_initialize (capacity : UInt32) (mem : Garbage) (fresh : Ptr → Segment)
    (otherIsn : UInt32) (hcap : 2 ≤ capacity.toNat)
    (hnull : ∀ p, (fresh p).prev = none ∧ (fresh p).next = none)
    (hwrap : otherIsn.toNat + 1 < 2 ^ 32) :
    ∃ rb, recvBufferInitialize (recvBufferCreate capacity mem fresh) otherIsn = .ok rb ∧
      rb.Refines otherIsn.toNat (Reassembly.empty capacity.toNat (by omega)) := by
  refine ⟨_, rfl, ?_⟩
  exact {
    capacity := rfl
    readSeqnum := rfl
    readIndex := (Nat.zero_mod _).symm
    nextIndex := (Nat.mod_eq_of_lt hcap).symm
    length := by simp [recvBufferCreate, Reassembly.empty]
    null := hnull
    segments := ⟨[], represents_empty fresh, rfl⟩
    noWrap := ⟨0, hwrap, ⟨le_refl _, by simp [Reassembly.empty]⟩⟩ }

/-! ## Contents -/

/-- The cells of the positions that have arrived and are not read hold the stream `S`. -/
def RecvBuffer.Holds (rb : RecvBuffer) (r : Reassembly) (S : ℕ → Option UInt8) : Prop :=
  Stores rb.buffer r.capacity S {k | r.read < k ∧ r.Received k}

namespace RecvBuffer.Holds

variable {rb rb' : RecvBuffer} {isn : ℕ} {r : Reassembly} {S : ℕ → Option UInt8}

/-- An accepted segment is written over what the cells held. -/
theorem overlay (h : rb.Holds r S) (href : rb.Refines isn r) {a n : ℕ}
    {data : List UInt8} (hacc : r.Accepts a (a + n - 1)) (hn : n ≤ data.length)
    (hbuf : rb'.buffer = overwriteWrap rb.buffer (a % r.capacity) (data.take n)) :
    rb'.Holds (r.accept a (a + n - 1) hacc) (CircularBuffer.overlay S a (data.take n)) := by
  have hread := hacc.read_lt
  have hend := hacc.lt
  have htake : (data.take n).length = n := by
    rw [List.length_take]
    omega
  -- what the ring held, with the ring's own size for the capacity
  have hold : Stores rb.buffer rb.buffer.length S {k | r.read < k ∧ r.Received k} := by
    rw [href.length]
    exact h
  -- all of it is within one lap of the segment, so writing it touches no other cell
  have hspan : ∀ k ∈ {k | r.read < k ∧ r.Received k},
      k < a + rb.buffer.length ∧ a + (data.take n).length ≤ k + rb.buffer.length := by
    rintro k ⟨hk, hrec⟩
    have := r.received_lt hrec
    rw [href.length, htake]
    omega
  have hnew := hold.overlay (show (data.take n).length ≤ rb.buffer.length by
    rw [href.length, htake]
    omega) hspan
  unfold RecvBuffer.Holds
  rw [hbuf, Reassembly.accept_capacity]
  rw [href.length] at hnew
  -- what has arrived afterwards was held before, or is in the segment
  refine hnew.mono fun k hk => ?_
  obtain ⟨hlt, hrec⟩ := hk
  rw [Reassembly.accept_read] at hlt
  rcases (Reassembly.received_accept hacc k).mp hrec with hrec | hin
  · exact Or.inl ⟨hlt, hrec⟩
  · exact Or.inr ⟨hin.1, by rw [htake]; omega⟩

/-- The data of an accepted segment, when it is what the stream has there. -/
theorem accept (h : rb.Holds r S) (href : rb.Refines isn r) {a n : ℕ} {data : List UInt8}
    (hacc : r.Accepts a (a + n - 1)) (hn : n ≤ data.length)
    (hdata : IsSlice S a (data.take n))
    (hbuf : rb'.buffer = overwriteWrap rb.buffer (a % r.capacity) (data.take n)) :
    rb'.Holds (r.accept a (a + n - 1) hacc) S :=
  overlay_of_isSlice hdata ▸ h.overlay href hacc hn hbuf

theorem consume (h : rb.Holds r S) {n : ℕ} (hn : r.read + n < r.next)
    (hbuf : rb'.buffer = rb.buffer) : rb'.Holds (r.consume n hn) S := by
  unfold RecvBuffer.Holds
  rw [hbuf]
  refine Stores.mono h fun k hk => ⟨?_, hk.2⟩
  have hlt : r.read + n < k := hk.1
  show r.read < k
  omega

/-- What is read out of the ring is the stream from the first byte that is not read. -/
theorem readWrap (h : rb.Holds r S) (href : rb.Refines isn r) {n : ℕ}
    (hn : r.read + n < r.next) :
    (readWrap rb.buffer (r.read % r.capacity + 1) n).length = n ∧
      IsSlice S (r.read + 1) (CircularBuffer.readWrap rb.buffer (r.read % r.capacity + 1) n) := by
  have hle := r.next_le
  have hmod : r.read % r.capacity < r.capacity := Nat.mod_lt _ href.capacity_pos
  unfold RecvBuffer.Holds at h
  rw [← href.length] at h hmod hle ⊢
  refine h.readWrap (by omega) (Nat.mod_add_mod ..) (by omega) ?_
  intro j hj
  have hgt : r.read < r.read + 1 + j := by omega
  exact ⟨hgt, Or.inl ⟨by omega, by omega⟩⟩

/-- A longer stream is held as well where it agrees. -/
theorem congr (h : rb.Holds r S) {S' : ℕ → Option UInt8}
    (hS : ∀ k, r.Received k → S k = S' k) : rb.Holds r S' :=
  fun k hk => (h k hk).trans (hS k hk.2)

end RecvBuffer.Holds

end CmuTcp
