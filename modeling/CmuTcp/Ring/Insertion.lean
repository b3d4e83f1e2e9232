import CmuTcp.Ring.Recv

/-!
# Interval Insertion into the List of Segments

The doubly linked list of `recv_buffer.c` as a data structure of its own: whatever state the
rest of the buffer is in, `segment_merge` and the code after it in `recv_buffer_receive`
insert an interval into a sorted list of disjoint intervals, hand the merged interval over
to the in-order data when it continues it, and free every node that leaves the list.
`segment_clean` frees the nodes of a list.

1. `RecvBuffer.WellFormed` asks nothing about how the buffer came about.  Its numbers are
   those of a reassembly counted from `0` on, so what is known of reassemblies applies.
2. The list before and after is that of the reassembly before and after, and the merged
   interval is the union of the new one and of those that meet it (`mem_merged_iff`).
3. Every buffer that a run can reach is well formed (`RecvBuffer.Refines.wellFormed`).

Main result: `insertion`.
-/

namespace CmuTcp

open IntervalList LinkedHeap

/-- The sequence numbers of the first and the last byte of a segment. -/
def SegmentRange.interval (v : SegmentRange) : ℕ × ℕ :=
  (v.startSeqnumInclusive.toNat, v.endSeqnumInclusive.toNat)

/-- The nodes `xs` are the list of `rb`: linked in both directions between `start` and `end`,
    with sorted, disjoint intervals in the window.  The indices are those of cells, and no
    number of the window wraps around. -/
structure RecvBuffer.WellFormed (rb : RecvBuffer) (xs : List (Ptr × SegmentRange)) : Prop where
  linked : Linked rb.heap rb.start rb.end xs
  sorted : Sorted (xs.map fun x => x.2.interval)
  next_le : ∀ x ∈ xs, getNextByteExpectedSeqnum rb ≤ x.2.startSeqnumInclusive
  lt_capacity : ∀ x ∈ xs, x.2.endSeqnumInclusive.toNat <
    rb.lastByteReadSeqnum.toNat + rb.capacity.toNat
  end_lt : ∀ x ∈ xs, x.2.endSeqnumInclusive.toNat + 1 < 2 ^ 32
  read_lt_next : rb.lastByteReadSeqnum < getNextByteExpectedSeqnum rb
  readIndex_lt : rb.lastByteReadIndex < rb.capacity
  nextIndex_lt : rb.nextByteExpectedIndex < rb.capacity
  index_lt : rb.lastByteReadIndex.toNat + rb.capacity.toNat < 2 ^ 32

/-! ## Cleaning up -/

/-- The loop of `segment_clean` frees all nodes but the last. -/
theorem cleanUpTo_chain {h : SegmentHeap} {a r : Ptr} {va : SegmentRange}
    {ys : List (Ptr × SegmentRange)} {p n : Option Ptr}
    (hchain : Chain h.load p ((a, va) :: ys) n) (hnodup : (a :: ptrs ys).Nodup)
    (hlast : lastPtr (some a) ys = some r) {fuel : ℕ} (hfuel : ys.length < fuel) :
    ∃ h', cleanUpTo r fuel h a = some h' ∧ h'.fresh = h.fresh ∧
      ∀ x, h'.load x = if x ∈ a :: ptrs ys ∧ x ≠ r then none else h.load x := by
  induction ys generalizing a va h p fuel with
  | nil =>
    obtain ⟨fuel, rfl⟩ : ∃ k, fuel = k + 1 := ⟨fuel - 1, by omega⟩
    obtain rfl : a = r := by simpa using hlast
    refine ⟨h, by simp [cleanUpTo], rfl, fun x => ?_⟩
    rw [if_neg]
    simp
  | cons b ys ih =>
    obtain ⟨fuel, rfl⟩ : ∃ k, fuel = k + 1 := ⟨fuel - 1, by omega⟩
    obtain ⟨ha, hnodup'⟩ := List.nodup_cons.mp hnodup
    have hlast' : lastPtr none (b :: ys) = some r := hlast
    have har : a ≠ r := by
      rintro rfl
      exact ha (mem_of_lastPtr hlast')
    -- this iteration frees `a` through the link back from `b`
    obtain ⟨h₁, hfree, hload₁, hfresh₁, _⟩ := Heap.free_eq hchain.1
    have hchain₁ : Chain h₁.load (some a) (b :: ys) n := by
      refine hchain.2.frame fun x hx => ?_
      rw [hload₁, Function.update_of_ne]
      rintro rfl
      exact ha hx
    have hload_a := hchain.1
    have hload_b := hchain.2.1
    obtain ⟨h', hrest, hfresh, hload⟩ := ih hchain₁ hnodup' hlast (by simpa using hfuel)
    refine ⟨h', ?_, hfresh.trans hfresh₁, fun x => ?_⟩
    · simp only [cleanUpTo, if_neg har, hload_a, headPtr_cons, hload_b, Option.bind_eq_bind,
        Option.bind_some, Heap.freePtr, hfree]
      exact hrest
    · rw [hload x, hload₁]
      by_cases hxa : x = a
      · subst hxa
        have hnot : x ∉ b.1 :: ptrs ys := ha
        rw [if_neg (fun hx => hnot hx.1), Function.update_self, if_pos ⟨by simp, har⟩]
      · rw [Function.update_of_ne hxa]
        simp [hxa]

/-- **`segment_clean`** frees exactly the nodes of the list. -/
theorem segmentClean_linked {h : SegmentHeap} {first last : Option Ptr}
    {xs : List (Ptr × SegmentRange)} (hl : Linked h first last xs) :
    ∃ h', segmentClean h first last = some h' ∧ h'.fresh = h.fresh ∧
      ∀ x, h'.load x = if x ∈ ptrs xs then none else h.load x := by
  obtain ⟨hchain, rfl, rfl, hnodup⟩ := hl
  have hlen := Linked.length_le ⟨hchain, rfl, rfl, hnodup⟩
  cases xs with
  -- an empty list has no node to free
  | nil => exact ⟨h, rfl, rfl, by simp⟩
  | cons x ys =>
    obtain ⟨r, hr⟩ : ∃ r, lastPtr none (x :: ys) = some r := by
      obtain ⟨_, r, _, hr, _⟩ := exists_ends (show x :: ys ≠ [] by simp)
      exact ⟨r, hr⟩
    have hmem : r ∈ ptrs (x :: ys) := mem_of_lastPtr hr
    rw [headPtr_cons, hr]
    by_cases hxr : x.1 = r
    · -- a list of one node
      have hys : ys = [] := by
        cases ys with
        | nil => rfl
        | cons y ys =>
          have hlast : lastPtr none (y :: ys) = some r := hr
          exact absurd (mem_of_lastPtr hlast) (hxr ▸ (List.nodup_cons.mp hnodup).1)
      subst hys hxr
      obtain ⟨h', hfree, hload, hfresh, _⟩ := Heap.free_eq hchain.1
      refine ⟨h', by simp [segmentClean, hfree], hfresh, fun y => ?_⟩
      rw [hload]
      by_cases hy : y = x.1
      · simp [hy]
      · simp [hy]
    -- the loop frees all nodes but the last, which is freed behind it
    · obtain ⟨h₁, hloop, hfresh₁, hload₁⟩ := cleanUpTo_chain hchain hnodup hr
        (show ys.length < h.size + 1 by simp at hlen; omega)
      obtain ⟨s, hs⟩ := hchain.live r hmem
      have hs₁ : h₁.load r = some s := by rw [hload₁, if_neg (fun hx => hx.2 rfl), hs]
      obtain ⟨h₂, hfree, hload₂, hfresh₂, _⟩ := Heap.free_eq hs₁
      refine ⟨h₂, ?_, hfresh₂.trans hfresh₁, fun y => ?_⟩
      · simp only [segmentClean, if_neg hxr, hloop, Option.bind_eq_bind, Option.bind_some, hfree]
      · rw [hload₂]
        by_cases hy : y = r
        · rw [hy, Function.update_self, if_pos hmem]
        · rw [Function.update_of_ne hy, hload₁]
          simp only [ne_eq, hy, not_false_eq_true, and_true]
          rfl

/-! ## Sequence numbers from indices of any origin -/

/-- The next byte expected, when its index is `d` cells after the one of the last byte read. -/
theorem getNextByteExpectedSeqnum_of_index {rb : RecvBuffer} {d : ℕ} (hpos : 0 < d)
    (hle : d ≤ rb.capacity.toNat) (hread : rb.lastByteReadIndex < rb.capacity)
    (hnext : rb.nextByteExpectedIndex.toNat =
      (rb.lastByteReadIndex.toNat + d) % rb.capacity.toNat)
    (hwrap : rb.lastByteReadSeqnum.toNat + d < 2 ^ 32) :
    (getNextByteExpectedSeqnum rb).toNat = rb.lastByteReadSeqnum.toNat + d := by
  have hcap := rb.capacity.toNat_lt
  rw [UInt32.lt_iff_toNat_lt] at hread
  unfold getNextByteExpectedSeqnum
  by_cases hfit : rb.lastByteReadIndex.toNat + d < rb.capacity.toNat
  · rw [Nat.mod_eq_of_lt hfit] at hnext
    have hgt : rb.nextByteExpectedIndex > rb.lastByteReadIndex := by
      rw [gt_iff_lt, UInt32.lt_iff_toNat_lt, hnext]
      omega
    rw [if_pos hgt, UInt32.toNat_add, UInt32.toNat_sub, hnext]
    omega
  · rw [Nat.mod_eq_sub_mod (Nat.le_of_not_lt hfit), Nat.mod_eq_of_lt (by omega)] at hnext
    have hgt : ¬ rb.nextByteExpectedIndex > rb.lastByteReadIndex := by
      rw [gt_iff_lt, UInt32.lt_iff_toNat_lt, hnext]
      omega
    rw [if_neg hgt]
    simp only [UInt32.toNat_add, UInt32.toNat_sub, UInt32.toNat_one, hnext]
    omega

namespace RecvBuffer.WellFormed

variable {rb : RecvBuffer} {xs : List (Ptr × SegmentRange)}

/-- The in-order part fits into the ring. -/
theorem next_le_read (h : rb.WellFormed xs) : (getNextByteExpectedSeqnum rb).toNat ≤
    rb.lastByteReadSeqnum.toNat + rb.capacity.toNat := by
  have hread := h.readIndex_lt
  have hnext := h.nextIndex_lt
  have hlt := h.read_lt_next
  have hcap := rb.capacity.toNat_lt
  rw [UInt32.lt_iff_toNat_lt] at hread hnext hlt
  unfold getNextByteExpectedSeqnum at hlt ⊢
  split at hlt
  · rename_i hgt
    rw [gt_iff_lt, UInt32.lt_iff_toNat_lt] at hgt
    rw [if_pos (UInt32.lt_iff_toNat_lt.mpr hgt)]
    rw [UInt32.toNat_add, UInt32.toNat_sub] at hlt ⊢
    omega
  · rename_i hgt
    rw [if_neg hgt]
    rw [gt_iff_lt, UInt32.lt_iff_toNat_lt] at hgt
    simp only [UInt32.toNat_add, UInt32.toNat_sub, UInt32.toNat_one] at hlt ⊢
    omega

/-- The buffer's positions, counted from sequence number `0` on. -/
def reassembly (h : rb.WellFormed xs) : Reassembly where
  capacity := rb.capacity.toNat
  read := rb.lastByteReadSeqnum.toNat
  next := (getNextByteExpectedSeqnum rb).toNat
  held := xs.map fun x => x.2.interval
  read_lt_next := UInt32.lt_iff_toNat_lt.mp h.read_lt_next
  next_le := h.next_le_read
  sorted := h.sorted
  next_le_held := by
    intro v hv
    obtain ⟨x, hx, rfl⟩ := List.mem_map.mp hv
    exact UInt32.le_iff_toNat_le.mp (h.next_le x hx)
  held_lt := by
    intro v hv
    obtain ⟨x, hx, rfl⟩ := List.mem_map.mp hv
    exact h.lt_capacity x hx

theorem reassembly_within (h : rb.WellFormed xs) : h.reassembly.Within (2 ^ 32 - 2) where
  next := by
    have hlt := (getNextByteExpectedSeqnum rb).toNat_lt
    show (getNextByteExpectedSeqnum rb).toNat ≤ _
    omega
  held := by
    intro v hv
    obtain ⟨x, hx, rfl⟩ := List.mem_map.mp hv
    have hlt := h.end_lt x hx
    show x.2.endSeqnumInclusive.toNat ≤ _
    omega

/-- A list with the intervals of a reassembly that the buffer's numbers agree with. -/
theorem of_reassembly {r : Reassembly} (hl : Linked rb.heap rb.start rb.end xs)
    (hheld : xs.map (fun x => x.2.interval) = r.held) (hwithin : r.Within (2 ^ 32 - 2))
    (hcapacity : rb.capacity.toNat = r.capacity) (hread : rb.lastByteReadSeqnum.toNat = r.read)
    (hnext : (getNextByteExpectedSeqnum rb).toNat = r.next)
    (hreadIndex : rb.lastByteReadIndex < rb.capacity)
    (hnextIndex : rb.nextByteExpectedIndex < rb.capacity)
    (hindex : rb.lastByteReadIndex.toNat + rb.capacity.toNat < 2 ^ 32) : rb.WellFormed xs := by
  -- each interval of the list is one of the reassembly
  have hmem : ∀ x ∈ xs, x.2.interval ∈ r.held := fun x hx => hheld ▸ List.mem_map_of_mem hx
  constructor
  · exact hl
  · rw [hheld]
    exact r.sorted
  · intro x hx
    rw [UInt32.le_iff_toNat_le, hnext]
    exact r.next_le_held _ (hmem x hx)
  · intro x hx
    rw [hread, hcapacity]
    exact r.held_lt _ (hmem x hx)
  · intro x hx
    have hle : x.2.endSeqnumInclusive.toNat ≤ _ := hwithin.held _ (hmem x hx)
    omega
  · rw [UInt32.lt_iff_toNat_lt, hread, hnext]
    exact r.read_lt_next
  · exact hreadIndex
  · exact hnextIndex
  · exact hindex

/-- The cell of a number after the last byte read; the assert of `seqnum_to_index_recv`
    holds and the sum in it does not wrap around. -/
theorem seqnumToIndexRecv (h : rb.WellFormed xs) {q : UInt32}
    (hlo : rb.lastByteReadSeqnum ≤ q)
    (hhi : q.toNat ≤ rb.lastByteReadSeqnum.toNat + rb.capacity.toNat) :
    ∃ idx, seqnumToIndexRecv rb q = .ok idx ∧ idx < rb.capacity ∧
      idx.toNat = (rb.lastByteReadIndex.toNat + (q.toNat - rb.lastByteReadSeqnum.toNat)) %
        rb.capacity.toNat := by
  have hread := h.readIndex_lt
  have hsum := h.index_lt
  have hq := UInt32.le_iff_toNat_le.mp hlo
  rw [UInt32.lt_iff_toNat_lt] at hread
  have hval : ((rb.lastByteReadIndex + (q - rb.lastByteReadSeqnum)) % rb.capacity).toNat =
      (rb.lastByteReadIndex.toNat + (q.toNat - rb.lastByteReadSeqnum.toNat)) %
        rb.capacity.toNat := by
    rw [UInt32.toNat_mod, UInt32.toNat_add, UInt32.toNat_sub_of_le _ _ hlo,
      Nat.mod_eq_of_lt (show rb.lastByteReadIndex.toNat +
        (q.toNat - rb.lastByteReadSeqnum.toNat) < 2 ^ 32 by omega)]
  refine ⟨_, ?_, ?_, hval⟩
  · unfold CmuTcp.seqnumToIndexRecv
    rw [cAssert_of (ge_iff_le.mpr hlo)]
    rfl
  · rw [UInt32.lt_iff_toNat_lt, hval]
    exact Nat.mod_lt _ (by omega)

/-- The next byte expected after an interval has been merged. -/
theorem next_settled (h : rb.WellFormed xs) {rb' : RecvBuffer} {a b : ℕ} {q idx : UInt32}
    (hacc : h.reassembly.Accepts a b) (hcap : rb'.capacity = rb.capacity)
    (hseq : rb'.lastByteReadSeqnum = rb.lastByteReadSeqnum)
    (hread : rb'.lastByteReadIndex = rb.lastByteReadIndex)
    (hindex : rb'.nextByteExpectedIndex =
      if (h.reassembly.merged a b).1 ≤ h.reassembly.next then idx else rb.nextByteExpectedIndex)
    (hq : q.toNat = (h.reassembly.merged a b).2 + 1)
    (hidx : idx.toNat = (rb.lastByteReadIndex.toNat +
      (q.toNat - rb.lastByteReadSeqnum.toNat)) % rb.capacity.toNat) :
    (getNextByteExpectedSeqnum rb').toNat = (h.reassembly.accept a b hacc).next := by
  rw [Reassembly.accept_next]
  split at hindex
  -- the merged interval continues the in-order data, and its last number is before one lap
  · rename_i hle
    have hend := h.reassembly.le_merged_snd a b
    have hlt : (h.reassembly.merged a b).2 <
      rb.lastByteReadSeqnum.toNat + rb.capacity.toNat := h.reassembly.merged_lt hacc
    have hlow : rb.lastByteReadSeqnum.toNat < a := hacc.read_lt
    have hab := hacc.le
    have hq_lt := q.toNat_lt
    rw [if_pos hle, getNextByteExpectedSeqnum_of_index
      (show 0 < q.toNat - rb.lastByteReadSeqnum.toNat by omega) (by rw [hcap]; omega)
      (by rw [hread, hcap]; exact h.readIndex_lt) (by rw [hindex, hidx, hread, hcap])
      (by rw [hseq]; omega), hseq]
    omega
  -- it is held, and the index has not moved
  · rename_i hgt
    rw [if_neg hgt]
    unfold getNextByteExpectedSeqnum
    rw [hindex, hcap, hseq, hread]
    rfl

/-- The merged interval is the union of the new one and of those that meet it. -/
theorem mem_merged_iff (h : rb.WellFormed xs) {a b : UInt32} (q : ℕ) :
    (h.reassembly.merged a.toNat b.toNat).1 ≤ q ∧ q ≤ (h.reassembly.merged a.toNat b.toNat).2 ↔
      (a.toNat ≤ q ∧ q ≤ b.toNat) ∨
      ∃ x ∈ xs, (a ≤ x.2.endSeqnumInclusive ∧ x.2.startSeqnumInclusive ≤ b) ∧
        x.2.startSeqnumInclusive.toNat ≤ q ∧ q ≤ x.2.endSeqnumInclusive.toNat := by
  rw [Reassembly.merged, mem_hull_iff (fun x hx => (mem_meeting.mp hx).2)]
  apply or_congr_right
  simp only [Covers, mem_meeting, UInt32.le_iff_toNat_le]
  constructor
  · rintro ⟨_, ⟨hmem, hmeets⟩, hq⟩
    obtain ⟨x, hx, rfl⟩ := List.mem_map.mp hmem
    exact ⟨x, hx, hmeets, hq⟩
  · rintro ⟨x, hx, hmeets, hq⟩
    exact ⟨_, ⟨List.mem_map_of_mem hx, hmeets⟩, hq⟩

end RecvBuffer.WellFormed

/-- The buffers that refine a reassembly are well formed. -/
theorem RecvBuffer.Refines.wellFormed {rb : RecvBuffer} {isn : ℕ} {r : Reassembly}
    (h : rb.Refines isn r) (hcap : rb.capacity.toNat ≤ 2 ^ 31) : ∃ xs, rb.WellFormed xs ∧
      xs.map (fun x => x.2.interval) = r.held.map fun v => (isn + v.1, isn + v.2) := by
  obtain ⟨xs, hrep, hxs⟩ := h.segments
  obtain ⟨m, hm, hwithin⟩ := h.noWrap
  have hnext := h.getNextByteExpectedSeqnum
  have hread := r.read_lt_next
  have hpos := h.capacity_pos
  -- the numbers of a node are its positions, shifted
  have hshift : ∀ x ∈ xs, x.2.positions isn ∈ r.held ∧
      x.2.interval = (isn + (x.2.positions isn).1, isn + (x.2.positions isn).2) := by
    intro x hx
    have hmem : x.2.positions isn ∈ r.held := hxs ▸ List.mem_map_of_mem hx
    have h1 := r.next_le_held _ hmem
    have h2 := r.sorted.nonempty _ hmem
    simp only [SegmentRange.positions] at h1 h2
    refine ⟨hmem, Prod.ext ?_ ?_⟩
    · simp only [SegmentRange.interval, SegmentRange.positions]
      omega
    · simp only [SegmentRange.interval, SegmentRange.positions]
      omega
  have hstart : ∀ x ∈ xs, x.2.startSeqnumInclusive.toNat = isn + (x.2.positions isn).1 :=
    fun x hx => congrArg Prod.fst (hshift x hx).2
  have hend : ∀ x ∈ xs, x.2.endSeqnumInclusive.toNat = isn + (x.2.positions isn).2 :=
    fun x hx => congrArg Prod.snd (hshift x hx).2
  -- an index of a position is that of a cell
  have hreadIndex : rb.lastByteReadIndex < rb.capacity := by
    rw [UInt32.lt_iff_toNat_lt, h.readIndex, h.capacity]
    exact Nat.mod_lt _ hpos
  have hintervals : xs.map (fun x => x.2.interval) =
      r.held.map fun v => (isn + v.1, isn + v.2) := by
    rw [← hxs, List.map_map]
    exact List.map_congr_left fun x hx => (hshift x hx).2
  refine ⟨xs, ⟨hrep.linked, ⟨?_, ?_⟩, ?_, ?_, ?_, ?_, hreadIndex, ?_, ?_⟩, hintervals⟩
  · intro v hv
    obtain ⟨x, hx, rfl⟩ := List.mem_map.mp hv
    have hle := r.sorted.nonempty _ (hshift x hx).1
    rw [(hshift x hx).2]
    exact Nat.add_le_add_left hle isn
  · have hdisjoint := r.sorted.disjoint
    rw [← hxs] at hdisjoint
    refine List.pairwise_map.mpr ((List.pairwise_map.mp hdisjoint).imp_of_mem ?_)
    intro x y hx hy hlt
    rw [(hshift x hx).2, (hshift y hy).2]
    exact Nat.add_lt_add_left hlt isn
  · intro x hx
    have hle := r.next_le_held _ (hshift x hx).1
    rw [UInt32.le_iff_toNat_le, hnext, hstart x hx]
    omega
  · intro x hx
    have hlt := r.held_lt _ (hshift x hx).1
    rw [hend x hx, h.readSeqnum, h.capacity]
    omega
  · intro x hx
    have hle := hwithin.held _ (hshift x hx).1
    rw [hend x hx]
    omega
  · rw [UInt32.lt_iff_toNat_lt, hnext, h.readSeqnum]
    omega
  · rw [UInt32.lt_iff_toNat_lt, h.nextIndex, h.capacity]
    exact Nat.mod_lt _ hpos
  · rw [UInt32.lt_iff_toNat_lt] at hreadIndex
    omega

/-! ## Insertion -/

/-- **The list of segments implements interval insertion**: for every well-formed list and
    every interval `[a, b]` that `recv_buffer_can_receive` admits, `segment_merge` and the
    code after it leave a well-formed list of the intervals that do not meet `[a, b]` and of
    the union `u` of `[a, b]` with the others, which is handed over to the in-order data
    instead when it starts at or before the next byte expected.

    A node that leaves the list is freed, once: afterwards its address is dead, and to free
    a dead address has no result.  No node outside the old and the new list is touched, and
    `segment_clean` frees the nodes of the new list. -/
theorem insertion {rb : RecvBuffer} {xs : List (Ptr × SegmentRange)} (h : rb.WellFormed xs)
    (hne : xs ≠ []) (hnull : ∀ p, (rb.heap.fresh p).prev = none ∧ (rb.heap.fresh p).next = none)
    {a b : UInt32} (hab : a ≤ b) (hlow : rb.lastByteReadSeqnum < a)
    (hnew : getNextByteExpectedSeqnum rb ≤ b)
    (hlast : b.toNat < rb.lastByteReadSeqnum.toNat + rb.capacity.toNat)
    (hwrap : b.toNat + 1 < 2 ^ 32) :
    ∃ seg heap rb' xs' u,
      segmentMerge rb.heap rb.start rb.end a b = some (seg, heap) ∧
      settleMerged { rb with heap := heap } (getNextByteExpectedSeqnum rb) seg = .ok rb' ∧
      rb'.WellFormed xs' ∧ rb'.buffer = rb.buffer ∧
      rb'.lastByteReadSeqnum = rb.lastByteReadSeqnum ∧ rb'.capacity = rb.capacity ∧
      (∀ q, u.1 ≤ q ∧ q ≤ u.2 ↔ (a.toNat ≤ q ∧ q ≤ b.toNat) ∨
        ∃ x ∈ xs, (a ≤ x.2.endSeqnumInclusive ∧ x.2.startSeqnumInclusive ≤ b) ∧
          x.2.startSeqnumInclusive.toNat ≤ q ∧ q ≤ x.2.endSeqnumInclusive.toNat) ∧
      (∀ v, v ∈ xs'.map (fun x => x.2.interval) ↔
        (v ∈ xs.map (fun x => x.2.interval) ∧ ¬ (a.toNat ≤ v.2 ∧ v.1 ≤ b.toNat)) ∨
        (v = u ∧ (getNextByteExpectedSeqnum rb).toNat < u.1)) ∧
      (getNextByteExpectedSeqnum rb').toNat =
        (if u.1 ≤ (getNextByteExpectedSeqnum rb).toNat then u.2 + 1
          else (getNextByteExpectedSeqnum rb).toNat) ∧
      (∀ p, p ∈ ptrs xs ∨ p = seg → p ∉ ptrs xs' →
        rb'.heap.load p = none ∧ rb'.heap.free p = none) ∧
      (∀ p, p ∉ ptrs xs → p ≠ seg → rb'.heap.load p = rb.heap.load p) ∧
      ∃ heap', segmentClean rb'.heap rb'.start rb'.end = some heap' ∧
        ∀ p, heap'.load p = if p ∈ ptrs xs' then none else rb'.heap.load p := by
  rw [UInt32.le_iff_toNat_le] at hab hnew
  rw [UInt32.lt_iff_toNat_lt] at hlow
  have hacc : h.reassembly.Accepts a.toNat b.toNat := ⟨hab, hlow, hnew, hlast⟩
  have hend := h.reassembly.le_merged_snd a.toNat b.toNat
  have hlt : (h.reassembly.merged a.toNat b.toNat).2 <
    rb.lastByteReadSeqnum.toNat + rb.capacity.toNat := h.reassembly.merged_lt hacc
  have hmax := h.reassembly_within.merged (a := a.toNat) (show b.toNat ≤ 2 ^ 32 - 2 by omega)
  -- the cell after the union
  have hafter : ((h.reassembly.merged a.toNat b.toNat).2 + 1).toUInt32.toNat =
      (h.reassembly.merged a.toNat b.toNat).2 + 1 := by
    rw [Nat.toUInt32, UInt32.toNat_ofNat_of_lt' (show _ < 2 ^ 32 by omega)]
  obtain ⟨idx, hidx, hidx_lt, hidx_eq⟩ := h.seqnumToIndexRecv
    (UInt32.le_iff_toNat_le.mpr (by rw [hafter]; omega)) (by rw [hafter]; omega)
  have hpositions : xs.map (fun x => x.2.positions 0) = h.reassembly.held := rfl
  obtain ⟨heap, rb', xs', hmerge, hsettle, hcap', hseq', hridx', hbuf', -, hindex', hlist, hheld,
      hnodes, hframe⟩ := settleMerged_positions h.linked hne hnull hpositions hacc
    (Nat.zero_add _).symm (Nat.zero_add _).symm (Nat.zero_add _).symm
    (fun q hq => by rw [UInt32.toNat_inj.mp ((hq.trans (Nat.zero_add _)).trans hafter.symm), hidx])
    (by omega)
  have hnext' := h.next_settled hacc hcap' hseq' hridx' hindex' hafter hidx_eq
  have hnextIndex : rb'.nextByteExpectedIndex < rb'.capacity := by
    rw [hindex', hcap']
    split
    · exact hidx_lt
    · exact h.nextIndex_lt
  -- the list and the numbers of the buffer agree with the positions after the insertion
  have hwell : rb'.WellFormed xs' := .of_reassembly hlist hheld
    (h.reassembly_within.accept hacc (show b.toNat ≤ 2 ^ 32 - 2 by omega))
    (by rw [Reassembly.accept_capacity, hcap']; rfl) (by rw [Reassembly.accept_read, hseq']; rfl)
    hnext' (by rw [hridx', hcap']; exact h.readIndex_lt) hnextIndex
    (by rw [hridx', hcap']; exact h.index_lt)
  obtain ⟨heap', hclean, _, hcleaned⟩ := segmentClean_linked hlist
  refine ⟨rb.heap.size, heap, rb', xs', h.reassembly.merged a.toNat b.toNat, hmerge, hsettle,
    hwell, hbuf', hseq', hcap', fun q => h.mem_merged_iff q, ?_, ?_, ?_, ?_, heap', hclean,
    hcleaned⟩
  · intro v
    exact hheld ▸ Reassembly.mem_accept_held hacc
  · rw [hnext', Reassembly.accept_next]
    rfl
  · intro p hgone hp
    have hdead : rb'.heap.load p = none := (hframe p hp).trans (if_pos hgone)
    exact ⟨hdead, by rw [Heap.free, hdead]; rfl⟩
  · intro p hp hseg
    have hnew : ¬ (p ∈ ptrs xs ∨ p = rb.heap.size) := not_or.mpr ⟨hp, hseg⟩
    rw [hframe p (fun hmem => hnew (hnodes p hmem)), if_neg hnew]

/-- Three segments are held behind gaps; an interval that meets the first two replaces them
    by one node and leaves the third. -/
theorem insertion_merges_two : ∃ rb xs seg heap rb' ys, RecvBuffer.WellFormed rb xs ∧
    xs.map (fun x => x.2.interval) = [(103, 103), (106, 107), (110, 110)] ∧
    segmentMerge rb.heap rb.start rb.end 102 106 = some (seg, heap) ∧
    settleMerged { rb with heap := heap } (getNextByteExpectedSeqnum rb) seg = .ok rb' ∧
    rb'.WellFormed ys ∧
    ∀ v, v ∈ ys.map (fun x => x.2.interval) ↔ v = (110, 110) ∨ v = (102, 107) := by
  obtain ⟨rb, _, href⟩ := recv_refines_initialize 16 (SocketEnv.zeroed 100).recvMem
    (SocketEnv.zeroed 100).freshSegment 100 (by decide) (fun _ => ⟨rfl, rfl⟩) (by decide)
  -- the three segments arrive
  obtain ⟨rb, _, href, _⟩ := href.recvBufferReceive (show (103 : UInt32).toNat = 100 + 3
    by decide) (show 0 < (1 : UInt32).toNat by decide) (by decide) (by decide)
    (show (1 : UInt32).toNat ≤ [(3 : UInt8)].length by decide)
  obtain ⟨rb, _, href, _⟩ := href.recvBufferReceive (show (110 : UInt32).toNat = 100 + 10
    by decide) (show 0 < (1 : UInt32).toNat by decide) (by decide) (by decide)
    (show (1 : UInt32).toNat ≤ [(10 : UInt8)].length by decide)
  obtain ⟨rb, _, href, _⟩ := href.recvBufferReceive (show (106 : UInt32).toNat = 100 + 6
    by decide) (show 0 < (2 : UInt32).toNat by decide) (by decide) (by decide)
    (show (2 : UInt32).toNat ≤ [(6 : UInt8), 7].length by decide)
  have hcap : rb.capacity.toNat = 16 := href.capacity
  have hread : rb.lastByteReadSeqnum.toNat = 100 := href.readSeqnum
  have hnext : (getNextByteExpectedSeqnum rb).toNat = 101 := href.getNextByteExpectedSeqnum
  obtain ⟨xs, hwell, hpositions⟩ := href.wellFormed (by omega)
  have hintervals : xs.map (fun x => x.2.interval) = [(103, 103), (106, 107), (110, 110)] :=
    hpositions
  have hne : xs ≠ [] := by
    rintro rfl
    exact absurd hintervals (by simp)
  obtain ⟨seg, heap, rb', ys, u, hmerge, hsettle, hwell', _, _, _, hunion, hmem, _⟩ :=
    insertion hwell hne href.null (show (102 : UInt32) ≤ 106 by decide)
      (UInt32.lt_iff_toNat_lt.mpr (by rw [hread]; decide))
      (UInt32.le_iff_toNat_le.mpr (by rw [hnext]; decide)) (by rw [hread, hcap]; decide)
      (by decide)
  -- the union is known by its members
  have hmembers : ∀ q, u.1 ≤ q ∧ q ≤ u.2 ↔ 102 ≤ q ∧ q ≤ 107 := by
    intro q
    have hmap : (∃ x ∈ xs, (102 ≤ x.2.endSeqnumInclusive ∧ x.2.startSeqnumInclusive ≤ 106) ∧
        x.2.startSeqnumInclusive.toNat ≤ q ∧ q ≤ x.2.endSeqnumInclusive.toNat) ↔
        ∃ v ∈ xs.map (fun x => x.2.interval), (102 ≤ v.2 ∧ v.1 ≤ 106) ∧ v.1 ≤ q ∧ q ≤ v.2 := by
      simp [SegmentRange.interval, UInt32.le_iff_toNat_le]
    rw [hunion, hmap, hintervals]
    simp
    omega
  obtain rfl : u = (102, 107) := by
    have hlo := hmembers u.1
    have hhi := hmembers u.2
    have h1 := hmembers 102
    have h2 := hmembers 107
    exact Prod.ext (by omega) (by omega)
  refine ⟨_, xs, seg, heap, rb', ys, hwell, hintervals, hmerge, hsettle, hwell', fun v => ?_⟩
  rw [hmem, hintervals, hnext]
  constructor
  · rintro (⟨hheld, hapart⟩ | ⟨rfl, _⟩)
    · -- the first two meet the new interval
      simp only [List.mem_cons, List.not_mem_nil, or_false] at hheld
      rcases hheld with rfl | rfl | rfl
      · exact absurd (by decide) hapart
      · exact absurd (by decide) hapart
      · exact Or.inl rfl
    · exact Or.inr rfl
  · rintro (rfl | rfl)
    · exact Or.inl (by decide)
    · exact Or.inr ⟨rfl, by decide⟩

end CmuTcp
