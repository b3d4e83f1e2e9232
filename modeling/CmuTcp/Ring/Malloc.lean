import CmuTcp.Ring.Insertion
import CmuTcp.Ring.Moved
import CmuTcp.Ring.Window

/-!
# What Malloc Leaves in a Segment

Two receive buffers that perform the same calls while `malloc` leaves different contents in
the nodes it returns.  The numbers of the segments are arbitrary here, wrapped around or not,
so the list is any list of segments, linked in both directions.

`segment_merge` and `recv_buffer_receive` set both links of a new node only where it comes
between two others.  Elsewhere they rely on the links that they do not set; as long as those
are null, nothing else of what `malloc` leaves has an effect.

1. The two scans of `segment_merge` leave a stretch of the list between them, or cross
   (`scans_meet_or_cross`); when they cross with segments in between, the code follows a null
   pointer, on every heap.
2. Otherwise the new node takes the place of the stretch, whatever the numbers are
   (`segmentMerge_outcome`), and what follows looks at the list only.
3. `RecvBuffer.Twin` relates the two buffers: equal but for their allocators, with lists of
   the same segments at the same addresses.  Every call keeps it, or fails in both.

Main result: `malloc_irrelevant`, with the run in which leftover links are followed.
-/

namespace CmuTcp

open FaultSystem (System Run)
open LinkedHeap Lockstep

/-! ## Scans that cross -/

/-- The clean-up behind `right_end` runs off the end of the list. -/
theorem freeUpTo_none {h : SegmentHeap} {r : Ptr} {p : Option Ptr} {fuel : ℕ}
    {R : List (Ptr × SegmentRange)} (hchain : Chain h.load p R none) (hr : r ∉ ptrs R)
    (hp : ∀ x ∈ ptrs R, p ≠ some x) (hnodup : (ptrs R).Nodup) :
    freeUpTo r fuel h (headPtr R none) = none := by
  induction R generalizing h p fuel with
  | nil => cases fuel <;> rfl
  | cons x R ih =>
    obtain ⟨hx, hnodup⟩ := List.nodup_cons.mp hnodup
    rw [ptrs_cons, List.mem_cons, not_or] at hr
    cases fuel with
    | zero => rfl
    | succ fuel =>
      -- the loop stops only at `right_end`, which is not ahead
      have hxr : some x.1 ≠ some r := fun heq => hr.1 (Option.some.inj heq).symm
      have hload := hchain.1
      simp only [headPtr_cons, freeUpTo, if_neg hxr, Option.bind_eq_bind, Option.bind_some, hload]
      refine Option.bind_eq_none_iff.mpr fun h₁ hfree => ?_
      have hframe : ∀ y ∈ ptrs (x :: R), h₁.load y = h.load y :=
        fun y hy => Heap.load_of_freePtr hfree (hp y hy)
      simp only [hframe x.1 (by simp), hload, Option.bind_some]
      refine ih (p := some x.1) ?_ hr.2 ?_ hnodup
      · exact hchain.2.frame fun y hy => hframe y (List.mem_cons_of_mem _ hy)
      · rintro y hy heq
        exact hx (Option.some.inj heq ▸ hy)

/-- When `left_end` lies behind `right_end` and other segments between them, `segment_merge`
    dereferences the null pointer at the end of the list. -/
theorem segmentMerge_crossed {h : SegmentHeap} {first last : Option Ptr} {a b : UInt32}
    {L M R : List (Ptr × SegmentRange)} {l r : Ptr × SegmentRange}
    (hl : Linked h first last (L ++ r :: (M ++ l :: R))) (hM : M ≠ [])
    (hnext : walkNext h (fun s => decide (s.val.endSeqnumInclusive < a)) (h.size + 1) first =
      some (some l.1))
    (hprev : walkPrev h (fun s => decide (s.val.startSeqnumInclusive > b)) (h.size + 1) last =
      some (some r.1)) :
    segmentMerge h first last a b = none := by
  obtain ⟨m, M, rfl⟩ := List.exists_cons_of_ne_nil hM
  have hchain := hl.chain
  have hload_r := hchain.middle
  have hseg := hl.size_notMem
  have hnodup := hl.nodup
  rw [← List.cons_append, ← List.append_assoc] at hchain hseg hnodup
  have hload_l := hchain.middle
  have hchainR := (chain_append.mp hchain).2.2
  rw [ptrs_append] at hseg hnodup
  obtain ⟨_, hndR, hdisj⟩ := List.nodup_append.mp hnodup
  have hlR := (List.nodup_cons.mp hndR).1
  rw [List.mem_append, not_or] at hseg
  have hr_mem : r.1 ∈ ptrs (L ++ r :: m :: M) := by simp
  have hm_mem : m.1 ∈ ptrs (L ++ r :: m :: M) := by simp
  have hl_mem : l.1 ∈ ptrs (l :: R) := by simp
  have hrs : r.1 ≠ h.size := fun heq => hseg.1 (heq ▸ hr_mem)
  have hlr : l.1 ≠ r.1 := fun heq => hdisj _ hr_mem _ hl_mem heq.symm
  have hload : ∀ x, x ≠ h.size → h.malloc.2.load x = h.load x := by
    intro x hx
    rw [Heap.load_malloc, fst_malloc, Function.update_of_ne hx]
  have hnl : headPtr (m :: M ++ l :: R) none ≠ some l.1 :=
    fun heq => hdisj _ hm_mem _ hl_mem (Option.some.inj heq)
  simp only [segmentMerge, hnext, hprev, Option.bind_eq_bind, Option.bind_some, fst_malloc,
    hload _ hrs, hload_r, if_neg hnl, hload _ fun heq => hseg.2 (heq ▸ hl_mem), hload_l]
  refine Option.bind_eq_none_iff.mpr fun h₁ hm₁ => ?_
  refine Option.bind_eq_none_iff.mpr fun h₂ hm₂ => ?_
  refine Option.bind_eq_none_iff.mpr fun h₃ hm₃ => ?_
  refine Option.bind_eq_none_iff.mpr fun h₄ hm₄ => ?_
  refine Option.bind_eq_none_iff.mpr fun h₅ hm₅ => ?_
  -- what is written: the new node and its two neighbours, which lie between `r` and `l`
  have hkept : ∀ x ∈ ptrs (l :: R), h₅.load x = h.load x := by
    intro x hx
    have hxs : x ≠ h.size := fun heq => hseg.2 (heq ▸ hx)
    rw [Heap.load_of_modifyPtr hm₅ fun heq => hdisj x (mem_of_lastPtr heq) x hx rfl,
      Heap.load_of_modify hm₄ hxs,
      Heap.load_of_modifyPtr hm₃ fun heq => hdisj _ hm_mem x hx (Option.some.inj heq),
      Heap.load_of_modify hm₂ hxs, Heap.load_of_modify hm₁ hxs, hload x hxs]
  have hloop : freeUpTo r.1 (h₅.size + 1) h₅ (headPtr R none) = none := freeUpTo_none
    (hchainR.frame fun x hx => hkept x (List.mem_cons_of_mem _ hx))
    (fun hr => hdisj _ hr_mem _ (List.mem_cons_of_mem _ hr) rfl)
    (fun x hx heq => hlR (Option.some.inj heq ▸ hx)) (List.nodup_cons.mp hndR).2
  simp only [freeSwallowed, if_neg hlr, hkept _ hl_mem, hload_l, Option.bind_eq_bind,
    Option.bind_some, hloop, Option.bind_none]

/-! ## The links that are not set -/

/-- Where the first scan of `segment_merge` stops: at `left_end`, `none` when it passes the end
    of the list. -/
def RecvBuffer.leftEnd (rb : RecvBuffer) (segStartSeq : UInt32) : Option (Option Ptr) :=
  walkNext rb.heap (fun s => decide (s.val.endSeqnumInclusive < segStartSeq)) (rb.heap.size + 1)
    rb.start

/-- Where the second scan stops: at `right_end`. -/
def RecvBuffer.rightEnd (rb : RecvBuffer) (segEndSeq : UInt32) : Option (Option Ptr) :=
  walkPrev rb.heap (fun s => decide (s.val.startSeqnumInclusive > segEndSeq)) (rb.heap.size + 1)
    rb.end

/-- When `malloc` returns the node `seg` in this call, the links that the call does not set in
    it are null: both for the first gap, `next` behind the last segment, `prev` before the
    first one. -/
def RecvBuffer.LeavesNull (rb : RecvBuffer) (seg : Segment) : RecvCall → Prop
  | .receive seqnum len _ =>
    (rb.start = none → getNextByteExpectedSeqnum rb < seqnum →
      seg.prev = none ∧ seg.next = none) ∧
    (rb.start ≠ none → rb.leftEnd seqnum = some none → seg.next = none) ∧
    (rb.start ≠ none → rb.leftEnd seqnum ≠ some none →
      rb.rightEnd (seqnum + len - 1) = some none → seg.prev = none)
  | .read _ => True

instance RecvBuffer.decidableLeavesNull (rb : RecvBuffer) (seg : Segment) (c : RecvCall) :
    Decidable (rb.LeavesNull seg c) :=
  match c with
  | .receive _ _ _ => inferInstanceAs (Decidable (_ ∧ _ ∧ _))
  | .read _ => inferInstanceAs (Decidable True)

/-! ## What happens to the list -/

section Outcome

variable {xs : List (Ptr × SegmentRange)} {a b : UInt32}

/-- Two scans of a list, from the front to `l` and from the back to `r`, either leave a stretch
    between them or cross. -/
theorem scans_meet_or_cross {β : Type} {A B C D : List β} {l r : β}
    (h : A ++ l :: B = (C ++ [r]) ++ D) :
    (∃ M, C ++ [r] = A ++ M ∧ l :: B = M ++ D) ∨
    ∃ M, M ≠ [] ∧ A = (C ++ [r]) ++ M ∧ D = M ++ l :: B := by
  rcases List.append_eq_append_iff.mp h with ⟨M, hM, hM'⟩ | ⟨M, hM, hM'⟩
  · exact Or.inl ⟨M, hM, hM'⟩
  · by_cases hne : M = []
    · subst hne
      exact Or.inl ⟨[], by rw [hM, List.append_nil, List.append_nil], hM'.symm⟩
    · exact Or.inr ⟨M, hne, hM, hM'⟩

/-- `segment_merge` fails on every heap with the list `xs`, or puts the same node in place of
    the same stretch of it, provided that the links that it does not set are null. -/
theorem segmentMerge_outcome (hne : xs ≠ []) (a b : UInt32) :
    (∀ (h : SegmentHeap) first last, Linked h first last xs →
      segmentMerge h first last a b = none) ∨
    ∃ L M R v, xs = L ++ (M ++ R) ∧ ∀ (h : SegmentHeap) first last, Linked h first last xs →
      (walkNext h (fun s => decide (s.val.endSeqnumInclusive < a)) (h.size + 1) first =
        some none → (h.fresh h.size).next = none) →
      (walkNext h (fun s => decide (s.val.endSeqnumInclusive < a)) (h.size + 1) first ≠
          some none →
        walkPrev h (fun s => decide (s.val.startSeqnumInclusive > b)) (h.size + 1) last =
          some none → (h.fresh h.size).prev = none) →
      ∃ h', segmentMerge h first last a b = some (h.size, h') ∧
        Inserted h h' h.size v (lastPtr none L) (headPtr R none) (ptrs M) ∧
        h'.size = h.size + 1 := by
  -- the scans split the list alike in every heap
  obtain ⟨A, B, hAB, hA, hB⟩ :=
    exists_front (fun x : Ptr × SegmentRange => decide (x.2.endSeqnumInclusive < a)) xs
  obtain ⟨C, D, hCD, hD, hC⟩ :=
    exists_back (fun x : Ptr × SegmentRange => decide (x.2.startSeqnumInclusive > b)) xs
  have hleft : ∀ {h first last}, Linked h first last xs →
      walkNext h (fun s => decide (s.val.endSeqnumInclusive < a)) (h.size + 1) first =
        some (headPtr B none) := fun hl =>
    (hAB ▸ hl).walkNext (c := fun v => decide (v.endSeqnumInclusive < a)) hA hB
  have hright : ∀ {h first last}, Linked h first last xs →
      walkPrev h (fun s => decide (s.val.startSeqnumInclusive > b)) (h.size + 1) last =
        some (lastPtr none C) := fun hl =>
    (hCD ▸ hl).walkPrev (c := fun v => decide (v.startSeqnumInclusive > b)) hD hC
  cases B with
  | nil =>
    -- right-most
    refine Or.inr ⟨xs, [], [], ⟨a, b⟩, by simp, fun h first last hl hnext _ => ?_⟩
    exact segmentMerge_right hl (hnext (hleft hl)) hne (hleft hl) (hright hl)
  | cons l B =>
    rcases List.eq_nil_or_concat C with rfl | ⟨C, r, rfl⟩
    · -- left-most
      refine Or.inr ⟨[], [], xs, ⟨a, b⟩, by simp, fun h first last hl _ hprev => ?_⟩
      have hnull := hprev (by rw [hleft hl]; simp) (hright hl)
      exact segmentMerge_left hl hnull hne (hleft hl) (hright hl)
    · rw [List.concat_eq_append] at *
      rcases scans_meet_or_cross (hAB.symm.trans hCD) with ⟨M, hM, hM'⟩ | ⟨M, hM, -, hD'⟩
      · -- the stretch between the scans, which is empty when they pass each other by one
        refine Or.inr ⟨A, M, D, mergedRange a b (M.map Prod.snd), by rw [← hM', ← hAB],
          fun h first last hl _ _ => ?_⟩
        exact segmentMerge_inside (by rw [← hM', ← hAB]; exact hl) (by rw [← hM]; simp)
          (by rw [← hM']; simp) (by rw [← hM']; exact hleft hl) (by rw [← hM]; exact hright hl)
      · -- the list is not sorted: `left_end` lies farther back
        refine Or.inl fun h first last hl => ?_
        refine segmentMerge_crossed (L := C) (R := B) (r := r) (l := l) ?_ hM
          (by rw [hleft hl, headPtr_cons]) (by rw [hright hl, lastPtr_concat])
        rwa [hCD, hD', List.append_assoc] at hl

/-- What follows `segment_merge` fails with the same fault on every heap, or leaves the same
    index and the same list in all of them. -/
theorem settleMerged_outcome (rb : RecvBuffer) (nextExpectedSeq : UInt32)
    {L M R : List (Ptr × SegmentRange)} {h₀ : SegmentHeap} {seg : Ptr} {v : SegmentRange}
    (hold : Linked h₀ rb.start rb.end (L ++ (M ++ R))) :
    (∃ f, ∀ h : SegmentHeap, Represents h (headPtr (L ++ (seg, v) :: R) none)
        (lastPtr none (L ++ (seg, v) :: R)) (L ++ (seg, v) :: R) →
      settleMerged { rb with heap := h } nextExpectedSeq seg = .error f) ∨
    ∃ idx ys, ∀ h : SegmentHeap, Represents h (headPtr (L ++ (seg, v) :: R) none)
        (lastPtr none (L ++ (seg, v) :: R)) (L ++ (seg, v) :: R) →
      ∃ heap, settleMerged { rb with heap := h } nextExpectedSeq seg = .ok { rb with
          nextByteExpectedIndex := idx, start := headPtr ys none, «end» := lastPtr none ys
          heap := heap } ∧
        Represents heap (headPtr ys none) (lastPtr none ys) ys ∧ heap.fresh = h.fresh ∧
        heap.size = h.size := by
  -- the index comes from the numbers of the buffer and of the node, not from the heap
  by_cases hle : v.startSeqnumInclusive ≤ nextExpectedSeq
  · cases hidx : seqnumToIndexRecv rb (v.endSeqnumInclusive + 1) with
    | error f =>
      refine Or.inl ⟨f, fun h hr => ?_⟩
      have hload : h.load seg = some ⟨v, lastPtr none L, headPtr R none⟩ := hr.chain.middle
      have hidx' : seqnumToIndexRecv { rb with heap := h } (v.endSeqnumInclusive + 1) =
        .error f := hidx
      simp only [settleMerged, orMemoryFault, hload, bind, Except.bind, if_pos hle, hidx']
    | ok idx =>
      refine Or.inr ⟨idx, L ++ R, fun h hr => ?_⟩
      rcases settleMerged_eq nextExpectedSeq hold hr.linked (fun _ => hidx) with
        ⟨_, heap, hsettle, hfresh, hsize, hlist, hframe⟩ | ⟨hgt, _⟩
      · refine ⟨heap, hsettle, hlist.represents hr fun p hp => ?_, hfresh, hsize⟩
        rw [hframe p hp]
        by_cases hseg : p = seg
        · exact Or.inl (if_pos hseg)
        · refine Or.inr ⟨?_, if_neg hseg⟩
          simp only [ptrs_append, ptrs_cons, List.mem_append, List.mem_cons, not_or] at hp ⊢
          exact ⟨hp.1, hseg, hp.2⟩
      · exact absurd hle (UInt32.not_le.mpr hgt)
  · refine Or.inr ⟨rb.nextByteExpectedIndex, L ++ (seg, v) :: R, fun h hr => ?_⟩
    have hnot : v.startSeqnumInclusive ≤ nextExpectedSeq →
        seqnumToIndexRecv rb (v.endSeqnumInclusive + 1) = .ok 0 := fun hle' => absurd hle' hle
    rcases settleMerged_eq nextExpectedSeq hold hr.linked hnot with ⟨hle', _⟩ | ⟨_, hsettle⟩
    · exact absurd hle' hle
    · exact ⟨h, hsettle, hr, rfl, rfl⟩

end Outcome

/-! ## Two buffers -/

/-- Two buffers that differ only in the allocators of their heaps, `f` and `g`: the lists
    consist of the same segments at the same addresses, and hold every node that is alive. -/
structure RecvBuffer.Twin (f g : Ptr → Segment) (rb rb' : RecvBuffer) : Prop where
  same : rb' = { rb with heap := rb'.heap }
  fresh : rb.heap.fresh = f
  fresh' : rb'.heap.fresh = g
  size : rb'.heap.size = rb.heap.size
  list : ∃ xs, Represents rb.heap rb.start rb.end xs ∧ Represents rb'.heap rb.start rb.end xs

namespace RecvBuffer.Twin

variable {f g : Ptr → Segment} {rb rb' : RecvBuffer}

theorem lists (h : rb.Twin f g rb') : ∃ xs, Represents rb.heap rb.start rb.end xs ∧
    Represents rb'.heap rb'.start rb'.end xs := by
  have hstart : rb'.start = rb.start := by rw [h.same]
  have hlast : rb'.end = rb.end := by rw [h.same]
  rw [hstart, hlast]
  exact h.list

/-- The first gap: nothing but the range of the new node is set. -/
theorem firstGap (h : rb.Twin f g rb') (hstart : rb.start = none)
    (hf : (f rb.heap.size).prev = none ∧ (f rb.heap.size).next = none)
    (hg : (g rb.heap.size).prev = none ∧ (g rb.heap.size).next = none) (v : SegmentRange)
    (buf : List UInt8) :
    ∃ heap heap', rb.heap.malloc.2.modify rb.heap.size (fun s => { s with val := v }) =
        some heap ∧
      rb'.heap.malloc.2.modify rb.heap.size (fun s => { s with val := v }) = some heap' ∧
      RecvBuffer.Twin f g
        { rb with buffer := buf, start := some rb.heap.size, «end» := some rb.heap.size
                  heap := heap }
        { rb with buffer := buf, start := some rb.heap.size, «end» := some rb.heap.size
                  heap := heap' } := by
  obtain ⟨xs, hl, hr⟩ := h.list
  -- both links of the only node are what `malloc` left
  obtain rfl : xs = [] := headPtr_eq_none.mp (hl.first_eq.symm.trans hstart)
  rw [← h.fresh] at hf
  rw [← h.fresh', ← h.size] at hg
  obtain ⟨heap, hmod, hins, hsize⟩ := malloc_inserted hf.1 hf.2 v
  obtain ⟨heap', hmod', hins', hsize'⟩ := malloc_inserted hg.1 hg.2 v
  have hl' := hins.represents (L := []) (M := []) (R := []) hl
  have hr' := hins'.represents (L := []) (M := []) (R := []) hr
  rw [h.size] at hmod' hr'
  refine ⟨heap, heap', hmod, hmod', rfl, hins.fresh.trans h.fresh, hins'.fresh.trans h.fresh', ?_,
    _, hl', hr'⟩
  rw [hsize, hsize', h.size]

/-- `segment_merge` fails in both, or what follows it agrees. -/
theorem merge (h : rb.Twin f g rb') (hstart : rb.start ≠ none) {a b : UInt32}
    (hf : rb.leftEnd a = some none → (f rb.heap.size).next = none)
    (hf' : rb.leftEnd a ≠ some none → rb.rightEnd b = some none →
      (f rb.heap.size).prev = none)
    (hg : rb.leftEnd a = some none → (g rb.heap.size).next = none)
    (hg' : rb.leftEnd a ≠ some none → rb.rightEnd b = some none →
      (g rb.heap.size).prev = none) (nextExpectedSeq : UInt32) :
    Option.Rel (fun x y => Agree (fun _ => True) (RecvBuffer.Twin f g)
        (settleMerged { rb with heap := x.2 } nextExpectedSeq x.1)
        (settleMerged { rb with heap := y.2 } nextExpectedSeq y.1))
      (segmentMerge rb.heap rb.start rb.end a b) (segmentMerge rb'.heap rb.start rb.end a b) := by
  -- both buffers have the list `xs`
  obtain ⟨xs, hl, hr⟩ := h.list
  have hne : xs ≠ [] := by
    rintro rfl
    exact hstart hl.first_eq
  -- the scans look at ranges only, so they stop at the same nodes
  have hleft := hl.linked.walkNext_congr hr.linked fun v => decide (v.endSeqnumInclusive < a)
  have hright := hl.linked.walkPrev_congr hr.linked fun v => decide (v.startSeqnumInclusive > b)
  -- the merge fails in both, or puts a node with the same range in the same place
  rcases segmentMerge_outcome hne a b with hfail | ⟨L, M, R, v, rfl, hok⟩
  · rw [hfail _ _ _ hl.linked, hfail _ _ _ hr.linked]
    exact .none
  -- the links that it does not set come as null from both allocators
  · rw [← h.fresh] at hf hf'
    rw [← h.fresh', ← h.size] at hg hg'
    obtain ⟨heap, hmerge, hins, hsize⟩ := hok _ _ _ hl.linked hf hf'
    obtain ⟨heap', hmerge', hins', hsize'⟩ := hok _ _ _ hr.linked (hleft ▸ hg)
      (hleft ▸ hright ▸ hg')
    have hl' := hins.represents hl
    have hr' := hins'.represents hr
    rw [h.size] at hmerge' hr'
    rw [hmerge, hmerge']
    refine .some ?_
    dsimp only
    -- what follows fails in both, or leaves the same list
    rcases settleMerged_outcome rb nextExpectedSeq hl.linked with ⟨e, hfault⟩ | ⟨idx, ys, hset⟩
    · rw [hfault heap hl', hfault heap' hr']
      exact .error trivial
    · obtain ⟨heap₁, hsettle, hlist, hfresh, hsize₁⟩ := hset heap hl'
      obtain ⟨heap₁', hsettle', hlist', hfresh', hsize₁'⟩ := hset heap' hr'
      rw [hsettle, hsettle']
      refine .ok ⟨rfl, hfresh.trans (hins.fresh.trans h.fresh),
        hfresh'.trans (hins'.fresh.trans h.fresh'), ?_, ys, hlist, hlist'⟩
      rw [hsize₁, hsize₁', hsize, hsize', h.size]

/-- `recv_buffer_receive` fails with the same fault in both, or keeps them twins. -/
theorem recvBufferReceive (h : rb.Twin f g rb') {seqnum len : UInt32} {data : List UInt8}
    (hf : rb.LeavesNull (f rb.heap.size) (.receive seqnum len data))
    (hg : rb.LeavesNull (g rb.heap.size) (.receive seqnum len data)) :
    Agree (fun _ => True) (RecvBuffer.Twin f g) (CmuTcp.recvBufferReceive rb seqnum len data)
      (CmuTcp.recvBufferReceive rb' seqnum len data) := by
  -- but for the heap the two buffers are one
  obtain ⟨heap', rfl⟩ : ∃ heap', rb' = { rb with heap := heap' } := ⟨_, h.same⟩
  unfold CmuTcp.recvBufferReceive
  refine (Agree.self (cAssert (recvBufferCanReceive rb seqnum len = 0) .recvBufferReceive)).bind ?_
  rintro _ _ rfl
  cases hstart : rb.start with
  | none =>
    dsimp only
    by_cases hle : seqnum ≤ getNextByteExpectedSeqnum rb
    · -- in-order data: the list is not touched
      have hle' : seqnum ≤ getNextByteExpectedSeqnum
          { rb with start := none, heap := heap' } := hle
      rw [if_pos hle, if_pos hle']
      refine (Agree.self (seqnumToIndexRecv rb seqnum)).bind ?_
      rintro startIndex _ rfl
      refine (Agree.self (safeMemcpyToRecvbuf rb startIndex len data)).bind ?_
      rintro buf _ rfl
      refine (Agree.self (seqnumToIndexRecv rb (seqnum + len))).bind ?_
      rintro idx _ rfl
      have hlist := h.list
      rw [hstart] at hlist
      exact .ok ⟨rfl, h.fresh, h.fresh', h.size, hlist⟩
    · have hle' : ¬ seqnum ≤ getNextByteExpectedSeqnum
          { rb with start := none, heap := heap' } := hle
      rw [if_neg hle, if_neg hle']
      refine (Agree.self (seqnumToIndexRecv rb seqnum)).bind ?_
      rintro startIndex _ rfl
      refine (Agree.self (safeMemcpyToRecvbuf rb startIndex len data)).bind ?_
      rintro buf _ rfl
      have hlt := UInt32.not_le.mp hle
      obtain ⟨heap₁, heap₁', hmod, hmod', htwin⟩ := h.firstGap hstart (hf.1 hstart hlt)
        (hg.1 hstart hlt) ⟨seqnum, seqnum + len - 1⟩ buf
      have hfst : heap'.malloc = (rb.heap.size, heap'.malloc.2) := Prod.ext h.size rfl
      rw [hfst]
      simp only [fst_malloc, hmod, hmod', orMemoryFault, bind, Except.bind, pure, Except.pure]
      exact .ok htwin
  | some first =>
    have hne : rb.start ≠ none := by simp [hstart]
    dsimp only
    rw [← hstart]
    have hmerge := agree_orMemoryFault (h.merge hne (hf.2.1 hne) (hf.2.2 hne) (hg.2.1 hne)
      (hg.2.2 hne) (getNextByteExpectedSeqnum rb))
    refine (hmerge.mono (fun _ _ => trivial) fun _ _ hxy => hxy).bind ?_
    rintro ⟨seg, heap₁⟩ ⟨seg', heap₁'⟩ hsettle
    refine hsettle.bind fun r r' htwin => ?_
    obtain ⟨heap₂', rfl⟩ : ∃ heap₂', r' = { r with heap := heap₂' } := ⟨_, htwin.same⟩
    refine (Agree.self (seqnumToIndexRecv r seqnum)).bind ?_
    rintro startIndex _ rfl
    refine (Agree.self (safeMemcpyToRecvbuf r startIndex len data)).bind ?_
    rintro buf _ rfl
    exact .ok ⟨rfl, htwin.fresh, htwin.fresh', htwin.size, htwin.list⟩

/-- `recv_buffer_read` does not look at the list. -/
theorem recvBufferRead (h : rb.Twin f g rb') (len : UInt32) :
    Agree (fun _ => True) (fun x y => x.1 = y.1 ∧ x.2.Twin f g y.2)
      (CmuTcp.recvBufferRead rb len) (CmuTcp.recvBufferRead rb' len) := by
  obtain ⟨heap', rfl⟩ : ∃ heap', rb' = { rb with heap := heap' } := ⟨_, h.same⟩
  unfold CmuTcp.recvBufferRead
  refine (Agree.self (cAssert (len ≤ recvBufferMaxRead rb) .recvBufferRead)).bind ?_
  rintro _ _ rfl
  by_cases hzero : len = 0
  · rw [if_pos hzero, if_pos hzero]
    exact .ok ⟨rfl, h⟩
  · rw [if_neg hzero, if_neg hzero]
    refine (Agree.self (safeMemcpyFromRecvbuf rb len)).bind ?_
    rintro data _ rfl
    exact .ok ⟨rfl, rfl, h.fresh, h.fresh', h.size, h.list⟩

/-- A call is not made in both, fails with the same fault in both, or keeps them twins. -/
theorem call (h : rb.Twin f g rb') {c : RecvCall} (hf : rb.LeavesNull (f rb.heap.size) c)
    (hg : rb.LeavesNull (g rb.heap.size) c) :
    Option.Rel (Agree (fun _ => True) (RecvBuffer.Twin f g)) (rb.call c) (rb'.call c) := by
  cases c with
  -- the guard of the call reads no node
  | receive seqnum len data =>
    have hreceive := h.recvBufferReceive hf hg
    obtain ⟨heap', rfl⟩ : ∃ heap', rb' = { rb with heap := heap' } := ⟨_, h.same⟩
    rw [RecvBuffer.call, RecvBuffer.call]
    by_cases hguard : 0 < len.toNat ∧ recvBufferCanReceive rb seqnum len = 0 ∧
        len.toNat ≤ data.length
    · have hguard' : 0 < len.toNat ∧
          recvBufferCanReceive { rb with heap := heap' } seqnum len = 0 ∧
          len.toNat ≤ data.length := hguard
      rw [if_pos hguard, if_pos hguard']
      exact .some hreceive
    · have hguard' : ¬ (0 < len.toNat ∧
          recvBufferCanReceive { rb with heap := heap' } seqnum len = 0 ∧
          len.toNat ≤ data.length) := hguard
      rw [if_neg hguard, if_neg hguard']
      exact .none
  -- neither does a read
  | read len =>
    have hread := h.recvBufferRead len
    obtain ⟨heap', rfl⟩ : ∃ heap', rb' = { rb with heap := heap' } := ⟨_, h.same⟩
    rw [RecvBuffer.call, RecvBuffer.call]
    by_cases hguard : len ≤ recvBufferMaxRead rb
    · have hguard' : len ≤ recvBufferMaxRead { rb with heap := heap' } := hguard
      rw [if_pos hguard, if_pos hguard']
      exact .some (hread.map fun x y hxy => hxy.2)
    · have hguard' : ¬ len ≤ recvBufferMaxRead { rb with heap := heap' } := hguard
      rw [if_neg hguard, if_neg hguard']
      exact .none

end RecvBuffer.Twin

/-! ## What can be seen -/

/-- `start->prev` and `end->next` are null, whenever the list is not empty. -/
def RecvBuffer.EndsNull (rb : RecvBuffer) : Prop :=
  ∀ p, rb.start = some p → ∃ q s t, rb.end = some q ∧ rb.heap.load p = some s ∧
    rb.heap.load q = some t ∧ s.prev = none ∧ t.next = none

/-- The two buffers expect the same byte, have the same bytes to read, and the same segments
    from `start` on; and both lists end in null pointers. -/
structure RecvBuffer.Agrees (rb rb' : RecvBuffer) : Prop where
  next : getNextByteExpectedSeqnum rb' = getNextByteExpectedSeqnum rb
  readable : readableBytes rb' = readableBytes rb
  read : ∀ len, (recvBufferRead rb' len).map Prod.fst = (recvBufferRead rb len).map Prod.fst
  segments : segmentList rb' = segmentList rb
  endsNull : rb.EndsNull
  endsNull' : rb'.EndsNull

section Seen

variable {f g : Ptr → Segment} {rb rb' : RecvBuffer} {xs : List (Ptr × SegmentRange)}

theorem endsNull_of_represents (hr : Represents rb.heap rb.start rb.end xs) : rb.EndsNull := by
  intro p hp
  rw [hr.first_eq] at hp
  cases xs with
  | nil => cases hp
  | cons x xs =>
    obtain ⟨ys, y, hxs⟩ := (List.eq_nil_or_concat (x :: xs)).resolve_left (by simp)
    rw [List.concat_eq_append] at hxs
    have hchain := hr.chain
    have hlast := hr.last_eq
    have hfirst := hchain.1
    rw [hxs] at hchain hlast
    rw [lastPtr_concat] at hlast
    obtain rfl : x.1 = p := Option.some.inj hp
    exact ⟨y.1, _, _, hlast, hfirst, hchain.middle, rfl, rfl⟩

/-- `recv_buffer_clean` frees every node, each of them once. -/
theorem recvBufferClean_of_represents (hr : Represents rb.heap rb.start rb.end xs) :
    ∃ heap, recvBufferClean rb = .ok heap ∧ ∀ p, heap.load p = none := by
  obtain ⟨heap, hclean, _, hload⟩ := segmentClean_linked hr.linked
  refine ⟨heap, by rw [recvBufferClean, hclean, orMemoryFault], fun p => ?_⟩
  rw [hload]
  by_cases hp : p ∈ ptrs xs
  · exact if_pos hp
  · rw [if_neg hp]
    -- what is not in the list is not alive
    cases hs : rb.heap.load p with
    | none => rfl
    | some s => exact absurd (hr.owned p s hs) hp

theorem RecvBuffer.Twin.agrees (h : rb.Twin f g rb') : rb.Agrees rb' := by
  have hread := fun len =>
    ((h.recvBufferRead len).map (f := Prod.fst) (g := Prod.fst) fun _ _ hxy => hxy.1).eq.symm
  obtain ⟨xs, hl, hr⟩ := h.lists
  refine ⟨?_, ?_, hread, ?_, endsNull_of_represents hl, endsNull_of_represents hr⟩
  · rw [h.same]
    rfl
  · rw [h.same]
    rfl
  · rw [segmentList_of_represents hl, segmentList_of_represents hr]

end Seen

section Runs

variable {capacity : UInt32} {mem : Garbage} {f g : Ptr → Segment} {isn : UInt32}

/-- **What `malloc` leaves in a node cannot be seen**: as long as the links that a call does
    not set come as null from both allocators, a run with the one is followed, call by call,
    by a run with the other that agrees with it; the next call has the same outcome, be it a
    fault; and `recv_buffer_clean` frees every node of both. -/
theorem malloc_irrelevant {tr : List (RecvBuffer × RecvCall)} {rb : RecvBuffer}
    (h : Run (recvCalls capacity mem f isn) (fun _ => True) tr rb)
    (hnull : ∀ p ∈ tr, p.1.LeavesNull (f p.1.heap.size) p.2 ∧
      p.1.LeavesNull (g p.1.heap.size) p.2) :
    ∃ tr' rb', Run (recvCalls capacity mem g isn) (fun _ => True) tr' rb' ∧
      List.Forall₂ (fun p q => q.2 = p.2 ∧ p.1.Agrees q.1) tr tr' ∧ rb.Agrees rb' ∧
      (∀ c, rb.LeavesNull (f rb.heap.size) c → rb.LeavesNull (g rb.heap.size) c →
        Option.Rel (Agree (fun _ => True) RecvBuffer.Agrees) (rb.call c) (rb'.call c)) ∧
      ∃ heap heap', recvBufferClean rb = .ok heap ∧ recvBufferClean rb' = .ok heap' ∧
        ∀ p, heap.load p = none ∧ heap'.load p = none := by
  -- two runs in lockstep, with `Twin` between their states
  obtain ⟨tr', rb', hrun, htr, htwin⟩ := run_lockstep (N := recvCalls capacity mem g isn)
    (T := RecvBuffer.Twin f g)
    (C := fun s c => s.LeavesNull (f s.heap.size) c ∧ s.LeavesNull (g s.heap.size) c) (by
      intro s hs
      obtain rfl := Except.ok.inj hs
      exact ⟨_, rfl, rfl, rfl, rfl, rfl, [], represents_empty f, represents_empty g⟩)
    (fun s t c hT hc => hT.call hc.1 hc.2) h hnull
  refine ⟨tr', rb', hrun, ?_, htwin.agrees, fun c hf hg => ?_, ?_⟩
  · exact htr.imp fun p q hpq => ⟨hpq.1, hpq.2.agrees⟩
  · exact rel_mono (htwin.call hf hg) fun _ _ hxy =>
      hxy.mono (fun _ _ => trivial) fun _ _ hT => hT.agrees
  -- the lists are of the same nodes, so cleaning frees the same
  · obtain ⟨xs, hl, hr⟩ := htwin.lists
    obtain ⟨heap, hclean, hdead⟩ := recvBufferClean_of_represents hl
    obtain ⟨heap', hclean', hdead'⟩ := recvBufferClean_of_represents hr
    exact ⟨heap, heap', hclean, hclean', fun p => ⟨hdead p, hdead' p⟩⟩

end Runs

/-- Nodes that come with numbers and links left over, except the first `n`, whose links are
    null. -/
def leftoverSegment (n : ℕ) (p : Ptr) : Segment :=
  if p < n then ⟨⟨7, 9⟩, none, none⟩ else ⟨⟨7, 9⟩, some 5, some 5⟩

/-- The same ring of four cells on zeroed memory, but for the nodes of the list. -/
def leftoverRecvCalls (n : ℕ) : System RecvBuffer RecvCall Fault :=
  recvCalls 4 (SocketEnv.zeroed 100).recvMem (leftoverSegment n) 100

/-- A gap and its filling: the second node comes with links, and the merge sets both. -/
theorem malloc_irrelevant_gap :
    ∃ tr rb tr' rb', Run smallRecvCalls (fun _ => True) tr rb ∧
      Run (leftoverRecvCalls 1) (fun _ => True) tr' rb' ∧
      List.Forall₂ (fun p q => q.2 = p.2 ∧ p.1.Agrees q.1) tr tr' ∧ rb.Agrees rb' ∧
      getNextByteExpectedSeqnum rb = 103 := by
  have hinit : Run smallRecvCalls (fun _ => True) [] _ := .init rfl trivial
  have hrun := hinit.exec
    ([.receive 102 1 [8], .receive 101 2 [7, 8], .read 1] : List RecvCall) rfl
  obtain ⟨tr', rb', hrun', htr, hagrees, _⟩ :=
    malloc_irrelevant (g := leftoverSegment 1) hrun (by decide)
  exact ⟨_, _, tr', rb', hrun, hrun', htr, hagrees, rfl⟩

theorem not_endsNull {rb : RecvBuffer} {p : Ptr} {s : Segment} (hp : rb.start = some p)
    (hs : rb.heap.load p = some s) (hprev : s.prev ≠ none) : ¬ rb.EndsNull := by
  intro hnull
  obtain ⟨_, s', _, _, hs', _, hprev', _⟩ := hnull p hp
  obtain rfl := Option.some.inj (hs.symm.trans hs')
  exact hprev hprev'

/-- The first gap on leftover links: they become `start->prev` and `end->next`, and with the
    next segment `segment_merge` follows them. -/
theorem malloc_seen :
    ∃ tr rb tr' rb', Run smallRecvCalls (fun _ => True) tr rb ∧
      Run (leftoverRecvCalls 0) (fun _ => True) tr' rb' ∧ tr'.map Prod.snd = tr.map Prod.snd ∧
      rb.EndsNull ∧ ¬ rb'.EndsNull ∧ ¬ rb.Agrees rb' ∧
      (∃ r, rb.call (.receive 103 1 [9]) = some (.ok r)) ∧
      rb'.call (.receive 103 1 [9]) = some (.error .memory) := by
  have hinit : Run smallRecvCalls (fun _ => True) [] _ := .init rfl trivial
  have hinit' : Run (leftoverRecvCalls 0) (fun _ => True) [] _ := .init rfl trivial
  have hrun := hinit.exec ([.receive 102 1 [8]] : List RecvCall) rfl
  have hrun' := hinit'.exec ([.receive 102 1 [8]] : List RecvCall) rfl
  refine ⟨_, _, _, _, hrun, hrun', rfl, ?_, ?_, fun hagrees => ?_, ⟨_, rfl⟩, rfl⟩
  · intro p hp
    obtain rfl := Option.some.inj hp
    exact ⟨0, _, _, rfl, rfl, rfl, rfl, rfl⟩
  · exact not_endsNull rfl rfl (by decide)
  · exact not_endsNull rfl rfl (by decide) hagrees.endsNull'

end CmuTcp
