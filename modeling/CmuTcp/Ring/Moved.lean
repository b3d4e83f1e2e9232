import Mathlib.Algebra.Ring.Int.Defs
import CmuTcp.Library.Lockstep
import CmuTcp.Ring.Recv

/-!
# Receive Buffers in Lockstep

Two receive buffers that differ by a shift of their sequence numbers: the same indices,
the same bytes, the same list of segments, and numbers that lie the same distance apart as
plain numbers.  Every operation keeps this, and fails in both or in neither, as long as no
number in use is the greatest of all.  The diagonal case, no shift, is an invariant of one
buffer that needs nothing to be known about the segments that arrive.

1. The functions on the segment list, by the rules of the lockstep library: they walk two
   heaps at once, and compare numbers that are `Carried` in the same way.
2. `RecvBuffer.Moved` is the relation of two buffers.  Everything that `recv_buffer.c`
   computes from indices is a distance, which is the same in both.
3. `RecvBuffer.Placed` says where the next byte expected is, in one buffer at a time; without
   it a number could wrap in one run and not in the other.
4. `RecvBuffer.Shifted` joins the two, and the guarded calls keep it.
-/

namespace CmuTcp

open FaultSystem Lockstep
open LinkedHeap (Ptr Node Heap)

/-! ## The segment list -/

section Merge

variable {R S : SegmentRange → SegmentRange → Prop} {h k : SegmentHeap} {a b c d : UInt32}

/-- Changing a link leaves the data of the nodes alone. -/
theorem rel_setPrev {Q : Ptr → SegmentRange → SegmentRange → Prop} (hrel : Heap.Rel Q h k)
    (p : Ptr) (q : Option Ptr) : Option.Rel (Heap.Rel Q)
      (h.modify p fun s => { s with prev := q }) (k.modify p fun s => { s with prev := q }) :=
  hrel.modify (fun _ _ hst => ⟨hst.val, rfl, hst.next⟩) fun _ _ _ _ hab => hab

theorem rel_setNext {Q : Ptr → SegmentRange → SegmentRange → Prop} (hrel : Heap.Rel Q h k)
    (p : Ptr) (q : Option Ptr) : Option.Rel (Heap.Rel Q)
      (h.modify p fun s => { s with next := q }) (k.modify p fun s => { s with next := q }) :=
  hrel.modify (fun _ _ hst => ⟨hst.val, hst.prev, rfl⟩) fun _ _ _ _ hab => hab

theorem freeUpTo_rel {Q : Ptr → SegmentRange → SegmentRange → Prop} (hrel : Heap.Rel Q h k)
    (rightEnd : Ptr) (fuel : ℕ) (leftEnd : Option Ptr) : Option.Rel (Heap.Rel Q)
      (freeUpTo rightEnd fuel h leftEnd) (freeUpTo rightEnd fuel k leftEnd) := by
  induction fuel generalizing h k leftEnd with
  | zero => exact .none
  | succ fuel ih =>
    unfold freeUpTo
    split
    · exact .some hrel
    · cases leftEnd with
      | none => exact .none
      | some p =>
        simp only [Option.bind_eq_bind, Option.bind_some]
        refine rel_bind (hrel.load p) fun s t hst => ?_
        rw [hst.prev]
        refine rel_bind (hrel.freePtr t.prev) fun h₁ k₁ hrel₁ => ?_
        refine rel_bind (hrel₁.load p) fun s₁ t₁ hst₁ => ?_
        rw [hst₁.next]
        exact ih hrel₁ t₁.next

theorem freeSwallowed_rel {Q : Ptr → SegmentRange → SegmentRange → Prop} (hrel : Heap.Rel Q h k)
    (leftEnd rightEnd : Ptr) : Option.Rel (Heap.Rel Q)
      (freeSwallowed h leftEnd rightEnd) (freeSwallowed k leftEnd rightEnd) := by
  unfold freeSwallowed
  split
  · exact hrel.free leftEnd
  · refine rel_bind (hrel.load leftEnd) fun s t hst => ?_
    rw [hst.next, hrel.size]
    refine rel_bind (freeUpTo_rel hrel rightEnd _ t.next) fun h₁ k₁ hrel₁ => ?_
    refine rel_bind (hrel₁.load rightEnd) fun s₁ t₁ hst₁ => ?_
    rw [hst₁.prev]
    exact rel_bind (hrel₁.freePtr t₁.prev) fun h₂ k₂ hrel₂ => hrel₂.free rightEnd

theorem segmentDisconnect_rel {Q : Ptr → SegmentRange → SegmentRange → Prop}
    (hrel : Heap.Rel Q h k) (seg : Ptr) :
    Option.Rel (Heap.Rel Q) (segmentDisconnect h seg) (segmentDisconnect k seg) := by
  refine rel_bind (hrel.load seg) fun s t hst => ?_
  rw [hst.prev, hst.next]
  refine rel_bind (hrel.modifyPtr fun _ _ _ hst => ⟨hst.val, hst.prev, rfl⟩) fun h₁ k₁ hrel₁ => ?_
  exact hrel₁.modifyPtr fun _ _ _ hst => ⟨hst.val, rfl, hst.next⟩

/-- `segment_merge` on related lists. -/
theorem segmentMerge_rel (hrel : Heap.Rel (fun _ => R) h k) (start «end» : Option Ptr)
    (hleft : ∀ v w, R v w → (v.endSeqnumInclusive < a ↔ w.endSeqnumInclusive < c))
    (hright : ∀ v w, R v w → (v.startSeqnumInclusive > b ↔ w.startSeqnumInclusive > d))
    (hnew : S ⟨a, b⟩ ⟨c, d⟩)
    (hhull : ∀ l l' r r', R l l' → R r r' →
      S ⟨min l.startSeqnumInclusive a, max r.endSeqnumInclusive b⟩
        ⟨min l'.startSeqnumInclusive c, max r'.endSeqnumInclusive d⟩) :
    Option.Rel (fun x y => x.1 = h.size ∧ y.1 = h.size ∧
      Heap.Rel (fun p v w => (p = h.size → S v w) ∧ (p ≠ h.size → R v w)) x.2 y.2)
      (segmentMerge h start «end» a b) (segmentMerge k start «end» c d) := by
  have hnext := hrel.walkNext (c := fun s => decide (s.val.endSeqnumInclusive < a))
    (d := fun s => decide (s.val.endSeqnumInclusive < c))
    (fun p s t hst => decide_eq_decide.mpr (hleft _ _ hst.val)) (h.size + 1) start
  have hprev := hrel.walkPrev (c := fun s => decide (s.val.startSeqnumInclusive > b))
    (d := fun s => decide (s.val.startSeqnumInclusive > d))
    (fun p s t hst => decide_eq_decide.mpr (hright _ _ hst.val)) (h.size + 1) «end»
  -- the new node, once its range is set
  have hmalloc := hrel.malloc
  have hfst : k.malloc = (h.size, k.malloc.2) := Prod.ext hrel.size.symm rfl
  have hval : ∀ v w, S v w → Option.Rel
      (Heap.Rel fun p v w => (p = h.size → S v w) ∧ (p ≠ h.size → R v w))
      (h.malloc.2.modify h.size fun s => { s with val := v })
      (k.malloc.2.modify h.size fun s => { s with val := w }) := by
    intro v w hvw
    refine hmalloc.modify (fun s t hst => ⟨⟨fun _ => hvw, fun hne => absurd rfl hne⟩, hst.prev,
      hst.next⟩) fun q hq a b hab => ⟨fun heq => absurd heq hq, fun _ => hab hq⟩
  unfold segmentMerge
  rw [hfst, ← hrel.size, ← hnext, ← hprev]
  cases hl : LinkedHeap.walkNext h (fun s => decide (s.val.endSeqnumInclusive < a))
      (h.size + 1) start with
  | none => exact .none
  | some leftEnd =>
    cases hr : LinkedHeap.walkPrev h (fun s => decide (s.val.startSeqnumInclusive > b))
        (h.size + 1) «end» with
    | none => exact .none
    | some rightEnd =>
      simp only [Option.bind_eq_bind, Option.bind_some]
      cases leftEnd with
      | none =>
        -- behind all segments, in both runs since the walks agree
        refine rel_bind (hval _ _ hnew) fun h₁ k₁ hrel₁ => ?_
        refine rel_bind (rel_setPrev hrel₁ h.size «end») fun h₂ k₂ hrel₂ => ?_
        cases «end» with
        | none => exact .none
        | some e =>
          simp only [Option.bind_some]
          refine rel_bind (rel_setNext hrel₂ e (some h.size)) fun h₃ k₃ hrel₃ => ?_
          exact .some ⟨rfl, rfl, hrel₃⟩
      | some leftEnd =>
        cases rightEnd with
        | none =>
          -- before all segments
          refine rel_bind (hval _ _ hnew) fun h₁ k₁ hrel₁ => ?_
          refine rel_bind (rel_setNext hrel₁ h.size start) fun h₂ k₂ hrel₂ => ?_
          cases start with
          | none => exact .none
          | some b =>
            simp only [Option.bind_some]
            refine rel_bind (rel_setPrev hrel₂ b (some h.size)) fun h₃ k₃ hrel₃ => ?_
            exact .some ⟨rfl, rfl, hrel₃⟩
        | some rightEnd =>
          have hlne := Heap.ne_size_of_live (Heap.live_of_walk hl)
          have hrne := Heap.ne_size_of_live (Heap.live_of_walk hr)
          refine rel_bind (hmalloc.load rightEnd) fun r r' hrr => ?_
          rw [hrr.next]
          split
          · -- between `right_end` and `left_end`
            refine rel_bind (hval _ _ hnew) fun h₁ k₁ hrel₁ => ?_
            refine rel_bind (rel_setNext hrel₁ h.size (some leftEnd)) fun h₂ k₂ hrel₂ => ?_
            refine rel_bind (rel_setPrev hrel₂ leftEnd (some h.size)) fun h₃ k₃ hrel₃ => ?_
            refine rel_bind (rel_setPrev hrel₃ h.size (some rightEnd)) fun h₄ k₄ hrel₄ => ?_
            refine rel_bind (rel_setNext hrel₄ rightEnd (some h.size)) fun h₅ k₅ hrel₅ => ?_
            exact .some ⟨rfl, rfl, hrel₅⟩
          · -- the hull replaces the segments from `left_end` to `right_end`
            refine rel_bind (hmalloc.load leftEnd) fun l l' hll => ?_
            have hS := hhull _ _ _ _ (hll.val hlne) (hrr.val hrne)
            refine rel_bind (hval _ _ hS) fun h₁ k₁ hrel₁ => ?_
            rw [hll.prev]
            refine rel_bind (rel_setNext hrel₁ h.size r'.next) fun h₂ k₂ hrel₂ => ?_
            refine rel_bind (hrel₂.modifyPtr fun _ _ _ hst => ⟨hst.val, rfl, hst.next⟩)
              fun h₃ k₃ hrel₃ => ?_
            refine rel_bind (rel_setPrev hrel₃ h.size l'.prev) fun h₄ k₄ hrel₄ => ?_
            refine rel_bind (hrel₄.modifyPtr fun _ _ _ hst => ⟨hst.val, hst.prev, rfl⟩)
              fun h₅ k₅ hrel₅ => ?_
            refine rel_bind (freeSwallowed_rel hrel₅ leftEnd rightEnd) fun h₆ k₆ hrel₆ => ?_
            exact .some ⟨rfl, rfl, hrel₆⟩

end Merge

/-! ## Numbers moved by the same distance -/

/-- `q'` is `q`, moved by `δ` as a plain number. -/
def Carried (δ : ℤ) (q q' : UInt32) : Prop := (q'.toNat : ℤ) = q.toNat + δ

theorem maximum_cases (a b : UInt32) : max a b = a ∨ max a b = b := by
  rcases Nat.le_total b.toNat a.toNat with hle | hle
  · refine Or.inl (UInt32.toNat_inj.mp ?_)
    rw [toNat_max, Nat.max_eq_left hle]
  · refine Or.inr (UInt32.toNat_inj.mp ?_)
    rw [toNat_max, Nat.max_eq_right hle]

namespace Carried

variable {δ : ℤ} {p p' q q' : UInt32}

theorem self (q : UInt32) : Carried 0 q q := (Int.add_zero _).symm

theorem le_iff (hp : Carried δ p p') (hq : Carried δ q q') : p ≤ q ↔ p' ≤ q' := by
  unfold Carried at hp hq
  rw [UInt32.le_iff_toNat_le, UInt32.le_iff_toNat_le]
  omega

theorem lt_iff (hp : Carried δ p p') (hq : Carried δ q q') : p < q ↔ p' < q' := by
  unfold Carried at hp hq
  rw [UInt32.lt_iff_toNat_lt, UInt32.lt_iff_toNat_lt]
  omega

/-- The distance stays the same. -/
theorem sub_eq (hp : Carried δ p p') (hq : Carried δ q q') : p' - q' = p - q := by
  unfold Carried at hp hq
  apply UInt32.toNat_inj.mp
  have := q.toNat_lt
  have := q'.toNat_lt
  rw [UInt32.toNat_sub, UInt32.toNat_sub]
  omega

theorem add (hq : Carried δ q q') {n : UInt32} (hlt : q.toNat + n.toNat < 2 ^ 32)
    (hlt' : q'.toNat + n.toNat < 2 ^ 32) : Carried δ (q + n) (q' + n) := by
  unfold Carried at hq ⊢
  rw [UInt32.toNat_add, UInt32.toNat_add, Nat.mod_eq_of_lt hlt, Nat.mod_eq_of_lt hlt']
  omega

theorem minimum (hp : Carried δ p p') (hq : Carried δ q q') :
    Carried δ (min p q) (min p' q') := by
  unfold Carried at hp hq ⊢
  rw [toNat_min, toNat_min]
  omega

theorem maximum (hp : Carried δ p p') (hq : Carried δ q q') :
    Carried δ (max p q) (max p' q') := by
  unfold Carried at hp hq ⊢
  rw [toNat_max, toNat_max]
  omega

end Carried

/-! ## Receive buffers in lockstep -/

/-- The same segment in both runs; its last number satisfies `Q`. -/
structure SegmentRange.Moved (δ : ℤ) (Q : UInt32 → Prop) (v w : SegmentRange) : Prop where
  start : Carried δ v.startSeqnumInclusive w.startSeqnumInclusive
  last : Carried δ v.endSeqnumInclusive w.endSeqnumInclusive
  bound : Q v.endSeqnumInclusive

/-- Receive buffers that differ in their sequence numbers only. -/
structure RecvBuffer.Moved (δ : ℤ) (Q : UInt32 → Prop) (rb rb' : RecvBuffer) : Prop where
  capacity : rb'.capacity = rb.capacity
  read : Carried δ rb.lastByteReadSeqnum rb'.lastByteReadSeqnum
  readIndex : rb'.lastByteReadIndex = rb.lastByteReadIndex
  nextIndex : rb'.nextByteExpectedIndex = rb.nextByteExpectedIndex
  buffer : rb'.buffer = rb.buffer
  start : rb'.start = rb.start
  last : rb'.end = rb.end
  heap : Heap.Rel (fun _ => SegmentRange.Moved δ Q) rb.heap rb'.heap

/-- `next_byte_expected` has not wrapped around. -/
def RecvBuffer.Ordered (rb : RecvBuffer) : Prop :=
  rb.lastByteReadSeqnum < getNextByteExpectedSeqnum rb

/-- What `recv_buffer_receive` leaves alone, and where it puts the next byte expected. -/
structure RecvBuffer.Took (rb : RecvBuffer) (Q : UInt32 → Prop) (r : RecvBuffer) : Prop where
  capacity : r.capacity = rb.capacity
  read : r.lastByteReadSeqnum = rb.lastByteReadSeqnum
  readIndex : r.lastByteReadIndex = rb.lastByteReadIndex
  next : r.nextByteExpectedIndex = rb.nextByteExpectedIndex ∨
    ∃ e, Q e ∧ rb.lastByteReadSeqnum < e ∧ r.nextByteExpectedIndex =
      (rb.lastByteReadIndex + (e + 1 - rb.lastByteReadSeqnum)) % rb.capacity

theorem failsOnly_memcpyTo (dst : List UInt8) (dstOff : UInt32) (src : List UInt8)
    (srcOff len : UInt32) : FailsOnly (· = .memory) (memcpyTo dst dstOff src srcOff len) :=
  .ite (.ok _) (.error rfl)

theorem failsOnly_safeMemcpyToRecvbuf (rb : RecvBuffer) (startIndex len : UInt32)
    (data : List UInt8) :
    FailsOnly (· = .memory) (safeMemcpyToRecvbuf rb startIndex len data) :=
  .ite (failsOnly_memcpyTo ..) (.bind (failsOnly_memcpyTo ..) fun _ => failsOnly_memcpyTo ..)

theorem agree_orMemoryFault {α β : Type} {R : α → β → Prop} {x : Option α} {y : Option β}
    (h : Option.Rel R x y) : Agree (· = .memory) R (orMemoryFault x) (orMemoryFault y) := by
  cases h with
  | some hab => exact .ok hab
  | none => exact .error rfl

namespace RecvBuffer.Moved

variable {δ : ℤ} {Q : UInt32 → Prop} {rb rb' : RecvBuffer}

/-- The next byte expected is as far from the last byte read in both. -/
theorem next_sub (h : rb.Moved δ Q rb') :
    getNextByteExpectedSeqnum rb' - rb'.lastByteReadSeqnum =
      getNextByteExpectedSeqnum rb - rb.lastByteReadSeqnum := by
  unfold getNextByteExpectedSeqnum
  rw [h.readIndex, h.nextIndex, h.capacity]
  split
  · rw [UInt32.add_sub_cancel, UInt32.add_sub_cancel]
  · rw [UInt32.add_sub_cancel, UInt32.add_sub_cancel]

theorem next (h : rb.Moved δ Q rb') (hord : rb.Ordered) (hord' : rb'.Ordered) :
    Carried δ (getNextByteExpectedSeqnum rb) (getNextByteExpectedSeqnum rb') := by
  have hsub := congrArg UInt32.toNat h.next_sub
  have hread := h.read
  unfold RecvBuffer.Ordered at hord hord'
  unfold Carried at hread ⊢
  rw [UInt32.lt_iff_toNat_lt] at hord hord'
  rw [UInt32.toNat_sub, UInt32.toNat_sub] at hsub
  have hlt := (getNextByteExpectedSeqnum rb).toNat_lt
  have hlt' := (getNextByteExpectedSeqnum rb').toNat_lt
  omega

/-- `recv_buffer_can_receive` gives the same answer. -/
theorem canReceive (h : rb.Moved δ Q rb') (hord : rb.Ordered) (hord' : rb'.Ordered)
    {seqnum seqnum' len : UInt32} (hseq : Carried δ seqnum seqnum')
    (hlast : rb.lastByteReadSeqnum < seqnum →
      Carried δ (seqnum + len - 1) (seqnum' + len - 1)) :
    recvBufferCanReceive rb' seqnum' len = recvBufferCanReceive rb seqnum len := by
  unfold recvBufferCanReceive
  by_cases hlow : seqnum ≤ rb.lastByteReadSeqnum
  · rw [if_pos hlow, if_pos ((hseq.le_iff h.read).mp hlow)]
  · have hlast := hlast (UInt32.not_le.mp hlow)
    rw [if_neg hlow, if_neg (mt (hseq.le_iff h.read).mpr hlow)]
    simp only [← hlast.lt_iff (h.next hord hord'), hlast.sub_eq h.read, h.capacity]

/-- `seqnum_to_index_recv` gives the same index. -/
theorem seqnumToIndexRecv (h : rb.Moved δ Q rb') {q q' : UInt32} (hq : Carried δ q q')
    (hle : rb.lastByteReadSeqnum ≤ q) : ∃ idx,
      idx = (rb.lastByteReadIndex + (q - rb.lastByteReadSeqnum)) % rb.capacity ∧
      CmuTcp.seqnumToIndexRecv rb q = .ok idx ∧ CmuTcp.seqnumToIndexRecv rb' q' = .ok idx := by
  refine ⟨_, rfl, ?_, ?_⟩
  · unfold CmuTcp.seqnumToIndexRecv
    rw [cAssert_of hle]
    rfl
  · unfold CmuTcp.seqnumToIndexRecv
    rw [cAssert_of ((h.read.le_iff hq).mp hle), h.readIndex, h.capacity, hq.sub_eq h.read]
    rfl

/-- The copy into the ring is the same. -/
theorem safeMemcpyToRecvbuf (h : rb.Moved δ Q rb') (startIndex len : UInt32)
    (data : List UInt8) : CmuTcp.safeMemcpyToRecvbuf rb' startIndex len data =
      CmuTcp.safeMemcpyToRecvbuf rb startIndex len data := by
  unfold CmuTcp.safeMemcpyToRecvbuf
  rw [h.capacity, h.buffer]

/-- The part of `recv_buffer_receive` behind `segment_merge`, for a merged segment that ends
    behind the last byte read. -/
theorem settleMerged (h : rb.Moved δ Q rb')
    (hQ : ∀ e e', Q e → Carried δ e e' → e.toNat + 1 < 2 ^ 32 ∧ e'.toNat + 1 < 2 ^ 32)
    {next next' : UInt32} (hnext : Carried δ next next') {seg : Ptr}
    (hseg : ∀ s, rb.heap.load seg = some s → rb.lastByteReadSeqnum < s.val.endSeqnumInclusive) :
    Agree (· = .memory) (fun r r' => r.Moved δ Q r' ∧ rb.Took Q r)
      (CmuTcp.settleMerged rb next seg) (CmuTcp.settleMerged rb' next' seg) := by
  unfold CmuTcp.settleMerged
  -- the two loads find related nodes, or none
  rcases rel_cases (h.heap.load seg) with ⟨hs, ht⟩ | ⟨s, t, hs, ht, hst⟩
  · rw [hs, ht]
    exact .error rfl
  · rw [hs, ht]
    -- the merged segment ends behind the last byte read, and its end is not the greatest number
    have hlow := hseg s hs
    obtain ⟨hmax, hmax'⟩ := hQ _ _ hst.val.bound hst.val.last
    have hend : Carried δ (s.val.endSeqnumInclusive + 1) (t.val.endSeqnumInclusive + 1) :=
      hst.val.last.add hmax hmax'
    have hle : rb.lastByteReadSeqnum ≤ s.val.endSeqnumInclusive + 1 := by
      rw [UInt32.lt_iff_toNat_lt] at hlow
      rw [UInt32.le_iff_toNat_le, UInt32.toNat_add, UInt32.toNat_one]
      omega
    -- so the index after it is the same in both runs
    obtain ⟨idx, hidx, hok, hok'⟩ := h.seqnumToIndexRecv hend hle
    simp only [orMemoryFault, bind, Except.bind]
    -- the merged segment continues the in-order data: it is handed over and freed
    by_cases hin : s.val.startSeqnumInclusive ≤ next
    · rw [if_pos hin, if_pos ((hst.val.start.le_iff hnext).mp hin), hok, hok', hst.prev, hst.next,
        h.start, h.last]
      refine (agree_orMemoryFault (segmentDisconnect_rel h.heap seg)).bind fun h₁ k₁ hrel₁ => ?_
      refine (agree_orMemoryFault (hrel₁.free seg)).bind fun h₂ k₂ hrel₂ => ?_
      refine .ok ⟨⟨h.capacity, h.read, h.readIndex, rfl, h.buffer, rfl, rfl, hrel₂⟩, ?_⟩
      exact ⟨rfl, rfl, rfl, Or.inr ⟨_, hst.val.bound, hlow, hidx⟩⟩
    -- otherwise it stays in the list
    · rw [if_neg hin, if_neg (mt (hst.val.start.le_iff hnext).mpr hin), hst.prev, hst.next,
        h.start, h.last]
      refine .ok ⟨⟨h.capacity, h.read, h.readIndex, h.nextIndex, h.buffer, rfl, rfl, h.heap⟩, ?_⟩
      exact ⟨rfl, rfl, rfl, Or.inl rfl⟩

/-- A copy into the ring, and what follows it. -/
theorem copyThen (h : rb.Moved δ Q rb') {startIndex len : UInt32} {data : List UInt8}
    {α β : Type} {R : α → β → Prop} {f : List UInt8 → Except Fault α}
    {g : List UInt8 → Except Fault β} (hfg : ∀ buf, Agree (· = .memory) R (f buf) (g buf)) :
    Agree (· = .memory) R (CmuTcp.safeMemcpyToRecvbuf rb startIndex len data >>= f)
      (CmuTcp.safeMemcpyToRecvbuf rb' startIndex len data >>= g) := by
  rw [h.safeMemcpyToRecvbuf]
  refine (Agree.refl (failsOnly_safeMemcpyToRecvbuf rb startIndex len data)).bind ?_
  rintro buf _ rfl
  exact hfg buf

/-- The segment put into the list: the merged node ends where the segment ends, or later. -/
theorem segmentMerge (h : rb.Moved δ Q rb') {seqnum seqnum' lastSeq lastSeq' : UInt32}
    (hseq : Carried δ seqnum seqnum') (hlast : Carried δ lastSeq lastSeq') (hend : Q lastSeq) :
    Option.Rel (fun x y => y.1 = x.1 ∧
        RecvBuffer.Moved δ Q { rb with heap := x.2 } { rb' with heap := y.2 } ∧
        ∀ s, x.2.load x.1 = some s → lastSeq ≤ s.val.endSeqnumInclusive)
      (CmuTcp.segmentMerge rb.heap rb.start rb.end seqnum lastSeq)
      (CmuTcp.segmentMerge rb'.heap rb'.start rb'.end seqnum' lastSeq') := by
  rw [h.start, h.last]
  -- the relation on ranges also says that the new node ends no earlier than the segment
  have hmerge := segmentMerge_rel h.heap rb.start rb.end
    (S := fun v w => SegmentRange.Moved δ Q v w ∧ lastSeq ≤ v.endSeqnumInclusive)
    (a := seqnum) (b := lastSeq) (c := seqnum') (d := lastSeq')
    (fun v w hvw => hvw.last.lt_iff hseq) (fun v w hvw => hlast.lt_iff hvw.start)
    -- the hull of related segments is related
    ⟨⟨hseq, hlast, hend⟩, UInt32.le_refl _⟩ fun l l' r r' hl hr => by
      refine ⟨⟨hl.start.minimum hseq, hr.last.maximum hlast, ?_⟩, ?_⟩
      · show Q (max r.endSeqnumInclusive lastSeq)
        rcases maximum_cases r.endSeqnumInclusive lastSeq with hmax | hmax
        · rw [hmax]
          exact hr.bound
        · rwa [hmax]
      · rw [UInt32.le_iff_toNat_le, toNat_max]
        exact le_max_right _ _
  apply rel_mono hmerge
  rintro ⟨seg, h₁⟩ ⟨seg', k₁⟩ ⟨rfl, hseg', hrel⟩
  refine ⟨hseg', ⟨h.capacity, h.read, h.readIndex, h.nextIndex, h.buffer, rfl, rfl, ?_⟩, ?_⟩
  -- the merged node is where `malloc` has put it, and the others are as before
  · refine hrel.mono fun p v w hvw => ?_
    by_cases hp : p = rb.heap.size
    · exact (hvw.1 hp).1
    · exact hvw.2 hp
  -- its end was part of the relation
  · intro s hs
    have hload := hrel.load rb.heap.size
    rw [hs] at hload
    rcases rel_cases hload with ⟨hnone, _⟩ | ⟨_, t, hs', _, hst⟩
    · exact absurd hnone (by simp)
    · obtain rfl := Option.some.inj hs'
      exact (hst.val.1 rfl).2

/-- `recv_buffer_receive` behind its guard. -/
theorem recvBufferReceive (h : rb.Moved δ Q rb') (hord : rb.Ordered) (hord' : rb'.Ordered)
    (hQ : ∀ e e', Q e → Carried δ e e' → e.toNat + 1 < 2 ^ 32 ∧ e'.toNat + 1 < 2 ^ 32)
    {seqnum seqnum' len : UInt32} (hseq : Carried δ seqnum seqnum')
    (hlast : Carried δ (seqnum + len - 1) (seqnum' + len - 1))
    (hcan : recvBufferCanReceive rb seqnum len = 0) (hend : Q (seqnum + len - 1))
    (data : List UInt8) :
    Agree (· = .memory) (fun r r' => r.Moved δ Q r' ∧ rb.Took Q r)
      (CmuTcp.recvBufferReceive rb seqnum len data)
      (CmuTcp.recvBufferReceive rb' seqnum' len data) := by
  have hcan' : recvBufferCanReceive rb' seqnum' len = 0 :=
    (h.canReceive hord hord' hseq fun _ => hlast).trans hcan
  have hnext := h.next hord hord'
  obtain ⟨hlow, hnew, _⟩ := recvBufferCanReceive_eq_zero_iff.mp hcan
  have hread : rb.lastByteReadSeqnum < seqnum + len - 1 := UInt32.lt_of_lt_of_le hord hnew
  obtain ⟨i, _, hi, hi'⟩ := h.seqnumToIndexRecv hseq (UInt32.le_of_lt hlow)
  unfold CmuTcp.recvBufferReceive
  rw [cAssert_of hcan, cAssert_of hcan', h.start]
  cases hstart : rb.start with
  | none =>
    by_cases hin : seqnum ≤ getNextByteExpectedSeqnum rb
    · -- in-order data: the index behind the segment is computed as well
      have hsucc : ∀ q : UInt32, q + len = q + len - 1 + 1 := fun q =>
        (UInt32.sub_add_cancel _ _).symm
      obtain ⟨hmax, hmax'⟩ := hQ _ _ hend hlast
      have hle : rb.lastByteReadSeqnum ≤ seqnum + len := by
        rw [hsucc, UInt32.le_iff_toNat_le, UInt32.toNat_add, UInt32.toNat_one]
        rw [UInt32.lt_iff_toNat_lt] at hread
        omega
      have hafter : Carried δ (seqnum + len) (seqnum' + len) := by
        rw [hsucc, hsucc seqnum']
        exact hlast.add hmax hmax'
      obtain ⟨j, hj, hjok, hjok'⟩ := h.seqnumToIndexRecv hafter hle
      simp only [bind, Except.bind, if_pos hin, if_pos ((hseq.le_iff hnext).mp hin), hi, hi', hjok,
        hjok']
      refine h.copyThen fun buf => ?_
      refine .ok ⟨⟨h.capacity, h.read, h.readIndex, rfl, rfl, rfl, h.last, h.heap⟩, ?_⟩
      exact ⟨rfl, rfl, rfl, Or.inr ⟨_, hend, hread, by rw [hj, ← hsucc]⟩⟩
    · -- the first gap: the segment becomes the only node
      simp only [bind, Except.bind, if_neg hin, if_neg (mt (hseq.le_iff hnext).mpr hin), hi, hi']
      refine h.copyThen fun buf => ?_
      have hfst : rb'.heap.malloc = (rb.heap.size, rb'.heap.malloc.2) :=
        Prod.ext h.heap.size.symm rfl
      rw [hfst]
      have hset := h.heap.malloc.modify (T := fun _ => SegmentRange.Moved δ Q)
        (p := rb.heap.size) (f := fun s => { s with val := ⟨seqnum, seqnum + len - 1⟩ })
        (g := fun s => { s with val := ⟨seqnum', seqnum' + len - 1⟩ })
        (fun s t hst => ⟨⟨hseq, hlast, hend⟩, hst.prev, hst.next⟩) fun q hq a b hab => hab hq
      refine (agree_orMemoryFault hset).bind fun h₁ k₁ hrel₁ => ?_
      refine .ok ⟨⟨h.capacity, h.read, h.readIndex, h.nextIndex, rfl, rfl, rfl, hrel₁⟩, ?_⟩
      exact ⟨rfl, rfl, rfl, Or.inl rfl⟩
  | some first =>
    -- the data is copied only after the list and the next byte expected are settled
    have hmerge := h.segmentMerge hseq hlast hend
    rw [h.start, hstart] at hmerge
    refine (agree_orMemoryFault hmerge).bind ?_
    rintro ⟨seg, h₁⟩ ⟨seg', k₁⟩ ⟨rfl, hmoved, hbehind⟩
    refine (hmoved.settleMerged hQ hnext fun s hs =>
      UInt32.lt_of_lt_of_le hread (hbehind s hs)).bind fun r r' hr => ?_
    obtain ⟨hr, htook⟩ := hr
    obtain ⟨j, _, hj, hj'⟩ := hr.seqnumToIndexRecv hseq
      (by rw [htook.read]; exact UInt32.le_of_lt hlow)
    simp only [bind, Except.bind, hj, hj']
    refine hr.copyThen fun buf => ?_
    refine .ok ⟨⟨hr.capacity, hr.read, hr.readIndex, hr.nextIndex, rfl, hr.start, hr.last,
      hr.heap⟩, ?_⟩
    exact ⟨htook.capacity, htook.read, htook.readIndex, htook.next⟩

end RecvBuffer.Moved

/-! ## Where the next byte expected is -/

/-- The next byte expected is the `d`-th after the last byte read, and no number up to it
    has wrapped around. -/
structure RecvBuffer.Placed (rb : RecvBuffer) (d : ℕ) : Prop where
  capacity_le : rb.capacity.toNat ≤ 2 ^ 31
  readIndex : rb.lastByteReadIndex.toNat < rb.capacity.toNat
  nextIndex : rb.nextByteExpectedIndex.toNat =
    (rb.lastByteReadIndex.toNat + d) % rb.capacity.toNat
  pos : 1 ≤ d
  le : d ≤ rb.capacity.toNat
  fits : rb.lastByteReadSeqnum.toNat + d < 2 ^ 32

namespace RecvBuffer.Placed

variable {rb r : RecvBuffer} {d : ℕ}

theorem next (h : rb.Placed d) :
    (getNextByteExpectedSeqnum rb).toNat = rb.lastByteReadSeqnum.toNat + d := by
  have hcap := h.capacity_le
  have hread := h.readIndex
  have hfits := h.fits
  have hdist := CircularBuffer.forward_distance_pos (C := rb.capacity.toNat)
    (a := rb.lastByteReadIndex.toNat) (s := rb.lastByteReadIndex.toNat + d)
    (Nat.lt_add_of_pos_right h.pos) (Nat.add_le_add_left h.le _)
  rw [← h.nextIndex, Nat.mod_eq_of_lt hread] at hdist
  unfold getNextByteExpectedSeqnum
  split
  · rename_i hgt
    rw [gt_iff_lt, UInt32.lt_iff_toNat_lt] at hgt
    rw [if_pos hgt] at hdist
    rw [UInt32.toNat_add, UInt32.toNat_sub]
    omega
  · rename_i hgt
    rw [gt_iff_lt, UInt32.lt_iff_toNat_lt] at hgt
    rw [if_neg hgt] at hdist
    simp only [UInt32.toNat_add, UInt32.toNat_sub, UInt32.toNat_one]
    omega

theorem ordered (h : rb.Placed d) : rb.Ordered := by
  have hpos := h.pos
  unfold RecvBuffer.Ordered
  rw [UInt32.lt_iff_toNat_lt, h.next]
  omega

/-- A buffer with the same indices. -/
theorem of_indices (h : rb.Placed d) (hcap : r.capacity = rb.capacity)
    (hread : r.lastByteReadIndex = rb.lastByteReadIndex)
    (hnext : r.nextByteExpectedIndex = rb.nextByteExpectedIndex)
    (hfits : r.lastByteReadSeqnum.toNat + d < 2 ^ 32) : r.Placed d :=
  ⟨hcap ▸ h.capacity_le, by rw [hread, hcap]; exact h.readIndex,
    by rw [hnext, hread, hcap]; exact h.nextIndex, h.pos, hcap ▸ h.le, hfits⟩

/-- The guard of `recv_buffer_receive` bounds the end of the segment. -/
theorem of_canReceive (h : rb.Placed d) {seqnum len : UInt32}
    (hcan : recvBufferCanReceive rb seqnum len = 0) :
    rb.lastByteReadSeqnum < seqnum ∧
      rb.lastByteReadSeqnum.toNat + d ≤ (seqnum + len - 1).toNat ∧
      (seqnum + len - 1).toNat < rb.lastByteReadSeqnum.toNat + rb.capacity.toNat := by
  obtain ⟨hlow, hnew, hlong⟩ := recvBufferCanReceive_eq_zero_iff.mp hcan
  have hlt := (seqnum + len - 1).toNat_lt
  rw [UInt32.le_iff_toNat_le, h.next] at hnew
  rw [UInt32.lt_iff_toNat_lt, UInt32.toNat_sub] at hlong
  exact ⟨hlow, hnew, by omega⟩

/-- A successful `recv_buffer_receive` places it behind one of the ends `Q`, or leaves it. -/
theorem took (h : rb.Placed d) {Q : UInt32 → Prop} (htook : rb.Took Q r)
    (hQ : ∀ e, Q e → e.toNat + 1 < 2 ^ 32 ∧
      e.toNat < rb.lastByteReadSeqnum.toNat + rb.capacity.toNat) :
    ∃ d', r.Placed d' ∧
      (d' = d ∨ ∃ e, Q e ∧ rb.lastByteReadSeqnum.toNat + d' = e.toNat + 1) := by
  -- the next byte expected stays, or is put behind a segment
  rcases htook.next with hsame | ⟨e, he, hlow, hnext⟩
  · exact ⟨d, h.of_indices htook.capacity htook.readIndex hsame (htook.read ▸ h.fits), Or.inl rfl⟩
  · obtain ⟨hmax, hbound⟩ := hQ e he
    have hcap := h.capacity_le
    have hread := h.readIndex
    rw [UInt32.lt_iff_toNat_lt] at hlow
    -- then it is as far behind the last byte read as the end of that segment
    refine ⟨e.toNat + 1 - rb.lastByteReadSeqnum.toNat, ⟨?_, ?_, ?_, ?_, ?_, ?_⟩,
      Or.inr ⟨e, he, by omega⟩⟩
    · rw [htook.capacity]
      exact hcap
    · rw [htook.capacity, htook.readIndex]
      exact hread
    · rw [htook.capacity, htook.readIndex, hnext, UInt32.toNat_mod, UInt32.toNat_add,
        UInt32.toNat_sub, UInt32.toNat_add, UInt32.toNat_one]
      congr 1
      omega
    · omega
    · rw [htook.capacity]
      omega
    · rw [htook.read]
      omega

/-- A read of at most `recv_buffer_max_read` bytes. -/
theorem consume (h : rb.Placed d) {len : UInt32} (hlen : len.toNat < d) :
    RecvBuffer.Placed { rb with
      lastByteReadSeqnum := rb.lastByteReadSeqnum + len
      lastByteReadIndex := (rb.lastByteReadIndex + len) % rb.capacity } (d - len.toNat) := by
  have hcap := h.capacity_le
  have hread := h.readIndex
  have hfits := h.fits
  have hle := h.le
  -- no index overflows
  have hsum : (rb.lastByteReadIndex + len).toNat = rb.lastByteReadIndex.toNat + len.toNat := by
    rw [UInt32.toNat_add]
    omega
  -- the next byte expected stays where it is, so it is nearer by what is read
  have hindex : ((rb.lastByteReadIndex + len) % rb.capacity).toNat =
      (rb.lastByteReadIndex.toNat + len.toNat) % rb.capacity.toNat := by
    rw [UInt32.toNat_mod, hsum]
  refine ⟨hcap, ?_, ?_, by omega, ?_, ?_⟩
  · rw [hindex]
    exact Nat.mod_lt _ (by omega)
  · rw [hindex, Nat.mod_add_mod, h.nextIndex]
    congr 1
    omega
  · show d - len.toNat ≤ rb.capacity.toNat
    omega
  · show (rb.lastByteReadSeqnum + len).toNat + (d - len.toNat) < 2 ^ 32
    rw [UInt32.toNat_add]
    omega

end RecvBuffer.Placed

/-! ## Steps in lockstep -/

/-- A number that may be the last one of a segment: it is in the window, and not the
    greatest of all in either run. -/
def RecvBuffer.Keeps (δ : ℤ) (rb : RecvBuffer) (e : UInt32) : Prop :=
  e.toNat + 1 < 2 ^ 32 ∧ (e.toNat : ℤ) + δ + 1 < 2 ^ 32 ∧
    e.toNat < rb.lastByteReadSeqnum.toNat + rb.capacity.toNat

/-- Receive buffers that differ by the shift of their sequence numbers, none of which has
    wrapped around. -/
structure RecvBuffer.Shifted (δ : ℤ) (rb rb' : RecvBuffer) : Prop where
  moved : rb.Moved δ (rb.Keeps δ) rb'
  placed : ∃ d, rb.Placed d ∧ rb'.Placed d

theorem RecvBuffer.Moved.mono {δ : ℤ} {Q Q' : UInt32 → Prop} {rb rb' : RecvBuffer}
    (h : rb.Moved δ Q rb') (hQ : ∀ e, Q e → Q' e) : rb.Moved δ Q' rb' :=
  { h with heap := h.heap.mono fun _ _ _ hvw => ⟨hvw.start, hvw.last, hQ _ hvw.bound⟩ }

namespace RecvBuffer.Shifted

variable {δ : ℤ} {rb rb' : RecvBuffer}

/-- Right after `recv_buffer_initialize`. -/
theorem of_initialize {capacity isn isn' : UInt32} (hcap : 2 ≤ capacity.toNat)
    (hcap' : capacity.toNat ≤ 2 ^ 31) (mem : Garbage) (fresh : Ptr → Segment)
    (hδ : Carried δ isn isn') (hlt : isn.toNat + 1 < 2 ^ 32) (hlt' : isn'.toNat + 1 < 2 ^ 32)
    {rb rb' : RecvBuffer}
    (hrb : recvBufferInitialize (recvBufferCreate capacity mem fresh) isn = .ok rb)
    (hrb' : recvBufferInitialize (recvBufferCreate capacity mem fresh) isn' = .ok rb') :
    rb.Shifted δ rb' := by
  obtain rfl := Except.ok.inj hrb
  obtain rfl := Except.ok.inj hrb'
  have hplaced : ∀ q : UInt32, q.toNat + 1 < 2 ^ 32 → RecvBuffer.Placed
      { recvBufferCreate capacity mem fresh with
        lastByteReadSeqnum := q, lastByteReadIndex := 0, nextByteExpectedIndex := 1 } 1 := by
    intro q hq
    refine ⟨hcap', ?_, ?_, le_rfl, ?_, hq⟩
    · show 0 < capacity.toNat
      omega
    · show 1 = (0 + 1) % capacity.toNat
      rw [Nat.zero_add, Nat.mod_eq_of_lt hcap]
    · show 1 ≤ capacity.toNat
      omega
  exact ⟨⟨rfl, hδ, rfl, rfl, rfl, rfl, rfl, Heap.Rel.empty _ _ fun _ => ⟨rfl, rfl⟩⟩,
    1, hplaced _ hlt, hplaced _ hlt'⟩

theorem canReceive (h : rb.Shifted δ rb') {seqnum seqnum' len : UInt32}
    (hseq : Carried δ seqnum seqnum')
    (hlast : rb.lastByteReadSeqnum < seqnum →
      Carried δ (seqnum + len - 1) (seqnum' + len - 1)) :
    recvBufferCanReceive rb' seqnum' len = recvBufferCanReceive rb seqnum len := by
  obtain ⟨d, hd, hd'⟩ := h.placed
  exact h.moved.canReceive hd.ordered hd'.ordered hseq hlast

/-- The guarded call of `recv_buffer_receive`, for a segment whose last number is not the
    greatest of all. -/
theorem receivePayload (h : rb.Shifted δ rb') {seqnum seqnum' len : UInt32}
    (hseq : Carried δ seqnum seqnum')
    (hlast : rb.lastByteReadSeqnum < seqnum →
      Carried δ (seqnum + len - 1) (seqnum' + len - 1))
    (hmax : recvBufferCanReceive rb seqnum len = 0 →
      (seqnum + len - 1).toNat + 1 < 2 ^ 32 ∧ (seqnum' + len - 1).toNat + 1 < 2 ^ 32)
    (data : List UInt8) :
    Agree (· = .memory) (RecvBuffer.Shifted δ) (CmuTcp.receivePayload rb seqnum len data)
      (CmuTcp.receivePayload rb' seqnum' len data) := by
  obtain ⟨d, hd, hd'⟩ := h.placed
  unfold CmuTcp.receivePayload
  rw [h.canReceive hseq hlast]
  by_cases hcan : recvBufferCanReceive rb seqnum len = 0
  · rw [if_pos hcan, if_pos hcan]
    obtain ⟨hlow, _, hbound⟩ := hd.of_canReceive hcan
    obtain ⟨hend, hend'⟩ := hmax hcan
    have hlast := hlast hlow
    have hkeeps : rb.Keeps δ (seqnum + len - 1) := by
      unfold Carried at hlast
      exact ⟨hend, by omega, hbound⟩
    have hreceive := h.moved.recvBufferReceive hd.ordered hd'.ordered
      (fun e e' he hee => ⟨he.1, by unfold Carried at hee; have := he.2.1; omega⟩)
      hseq hlast hcan hkeeps data
    refine hreceive.mono (fun _ hf => hf) fun r r' hr => ?_
    obtain ⟨hmoved, htook⟩ := hr
    -- the window does not move
    have hsame : ∀ e, rb.Keeps δ e → r.Keeps δ e := by
      intro e he
      unfold RecvBuffer.Keeps at he ⊢
      rwa [htook.read, htook.capacity]
    obtain ⟨d', hr, hcases⟩ := hd.took htook fun e he => ⟨he.1, he.2.2⟩
    refine ⟨hmoved.mono hsame, d', hr, ?_⟩
    apply hr.of_indices hmoved.capacity hmoved.readIndex hmoved.nextIndex
    have hread := hmoved.read
    have hread₀ := h.moved.read
    have hfits := hd'.fits
    unfold Carried at hread hread₀
    rw [htook.read] at hread
    rcases hcases with rfl | ⟨e, he, hd⟩
    · omega
    · have := he.2.1
      omega
  · rw [if_neg hcan, if_neg hcan]
    exact .ok h

/-- `recv_buffer_read` returns the same bytes, or fails at the same assert. -/
theorem recvBufferRead (h : rb.Shifted δ rb') (len : UInt32) :
    Agree (fun _ => True) (fun x y => x.1 = y.1 ∧ x.2.Shifted δ y.2)
      (CmuTcp.recvBufferRead rb len) (CmuTcp.recvBufferRead rb' len) := by
  obtain ⟨d, hd, hd'⟩ := h.placed
  have hmaxRead : recvBufferMaxRead rb' = recvBufferMaxRead rb := by
    unfold recvBufferMaxRead
    rw [h.moved.next_sub]
  have hbound : (recvBufferMaxRead rb).toNat = d - 1 := by
    have hfits := hd.fits
    have hpos := hd.pos
    unfold recvBufferMaxRead
    rw [UInt32.toNat_sub, UInt32.toNat_sub, hd.next, UInt32.toNat_one]
    omega
  unfold CmuTcp.recvBufferRead
  rw [hmaxRead]
  by_cases hlen : len ≤ recvBufferMaxRead rb
  · rw [cAssert_of hlen]
    by_cases hzero : len = 0
    · simp only [bind, Except.bind, if_pos hzero]
      exact .ok ⟨rfl, h⟩
    · have hpos := hd.pos
      have hfits := hd.fits
      have hfits' := hd'.fits
      rw [UInt32.le_iff_toNat_le, hbound] at hlen
      have hend : Carried δ (rb.lastByteReadSeqnum + len) (rb'.lastByteReadSeqnum + len) :=
        h.moved.read.add (by omega) (by omega)
      have hle : rb.lastByteReadSeqnum ≤ rb.lastByteReadSeqnum + len := by
        rw [UInt32.le_iff_toNat_le, UInt32.toNat_add]
        omega
      obtain ⟨idx, _, hidx, hidx'⟩ := h.moved.seqnumToIndexRecv hend hle
      have hcopy : safeMemcpyFromRecvbuf rb' len = safeMemcpyFromRecvbuf rb len := by
        unfold safeMemcpyFromRecvbuf
        simp only [hidx, hidx', h.moved.readIndex, h.moved.capacity, h.moved.buffer]
      simp only [bind, Except.bind, if_neg hzero, hcopy]
      cases safeMemcpyFromRecvbuf rb len with
      | error f => exact .error trivial
      | ok data =>
        refine .ok ⟨rfl, ?_, d - len.toNat, hd.consume (by omega), hd'.consume (by omega)⟩
        -- the ring moves on, so what bounded the ends of the segments still does
        have hmono : ∀ e, rb.Keeps δ e → RecvBuffer.Keeps δ { rb with
            lastByteReadSeqnum := rb.lastByteReadSeqnum + len
            lastByteReadIndex := (rb.lastByteReadIndex + len) % rb.capacity } e := by
          intro e he
          refine ⟨he.1, he.2.1, lt_of_lt_of_le he.2.2 (Nat.add_le_add_right ?_ _)⟩
          exact UInt32.le_iff_toNat_le.mp hle
        have hmoved := h.moved.mono hmono
        exact { hmoved with
          read := hend
          readIndex := by rw [h.moved.readIndex, h.moved.capacity] }
  · -- more is asked for than there is, in both runs
    have hfail : ∀ rb : RecvBuffer, ¬ len ≤ recvBufferMaxRead rb →
        cAssert (len ≤ recvBufferMaxRead rb) .recvBufferRead =
          .error (.assertion .recvBufferRead) := fun rb hne => if_neg hne
    rw [hfail rb hlen]
    exact .error trivial

end RecvBuffer.Shifted

end CmuTcp
