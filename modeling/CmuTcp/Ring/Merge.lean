import CmuTcp.Library.IntervalList
import CmuTcp.Model.RecvBuffer

/-!
# Merging a Segment into the List

`segment_merge` on a heap that is one list of disjoint segments in order.  The new
segment splits the list into the segments that end before it, those it meets, and those
that start after it: `left_end` and `right_end` are the two ends of the middle part when
there is one, and the neighbours of the gap otherwise.  In every branch the middle part
is replaced by one node, whose range is the hull.

1. `Inserted` is what all branches have in common: a node is put between two others, and some
   are freed.  It replaces a stretch of the list by the node (`Inserted.linked`).
2. The scans find the ends of the middle part (`merge_scans`), which is what the library
   calls the split of a sorted list of intervals.
3. Each branch of the code is `Inserted` with its own stretch; the branch that clears the
   middle part frees it node by node, by induction (`freeUpTo_chain`).

Main result: `segmentMerge_inserted`.
-/

namespace CmuTcp

open LinkedHeap

/-! ## Freeing the swallowed segments -/

/-- The loop frees everything from `left_end` up to the node before the last but one,
    so that the node `c` before `right_end` is still there afterwards. -/
theorem freeUpTo_chain {h : SegmentHeap} {a r : Ptr} {va vr : SegmentRange}
    {B : List (Ptr × SegmentRange)} {p n : Option Ptr}
    (hchain : Chain h.load p ((a, va) :: (B ++ [(r, vr)])) n)
    (hnodup : (a :: (ptrs B ++ [r])).Nodup) {fuel : ℕ} (hfuel : B.length < fuel) :
    ∃ h' c, freeUpTo r fuel h (headPtr (B ++ [(r, vr)]) n) = some h' ∧
      c ∈ a :: ptrs B ∧ h'.load r = some ⟨vr, some c, n⟩ ∧ h'.fresh = h.fresh ∧
      h'.size = h.size ∧ ∀ x, h'.load x = if x ∈ a :: ptrs B ∧ x ≠ c then none else h.load x := by
  induction B generalizing a va h p fuel with
  | nil =>
    obtain ⟨fuel, rfl⟩ : ∃ k, fuel = k + 1 := ⟨fuel - 1, by omega⟩
    refine ⟨h, a, ?_, by simp, hchain.2.1, rfl, rfl, ?_⟩
    · simp [freeUpTo]
    · intro x
      rw [if_neg]
      simp
  | cons b B ih =>
    obtain ⟨fuel, rfl⟩ : ∃ k, fuel = k + 1 := ⟨fuel - 1, by omega⟩
    obtain ⟨ha, hnodup'⟩ := List.nodup_cons.mp hnodup
    have hbr : b.1 ≠ r := by
      intro heq
      have hb := (List.nodup_cons.mp hnodup').1
      simp [heq] at hb
    -- this iteration frees `a` through the link back from `b`
    obtain ⟨h₁, hfree, hload₁, hfresh₁, hsize₁⟩ := Heap.free_eq hchain.1
    have hchain₁ : Chain h₁.load (some a) ((b.1, b.2) :: (B ++ [(r, vr)])) n := by
      refine hchain.2.frame fun x hx => ?_
      rw [hload₁, Function.update_of_ne]
      rintro rfl
      exact ha (by simpa using hx)
    have hb := hchain.2.1
    have hb₁ := hchain₁.1
    have hfuel' : B.length < fuel := by simpa using hfuel
    obtain ⟨h', c, hrest, hc, hr, hfresh, hsize, hload⟩ := ih hchain₁ hnodup' hfuel'
    refine ⟨h', c, ?_, List.mem_cons_of_mem _ hc, hr, hfresh.trans hfresh₁,
      hsize.trans hsize₁, ?_⟩
    · simp only [List.cons_append, headPtr_cons, freeUpTo, Option.some.injEq, hbr, if_false, hb,
        hb₁, Heap.freePtr, hfree, Option.bind_eq_bind, Option.bind_some]
      exact hrest
    · intro x
      have hac : a ≠ c := by
        rintro rfl
        exact ha (List.mem_append_left _ hc)
      rw [hload x, hload₁]
      by_cases hxa : x = a
      · subst hxa
        have hnot : x ∉ b.1 :: ptrs B := fun hmem => ha (List.mem_append_left _ hmem)
        rw [if_neg (fun hx => hnot hx.1), Function.update_self, if_pos ⟨by simp, hac⟩]
      · rw [Function.update_of_ne hxa]
        simp [hxa]

/-- The clean-up frees exactly the nodes of the stretch. -/
theorem freeSwallowed_chain {h : SegmentHeap} {M : List (Ptr × SegmentRange)}
    {p n : Option Ptr} (hchain : Chain h.load p M n) (hnodup : (ptrs M).Nodup)
    (hsize : M.length ≤ h.size) {a b : Ptr} (hfirst : headPtr M none = some a)
    (hlast : lastPtr none M = some b) :
    ∃ h', freeSwallowed h a b = some h' ∧ h'.fresh = h.fresh ∧ h'.size = h.size ∧
      ∀ x, h'.load x = if x ∈ ptrs M then none else h.load x := by
  obtain ⟨x, M, rfl⟩ : ∃ x M', M = x :: M' := by
    cases M with
    | nil => simp at hfirst
    | cons x M => exact ⟨x, M, rfl⟩
  obtain rfl : x.1 = a := by simpa using hfirst
  rcases List.eq_nil_or_concat M with rfl | ⟨B, r, rfl⟩
  · -- one segment is swallowed
    obtain rfl : x.1 = b := by simpa using hlast
    obtain ⟨h', hfree, hload, hfresh, hsize'⟩ := Heap.free_eq hchain.1
    refine ⟨h', by rw [freeSwallowed, if_pos rfl, hfree], hfresh, hsize', fun y => ?_⟩
    rw [hload]
    by_cases hy : y = x.1
    · subst hy
      simp
    · rw [Function.update_of_ne hy]
      simp [hy]
  · rw [List.concat_eq_append] at *
    obtain rfl : r.1 = b := by simpa using hlast
    rw [ptrs_cons, ptrs_append] at hnodup
    obtain ⟨hx, hB⟩ := List.nodup_cons.mp hnodup
    have hne : x.1 ≠ r.1 := by
      intro heq
      simp [heq] at hx
    have hfuel : B.length < h.size + 1 := by
      simp at hsize
      omega
    obtain ⟨h₁, c, hloop, hc, hr₁, hfresh₁, hsize₁, hload₁⟩ := freeUpTo_chain (a := x.1) (r := r.1)
      hchain hnodup hfuel
    have hxr : r.1 ∉ x.1 :: ptrs B := by
      intro hmem
      rcases List.mem_cons.mp hmem with heq | hmem
      · exact hne heq.symm
      · exact (List.nodup_append.mp hB).2.2 r.1 hmem r.1 (by simp) rfl
    have hcr : c ≠ r.1 := by
      rintro rfl
      exact hxr hc
    -- `right_end->prev` is the one node of the stretch that the loop has left
    have hcM : c ∈ ptrs (x :: (B ++ [r])) := by
      rw [ptrs_cons, ptrs_append]
      rcases List.mem_cons.mp hc with rfl | hmem
      · simp
      · exact List.mem_cons_of_mem _ (List.mem_append_left _ hmem)
    obtain ⟨s, hs⟩ := hchain.live c hcM
    have hs₁ : h₁.load c = some s := by rw [hload₁, if_neg (fun hx => hx.2 rfl), hs]
    obtain ⟨h₂, hfree₂, hload₂, hfresh₂, hsize₂⟩ := Heap.free_eq hs₁
    have hr₂ : h₂.load r.1 = some ⟨r.2, some c, n⟩ := by
      rw [hload₂, Function.update_of_ne hcr.symm, hr₁]
    obtain ⟨h₃, hfree₃, hload₃, hfresh₃, hsize₃⟩ := Heap.free_eq hr₂
    refine ⟨h₃, ?_, hfresh₃.trans (hfresh₂.trans hfresh₁), hsize₃.trans (hsize₂.trans hsize₁),
      fun y => ?_⟩
    · have hx := hchain.1
      simp only [freeSwallowed, if_neg hne, hx, Option.bind_eq_bind, Option.bind_some, hloop, hr₁,
        Heap.freePtr, hfree₂, hfree₃]
    · rw [hload₃]
      by_cases hyr : y = r.1
      · subst hyr
        simp
      · rw [Function.update_of_ne hyr, hload₂]
        by_cases hyc : y = c
        · subst hyc
          rw [Function.update_self, if_pos hcM]
        · rw [Function.update_of_ne hyc, hload₁]
          simp [hyc, hyr]

/-! ## What a branch does to the heap -/

/-- The node `seg` has been put between `lp` and `rn` with the value `v`, and the nodes
    `dead` are freed. -/
structure Inserted (h h' : SegmentHeap) (seg : Ptr) (v : SegmentRange) (lp rn : Option Ptr)
    (dead : List Ptr) : Prop where
  fresh : h'.fresh = h.fresh
  load : ∀ x, h'.load x =
    if x = seg then some ⟨v, lp, rn⟩
    else if x ∈ dead then none
    else if lp = some x then (h.load x).map fun s => { s with next := some seg }
    else if rn = some x then (h.load x).map fun s => { s with prev := some seg }
    else h.load x

section Inserted

variable {h h' : SegmentHeap} {v : SegmentRange} {first last : Option Ptr}
  {L M R : List (Ptr × SegmentRange)}

/-- Insertion between the neighbours of a stretch replaces the stretch by the new node. -/
theorem Inserted.linked (hr : Linked h first last (L ++ (M ++ R)))
    (hins : Inserted h h' h.size v (lastPtr none L) (headPtr R none) (ptrs M)) :
    Linked h' (headPtr (L ++ (h.size, v) :: R) none) (lastPtr none (L ++ (h.size, v) :: R))
      (L ++ (h.size, v) :: R) := by
  -- the new node is not one of the list, and no node is in two of the stretches
  have hseg := hr.size_notMem
  have hall := hr.nodup
  rw [ptrs_append, ptrs_append] at hseg hall
  obtain ⟨hndL, hndMR, hLMR⟩ := List.nodup_append.mp hall
  obtain ⟨_, _, hMR⟩ := List.nodup_append.mp hndMR
  simp only [List.mem_append, not_or] at hseg
  -- the stretch `M` is replaced by the list of the new node alone
  refine hr.replace (N := [(h.size, v)]) ⟨?_, trivial⟩ (by simp) ?_ ?_ ?_
  · rw [hins.load, if_pos rfl]
    rfl
  · intro x hx
    obtain rfl : x = h.size := by simpa using hx
    exact ⟨hseg.1, hseg.2.2⟩
  -- a node before the stretch is changed only if it is the last one
  · intro x hx
    have hne : x ≠ h.size := fun heq => hseg.1 (heq ▸ hx)
    have hdead : x ∉ ptrs M := fun hM => hLMR x hx x (List.mem_append_left _ hM) rfl
    have hR : headPtr R none ≠ some x := fun hhead =>
      hLMR x hx x (List.mem_append_right _ (mem_of_headPtr hhead)) rfl
    rw [hins.load, if_neg hne, if_neg hdead, if_neg hR]
    rfl
  -- and one behind it only if it is the first
  · intro x hx
    have hne : x ≠ h.size := fun heq => hseg.2.2 (heq ▸ hx)
    have hdead : x ∉ ptrs M := fun hM => hMR x hM x hx rfl
    have hL : lastPtr none L ≠ some x := fun hlast =>
      hLMR x (mem_of_lastPtr hlast) x (List.mem_append_right _ hx) rfl
    rw [hins.load, if_neg hne, if_neg hdead, if_neg hL]
    rfl

/-- Outside the new list only the nodes of the stretch change: they are freed. -/
theorem Inserted.load_of_notMem
    (hins : Inserted h h' h.size v (lastPtr none L) (headPtr R none) (ptrs M)) {p : Ptr}
    (hp : p ∉ ptrs (L ++ (h.size, v) :: R)) :
    h'.load p = if p ∈ ptrs M then none else h.load p := by
  rw [ptrs_append, ptrs_cons, List.mem_append, List.mem_cons, not_or, not_or] at hp
  obtain ⟨hL, hseg, hR⟩ := hp
  rw [hins.load, if_neg hseg, if_neg (fun hlast => hL (mem_of_lastPtr hlast)),
    if_neg (fun hhead => hR (mem_of_headPtr hhead))]

/-- Insertion into a heap that is one list. -/
theorem Inserted.represents (hr : Represents h first last (L ++ (M ++ R)))
    (hins : Inserted h h' h.size v (lastPtr none L) (headPtr R none) (ptrs M)) :
    Represents h' (headPtr (L ++ (h.size, v) :: R) none) (lastPtr none (L ++ (h.size, v) :: R))
      (L ++ (h.size, v) :: R) := by
  refine (hins.linked hr.linked).represents hr fun p hp => ?_
  rw [hins.load_of_notMem hp]
  by_cases hM : p ∈ ptrs M
  · exact Or.inl (if_pos hM)
  · refine Or.inr ⟨fun hmem => hp ?_, if_neg hM⟩
    rw [ptrs_append, ptrs_append, List.mem_append, List.mem_append] at hmem
    rw [ptrs_append, ptrs_cons, List.mem_append, List.mem_cons]
    rcases hmem with hL | hM' | hR
    · exact Or.inl hL
    · exact absurd hM' hM
    · exact Or.inr (Or.inr hR)

end Inserted

/-- The range of the node that `segment_merge` inserts, from those it swallows. -/
def mergedRange (a b : UInt32) (xs : List SegmentRange) : SegmentRange where
  startSeqnumInclusive := min ((xs.head?.map SegmentRange.startSeqnumInclusive).getD a) a
  endSeqnumInclusive := max ((xs.getLast?.map SegmentRange.endSeqnumInclusive).getD b) b

@[simp] theorem mergedRange_nil (a b : UInt32) : mergedRange a b [] = ⟨a, b⟩ := by
  simp only [mergedRange, List.head?_nil, List.getLast?_nil, Option.map_none, Option.getD_none]
  congr 1
  · exact if_pos (UInt32.le_refl a)
  · exact if_pos (UInt32.le_refl b)

/-! ## The branches -/

section Branches

variable {h : SegmentHeap} {first last : Option Ptr} {L M R : List (Ptr × SegmentRange)}
  {a b : UInt32}

/-- The scans of `segment_merge` find the first segment that does not end before the new
    one and the last that does not start after it. -/
theorem merge_scans (hr : Linked h first last (L ++ (M ++ R)))
    (hL : ∀ x ∈ L, x.2.endSeqnumInclusive < a) (hMR : ∀ x ∈ M ++ R, a ≤ x.2.endSeqnumInclusive)
    (hLM : ∀ x ∈ L ++ M, x.2.startSeqnumInclusive ≤ b)
    (hR : ∀ x ∈ R, b < x.2.startSeqnumInclusive) :
    walkNext h (fun s => decide (s.val.endSeqnumInclusive < a)) (h.size + 1) first =
      some (headPtr (M ++ R) none) ∧
    walkPrev h (fun s => decide (s.val.startSeqnumInclusive > b)) (h.size + 1) last =
      some (lastPtr none (L ++ M)) := by
  constructor
  · refine hr.walkNext (c := fun v => decide (v.endSeqnumInclusive < a)) ?_ ?_
    · intro x hx
      exact decide_eq_true (hL x hx)
    · intro y hy
      exact decide_eq_false (UInt32.not_lt.mpr (hMR y (List.mem_of_mem_head? hy)))
  · rw [← List.append_assoc] at hr
    refine hr.walkPrev (c := fun v => decide (v.startSeqnumInclusive > b)) ?_ ?_
    · intro y hy
      exact decide_eq_true (hR y hy)
    · intro x hx
      exact decide_eq_false (UInt32.not_lt.mpr (hLM x (List.mem_of_mem_getLast? hx)))

theorem fst_malloc (h : SegmentHeap) : h.malloc.1 = h.size := rfl

/-- `malloc`, and the node's range set: where every branch starts. -/
theorem malloc_modify (h : SegmentHeap) (v : SegmentRange) :
    ∃ h₁, h.malloc.2.modify h.size (fun s => { s with val := v }) = some h₁ ∧
      h₁.load = Function.update h.load h.size
        (some ⟨v, (h.fresh h.size).prev, (h.fresh h.size).next⟩) ∧
      h₁.fresh = h.fresh ∧ h₁.size = h.size + 1 := by
  have hload : h.malloc.2.load h.size = some (h.fresh h.size) := by
    rw [Heap.load_malloc]
    exact Function.update_self ..
  obtain ⟨h₁, hmod, hload₁, hfresh₁, hsize₁⟩ :=
    Heap.modify_eq hload (fun s => { s with val := v })
  refine ⟨h₁, hmod, ?_, hfresh₁, ?_⟩
  · rw [hload₁, Heap.load_malloc, fst_malloc, Function.update_idem]
  · rw [hsize₁]
    simp [Heap.malloc, Heap.size]

/-- A new node whose range alone is set, and that comes with null links. -/
theorem malloc_inserted (hprev : (h.fresh h.size).prev = none)
    (hnext : (h.fresh h.size).next = none) (v : SegmentRange) :
    ∃ h₁, h.malloc.2.modify h.size (fun s => { s with val := v }) = some h₁ ∧
      Inserted h h₁ h.size v none none [] ∧ h₁.size = h.size + 1 := by
  obtain ⟨h₁, hmod, hload, hfresh, hsize⟩ := malloc_modify h v
  refine ⟨h₁, hmod, ⟨hfresh, fun x => ?_⟩, hsize⟩
  rw [hload, hprev, hnext]
  by_cases hx : x = h.size
  · simp [hx]
  · simp [hx]

/-- A new node put between two others, whose links and range are all set. -/
theorem malloc_link (v : SegmentRange) {lp rn : Option Ptr}
    (hlp : ∀ p, lp = some p → ∃ s, h.load p = some s)
    (hrn : ∀ p, rn = some p → ∃ s, h.load p = some s) (hne : ∀ p, lp = some p → rn ≠ some p) :
    ∃ h₁ h₂ h₃ h₄ h₅, h.malloc.2.modify h.size (fun s => { s with val := v }) = some h₁ ∧
      h₁.modify h.size (fun s => { s with next := rn }) = some h₂ ∧
      h₂.modifyPtr rn (fun s => { s with prev := some h.size }) = some h₃ ∧
      h₃.modify h.size (fun s => { s with prev := lp }) = some h₄ ∧
      h₄.modifyPtr lp (fun s => { s with next := some h.size }) = some h₅ ∧
      Inserted h h₅ h.size v lp rn [] ∧ h₅.size = h.size + 1 := by
  obtain ⟨h₁, hm₁, hl₁, hf₁, hz₁⟩ := malloc_modify h v
  have hold : ∀ p s, h.load p = some s → p ≠ h.size ∧ ∃ s, h₁.load p = some s := by
    intro p s hs
    have hp : p ≠ h.size := Nat.ne_of_lt (Heap.lt_size_of_load hs)
    exact ⟨hp, s, by rw [hl₁, Function.update_of_ne hp, hs]⟩
  have hseg₁ : h₁.load h.size = some ⟨v, (h.fresh h.size).prev, (h.fresh h.size).next⟩ := by
    rw [hl₁, Function.update_self]
  obtain ⟨h₂, h₃, h₄, h₅, hm₂, hm₃, hm₄, hm₅, hf, hz, hload⟩ := Heap.link_eq hseg₁
    (fun p hp => (hlp p hp).elim (hold p)) (fun p hp => (hrn p hp).elim (hold p)) hne
  refine ⟨h₁, h₂, h₃, h₄, h₅, hm₁, hm₂, hm₃, hm₄, hm₅, ⟨hf.trans hf₁, fun x => ?_⟩, hz.trans hz₁⟩
  rw [hload, hl₁]
  by_cases hx : x = h.size
  · rw [if_pos hx, if_pos hx]
  · rw [if_neg hx, if_neg hx, Function.update_of_ne hx]
    simp only [List.not_mem_nil, if_false]

/-- The branch in which no segment ends at or after the start of the new one: it leaves `next`
    as `malloc` returns it. -/
theorem segmentMerge_right (hr : Linked h first last L)
    (hnull : (h.fresh h.size).next = none) (hne : L ≠ [])
    (hnext : walkNext h (fun s => decide (s.val.endSeqnumInclusive < a)) (h.size + 1) first =
      some none)
    {rightEnd : Option Ptr}
    (hprev : walkPrev h (fun s => decide (s.val.startSeqnumInclusive > b)) (h.size + 1) last =
      some rightEnd) :
    ∃ h', segmentMerge h first last a b = some (h.size, h') ∧
      Inserted h h' h.size ⟨a, b⟩ (lastPtr none L) none [] ∧ h'.size = h.size + 1 := by
  -- the last node of the list is live, and is not the new one
  obtain ⟨_, e, _, hlast, _, he⟩ := exists_ends hne
  obtain rfl : last = some e := by rw [hr.last_eq, hlast]
  have hes : e ≠ h.size := fun heq => hr.size_notMem (heq ▸ he)
  obtain ⟨s, hs⟩ := hr.chain.live e he
  -- the new node gets its range and its `prev`, and the last node its `next`
  obtain ⟨h₁, hm₁, hl₁, hf₁, hz₁⟩ := malloc_modify h ⟨a, b⟩
  have hseg₁ : h₁.load h.size = some ⟨⟨a, b⟩, (h.fresh h.size).prev, none⟩ := by
    rw [hl₁, Function.update_self, hnull]
  obtain ⟨h₂, hm₂, hl₂, hf₂, hz₂⟩ := Heap.modify_eq hseg₁ (fun s => { s with prev := some e })
  have hs₂ : h₂.load e = some s := by
    rw [hl₂, Function.update_of_ne hes, hl₁, Function.update_of_ne hes, hs]
  obtain ⟨h₃, hm₃, hl₃, hf₃, hz₃⟩ := Heap.modify_eq hs₂ (fun s => { s with next := some h.size })
  refine ⟨h₃, ?_, ⟨hf₃.trans (hf₂.trans hf₁), fun x => ?_⟩, hz₃.trans (hz₂.trans hz₁)⟩
  · simp only [segmentMerge, hnext, hprev, Option.bind_eq_bind, Option.bind_some, fst_malloc,
      hm₁, hm₂, hm₃]
    rfl
  · simp only [hl₃, hl₂, hl₁, Function.update_apply, hlast, List.not_mem_nil, if_false,
      Option.some.injEq]
    -- the new node, the one before it, and all others
    by_cases hxs : x = h.size
    · simp [hxs, hes.symm]
    · by_cases hxe : x = e
      · simp [hxe, hes, hs]
      · simp [hxs, hxe, Ne.symm hxe]

/-- The branch in which no segment starts at or before the end of the new one: it leaves `prev`
    as `malloc` returns it. -/
theorem segmentMerge_left (hr : Linked h first last R)
    (hnull : (h.fresh h.size).prev = none) (hne : R ≠ [])
    {leftEnd : Ptr}
    (hnext : walkNext h (fun s => decide (s.val.endSeqnumInclusive < a)) (h.size + 1) first =
      some (some leftEnd))
    (hprev : walkPrev h (fun s => decide (s.val.startSeqnumInclusive > b)) (h.size + 1) last =
      some none) :
    ∃ h', segmentMerge h first last a b = some (h.size, h') ∧
      Inserted h h' h.size ⟨a, b⟩ none (headPtr R none) [] ∧ h'.size = h.size + 1 := by
  -- the first node of the list is live, and is not the new one
  obtain ⟨f, _, hfirst, _, hf, _⟩ := exists_ends hne
  obtain rfl : first = some f := by rw [hr.first_eq, hfirst]
  have hfs : f ≠ h.size := fun heq => hr.size_notMem (heq ▸ hf)
  obtain ⟨s, hs⟩ := hr.chain.live f hf
  -- the new node gets its range and its `next`, and the first node its `prev`
  obtain ⟨h₁, hm₁, hl₁, hf₁, hz₁⟩ := malloc_modify h ⟨a, b⟩
  have hseg₁ : h₁.load h.size = some ⟨⟨a, b⟩, none, (h.fresh h.size).next⟩ := by
    rw [hl₁, Function.update_self, hnull]
  obtain ⟨h₂, hm₂, hl₂, hf₂, hz₂⟩ := Heap.modify_eq hseg₁ (fun s => { s with next := some f })
  have hs₂ : h₂.load f = some s := by
    rw [hl₂, Function.update_of_ne hfs, hl₁, Function.update_of_ne hfs, hs]
  obtain ⟨h₃, hm₃, hl₃, hf₃, hz₃⟩ := Heap.modify_eq hs₂ (fun s => { s with prev := some h.size })
  refine ⟨h₃, ?_, ⟨hf₃.trans (hf₂.trans hf₁), fun x => ?_⟩, hz₃.trans (hz₂.trans hz₁)⟩
  · simp only [segmentMerge, hnext, hprev, Option.bind_eq_bind, Option.bind_some, fst_malloc,
      hm₁, hm₂, hm₃]
    rfl
  · simp only [hl₃, hl₂, hl₁, Function.update_apply, hfirst, List.not_mem_nil, if_false,
      Option.some.injEq]
    -- the new node, the one behind it, and all others
    by_cases hxs : x = h.size
    · simp [hxs, hfs.symm]
    · by_cases hxf : x = f
      · simp [hxf, hfs, hs]
      · simp [hxs, hxf, Ne.symm hxf]

/-- The branch in which the new segment lies between two segments and meets neither. -/
theorem segmentMerge_between (hr : Linked h first last (L ++ R)) (hL : L ≠ []) (hR : R ≠ [])
    (hnext : walkNext h (fun s => decide (s.val.endSeqnumInclusive < a)) (h.size + 1) first =
      some (headPtr R none))
    (hprev : walkPrev h (fun s => decide (s.val.startSeqnumInclusive > b)) (h.size + 1) last =
      some (lastPtr none L)) :
    ∃ h', segmentMerge h first last a b = some (h.size, h') ∧
      Inserted h h' h.size ⟨a, b⟩ (lastPtr none L) (headPtr R none) [] ∧
      h'.size = h.size + 1 := by
  obtain ⟨L, l, rfl⟩ := (List.eq_nil_or_concat L).resolve_left hL
  obtain ⟨r, R, rfl⟩ := List.exists_cons_of_ne_nil hR
  rw [List.concat_eq_append] at *
  have hchain := hr.chain
  rw [List.append_assoc] at hchain
  have hl := hchain.middle
  have hchain' := hr.chain
  have hrl := hchain'.middle
  rw [headPtr_cons] at hnext
  rw [lastPtr_concat] at hprev
  have hls : l.1 ≠ h.size := Nat.ne_of_lt (Heap.lt_size_of_load hl)
  have hlr : l.1 ≠ r.1 := by
    have hnd := hr.nodup
    rw [ptrs_append, ptrs_append] at hnd
    exact (List.nodup_append.mp hnd).2.2 l.1 (by simp) r.1 (by simp)
  have hlp : ∀ p, some l.1 = some p → ∃ s, h.load p = some s := by
    rintro p hp
    obtain rfl := Option.some.inj hp
    exact ⟨_, hl⟩
  have hrn : ∀ p, some r.1 = some p → ∃ s, h.load p = some s := by
    rintro p hp
    obtain rfl := Option.some.inj hp
    exact ⟨_, hrl⟩
  obtain ⟨h₁, h₂, h₃, h₄, h₅, hm₁, hm₂, hm₃, hm₄, hm₅, hins, hsize⟩ :=
    malloc_link ⟨a, b⟩ hlp hrn fun p hp heq => hlr (Option.some.inj (hp.trans heq.symm))
  refine ⟨h₅, ?_, by rwa [lastPtr_concat], hsize⟩
  have hl₀ : h.malloc.2.load l.1 = some ⟨l.2, lastPtr none L, some r.1⟩ := by
    rw [Heap.load_malloc, fst_malloc, Function.update_of_ne hls, hl]
    rfl
  -- neither neighbour is null
  have hm₃' : h₂.modify r.1 (fun s => { s with prev := some h.size }) = some h₃ := hm₃
  have hm₅' : h₄.modify l.1 (fun s => { s with next := some h.size }) = some h₅ := hm₅
  simp only [segmentMerge, hnext, hprev, Option.bind_eq_bind, Option.bind_some, fst_malloc,
    hl₀, if_true, hm₁, hm₂, hm₃', hm₄, hm₅']
  rfl

/-- The branch in which the new segment meets the segments `M`. -/
theorem segmentMerge_hull (hr : Linked h first last (L ++ (M ++ R))) (hM : M ≠ [])
    (hnext : walkNext h (fun s => decide (s.val.endSeqnumInclusive < a)) (h.size + 1) first =
      some (headPtr M none))
    (hprev : walkPrev h (fun s => decide (s.val.startSeqnumInclusive > b)) (h.size + 1) last =
      some (lastPtr none M)) :
    ∃ h', segmentMerge h first last a b = some (h.size, h') ∧
      Inserted h h' h.size (mergedRange a b (M.map Prod.snd)) (lastPtr none L) (headPtr R none)
        (ptrs M) ∧ h'.size = h.size + 1 := by
  -- where the three parts lie
  have hlen := hr.length_le
  simp only [List.length_append] at hlen
  obtain ⟨hchainL, hchainMR⟩ := chain_append.mp hr.chain
  obtain ⟨hchainM, hchainR⟩ := chain_append.mp hchainMR
  have hseg := hr.size_notMem
  have hall := hr.nodup
  rw [ptrs_append, ptrs_append] at hseg hall
  simp only [List.mem_append, not_or] at hseg
  obtain ⟨_, hndMR, hLMR⟩ := List.nodup_append.mp hall
  obtain ⟨hndM, _, hMR⟩ := List.nodup_append.mp hndMR
  have hlp_mem : ∀ p, lastPtr none L = some p → p ∈ ptrs L := fun p hp => mem_of_lastPtr hp
  have hrn_mem : ∀ p, headPtr R none = some p → p ∈ ptrs R := fun p hp => mem_of_headPtr hp
  generalize hlp : lastPtr none L = lp at *
  generalize hrn : headPtr R none = rn at *
  have hlp_M : ∀ x ∈ ptrs M, lp ≠ some x := fun x hx heq =>
    hLMR x (hlp_mem x heq) x (List.mem_append_left _ hx) rfl
  have hrn_M : ∀ x ∈ ptrs M, rn ≠ some x := fun x hx heq => hMR x hx x (hrn_mem x heq) rfl
  have hlp_rn : ∀ x, lp = some x → rn ≠ some x := fun x hl hr' =>
    hLMR x (hlp_mem x hl) x (List.mem_append_right _ (hrn_mem x hr')) rfl
  have hseg_M : ∀ x ∈ ptrs M, x ≠ h.size := fun x hx heq => hseg.2.1 (heq ▸ hx)
  -- the two ends of the middle part
  obtain ⟨l, M', hl⟩ := List.exists_cons_of_ne_nil hM
  obtain ⟨M'', r, hr'⟩ := (List.eq_nil_or_concat M).resolve_left hM
  rw [List.concat_eq_append] at hr'
  have hload_l : h.load l.1 = some ⟨l.2, lp, headPtr M' rn⟩ := by
    have hc := hchainM
    rw [hl] at hc
    exact hc.1
  have hload_r : h.load r.1 = some ⟨r.2, lastPtr lp M'', rn⟩ := by
    have hc := hchainM
    rw [hr'] at hc
    exact hc.middle
  have hfirst : headPtr M none = some l.1 := by rw [hl, headPtr_cons]
  have hlast : lastPtr none M = some r.1 := by rw [hr', lastPtr_concat]
  have hl_mem : l.1 ∈ ptrs M := by simp [hl]
  have hr_mem : r.1 ∈ ptrs M := by simp [hr']
  have hrange : mergedRange a b (M.map Prod.snd) =
      ⟨min l.2.startSeqnumInclusive a, max r.2.endSeqnumInclusive b⟩ := by
    have hhead : (M.map Prod.snd).head? = some l.2 := by simp [hl]
    have hgetLast : (M.map Prod.snd).getLast? = some r.2 := by simp [hr']
    rw [mergedRange, hhead, hgetLast]
    rfl
  rw [hfirst] at hnext
  rw [hlast] at hprev
  rw [hrange]
  generalize hv : (⟨min l.2.startSeqnumInclusive a, max r.2.endSeqnumInclusive b⟩ :
    SegmentRange) = v
  -- the new node, its links, and the links of its neighbours
  obtain ⟨h₁, h₂, h₃, h₄, h₅, hm₁, hm₂, hm₃, hm₄, hm₅, hins, hsize⟩ := malloc_link v
    (fun p hp => hchainL.live p (hlp_mem p hp)) (fun p hp => hchainR.live p (hrn_mem p hp)) hlp_rn
  have hload₅ : ∀ x, h₅.load x = if x = h.size then some ⟨v, lp, rn⟩
      else if lp = some x then (h.load x).map fun s => { s with next := some h.size }
      else if rn = some x then (h.load x).map fun s => { s with prev := some h.size }
      else h.load x := by
    intro x
    rw [hins.load]
    simp only [List.not_mem_nil, if_false]
  -- the clean-up finds the middle part as it was
  have hchain₅ : Chain h₅.load lp M rn := by
    refine hchainM.frame fun x hx => ?_
    rw [hload₅, if_neg (hseg_M x hx), if_neg (hlp_M x hx), if_neg (hrn_M x hx)]
  obtain ⟨h₆, hfree, hf₆, hs₆, hl₆⟩ := freeSwallowed_chain hchain₅ hndM (by omega) hfirst hlast
  refine ⟨h₆, ?_, ⟨hf₆.trans hins.fresh, fun x => ?_⟩, hs₆.trans hsize⟩
  · have hload_r₀ : h.malloc.2.load r.1 = some ⟨r.2, lastPtr lp M'', rn⟩ := by
      rw [Heap.load_malloc, fst_malloc, Function.update_of_ne (hseg_M _ hr_mem), hload_r]
    have hload_l₀ : h.malloc.2.load l.1 = some ⟨l.2, lp, headPtr M' rn⟩ := by
      rw [Heap.load_malloc, fst_malloc, Function.update_of_ne (hseg_M _ hl_mem), hload_l]
    simp only [segmentMerge, hnext, hprev, Option.bind_eq_bind, Option.bind_some, fst_malloc,
      hload_r₀, hload_l₀, if_neg (hrn_M _ hl_mem), hv, hm₁, hm₂, hm₃, hm₄, hm₅, hfree]
    rfl
  · rw [hl₆, hload₅]
    by_cases hx : x = h.size
    · rw [if_neg (fun hmem => hseg_M x hmem hx), if_pos hx, if_pos hx]
    · rw [if_neg hx, if_neg hx]

/-- The two branches that set both links of the new node: no end of the list is passed. -/
theorem segmentMerge_inside (hr : Linked h first last (L ++ (M ++ R))) (hLM : L ++ M ≠ [])
    (hMR : M ++ R ≠ [])
    (hnext : walkNext h (fun s => decide (s.val.endSeqnumInclusive < a)) (h.size + 1) first =
      some (headPtr (M ++ R) none))
    (hprev : walkPrev h (fun s => decide (s.val.startSeqnumInclusive > b)) (h.size + 1) last =
      some (lastPtr none (L ++ M))) :
    ∃ h', segmentMerge h first last a b = some (h.size, h') ∧
      Inserted h h' h.size (mergedRange a b (M.map Prod.snd)) (lastPtr none L) (headPtr R none)
        (ptrs M) ∧ h'.size = h.size + 1 := by
  cases M with
  | nil =>
    rw [List.append_nil] at hLM hprev
    rw [List.map_nil, mergedRange_nil]
    exact segmentMerge_between hr hLM hMR hnext hprev
  | cons m M =>
    refine segmentMerge_hull hr (by simp) hnext ?_
    obtain ⟨M', r, hMr⟩ := (List.eq_nil_or_concat (m :: M)).resolve_left (by simp)
    rw [List.concat_eq_append] at hMr
    rw [hprev, hMr, ← List.append_assoc, lastPtr_concat, lastPtr_concat]

/-- **`segment_merge`** replaces the segments that the new one meets by their hull with it. -/
theorem segmentMerge_inserted (hr : Linked h first last (L ++ (M ++ R)))
    (hnull : ∀ p, (h.fresh p).prev = none ∧ (h.fresh p).next = none)
    (hne : L ++ (M ++ R) ≠ []) (hL : ∀ x ∈ L, x.2.endSeqnumInclusive < a)
    (hMR : ∀ x ∈ M ++ R, a ≤ x.2.endSeqnumInclusive)
    (hLM : ∀ x ∈ L ++ M, x.2.startSeqnumInclusive ≤ b)
    (hR : ∀ x ∈ R, b < x.2.startSeqnumInclusive) :
    ∃ h', segmentMerge h first last a b = some (h.size, h') ∧
      Inserted h h' h.size (mergedRange a b (M.map Prod.snd)) (lastPtr none L) (headPtr R none)
        (ptrs M) ∧ h'.size = h.size + 1 := by
  obtain ⟨hnext, hprev⟩ := merge_scans hr hL hMR hLM hR
  by_cases hnone : M ++ R = []
  · obtain ⟨rfl, rfl⟩ := List.append_eq_nil_iff.mp hnone
    rw [List.map_nil, mergedRange_nil]
    rw [List.append_nil, List.append_nil] at hr hne
    exact segmentMerge_right hr (hnull _).2 hne hnext hprev
  · by_cases hnone' : L ++ M = []
    · obtain ⟨rfl, rfl⟩ := List.append_eq_nil_iff.mp hnone'
      rw [List.map_nil, mergedRange_nil]
      obtain ⟨r, R, rfl⟩ := List.exists_cons_of_ne_nil hnone
      exact segmentMerge_left hr (hnull _).1 hne hnext hprev
    · exact segmentMerge_inside hr hnone' hnone hnext hprev

end Branches

/-! ## Taking a segment out -/

/-- `segment_disconnect` followed by `free` removes the node from the list. -/
theorem disconnect_free_linked {h : SegmentHeap} {first last : Option Ptr} {seg : Ptr}
    {v : SegmentRange} {L R : List (Ptr × SegmentRange)}
    (hr : Linked h first last (L ++ (seg, v) :: R)) :
    ∃ h₁ h₂, segmentDisconnect h seg = some h₁ ∧ h₁.free seg = some h₂ ∧ h₂.fresh = h.fresh ∧
      h₂.size = h.size ∧ Linked h₂ (headPtr (L ++ R) none) (lastPtr none (L ++ R)) (L ++ R) ∧
      ∀ p ∉ ptrs (L ++ R), h₂.load p = if p = seg then none else h.load p := by
  have hall := hr.nodup
  rw [ptrs_append, ptrs_cons] at hall
  obtain ⟨_, hnd, hdisj⟩ := List.nodup_append.mp hall
  have hsegL : seg ∉ ptrs L := fun hL => hdisj seg hL seg (by simp) rfl
  have hsegR : seg ∉ ptrs R := (List.nodup_cons.mp hnd).1
  have hLR : ∀ p ∈ ptrs L, p ∉ ptrs R := fun p hL hR =>
    hdisj p hL p (List.mem_cons_of_mem _ hR) rfl
  have hlp : ∀ p, lastPtr none L = some p → p ∈ ptrs L := fun p hp => mem_of_lastPtr hp
  have hrn : ∀ p, headPtr R none = some p → p ∈ ptrs R := fun p hp => mem_of_headPtr hp
  obtain ⟨hchainL, hseg, hchainR⟩ := chain_append.mp hr.chain
  -- the two writes go to different nodes, one on each side of `seg`
  obtain ⟨h₀, hm₀, hl₀, hf₀, hz₀⟩ := Heap.modifyPtr_eq (h := h) (q := lastPtr none L)
    (fun p hp => hchainL.live p (hlp p hp)) (fun s => { s with next := headPtr R none })
  obtain ⟨h₁, hm₁, hl₁, hf₁, hz₁⟩ := Heap.modifyPtr_eq (h := h₀) (q := headPtr R none) (by
    intro p hp
    obtain ⟨s, hs⟩ := hchainR.live p (hrn p hp)
    exact ⟨s, by rw [hl₀, if_neg (fun hl => hLR p (hlp p hl) (hrn p hp)), hs]⟩)
    (fun s => { s with prev := lastPtr none L })
  have hload₁ : ∀ x, h₁.load x =
      if headPtr R none = some x then (h.load x).map fun s => { s with prev := lastPtr none L }
      else if lastPtr none L = some x then
        (h.load x).map fun s => { s with next := headPtr R none }
      else h.load x := by
    intro x
    rw [hl₁, hl₀]
    by_cases hx : headPtr R none = some x
    · rw [if_pos hx, if_pos hx, if_neg (fun hl => hLR x (hlp x hl) (hrn x hx))]
    · rw [if_neg hx, if_neg hx]
  have hseg₁ : h₁.load seg = some ⟨v, lastPtr none L, headPtr R none⟩ := by
    rw [hload₁, if_neg (fun hx => hsegR (hrn seg hx)), if_neg (fun hx => hsegL (hlp seg hx)),
      hseg]
  obtain ⟨h₂, hm₂, hl₂, hf₂, hz₂⟩ := Heap.free_eq hseg₁
  refine ⟨h₁, h₂, ?_, hm₂, hf₂.trans (hf₁.trans hf₀), hz₂.trans (hz₁.trans hz₀), ?_, ?_⟩
  · simp only [segmentDisconnect, hseg, Option.bind_eq_bind, Option.bind_some, hm₀, hm₁]
  · refine Linked.replace (M := [(seg, v)]) (N := []) hr trivial (by simp) (by simp) ?_ ?_
    · intro x hx
      have hne : x ≠ seg := fun heq => hsegL (heq ▸ hx)
      rw [hl₂, Function.update_of_ne hne, hload₁, if_neg (fun hh => hLR x hx (hrn x hh))]
      rfl
    · intro x hx
      have hne : x ≠ seg := fun heq => hsegR (heq ▸ hx)
      have hnl : lastPtr none L ≠ some x := fun hl => hLR x (hlp x hl) hx
      rw [hl₂, Function.update_of_ne hne, hload₁, if_neg hnl]
      rfl
  · intro p hp
    rw [ptrs_append, List.mem_append, not_or] at hp
    rw [hl₂]
    by_cases hne : p = seg
    · rw [hne, Function.update_self, if_pos rfl]
    · rw [Function.update_of_ne hne, if_neg hne, hload₁, if_neg (fun hh => hp.2 (hrn p hh)),
        if_neg (fun hl => hp.1 (hlp p hl))]

end CmuTcp
