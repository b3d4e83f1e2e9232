import Mathlib.Order.Lattice
import Mathlib.Order.MinMax
import Mathlib.Data.List.Basic
import Mathlib.Data.List.Pairwise

/-!
# Sorted Lists of Disjoint Intervals

Closed intervals of a linear order, kept as a list sorted from left to right without
overlaps.  `insertMerge a b xs` adds the interval `[a, b]`: the intervals that meet it
are swallowed by their common hull, the others stay where they are.

The two facts the module is about: the result is sorted and disjoint again, and it
covers exactly the points covered before together with those of `[a, b]`.  Intervals
that only touch (`x.2 + 1 = y.1` over the integers) are not merged.
-/

namespace IntervalList

variable {α : Type*} [LinearOrder α]

/-- Every interval is non-empty, and each lies strictly before the later ones. -/
structure Sorted (xs : List (α × α)) : Prop where
  nonempty : ∀ x ∈ xs, x.1 ≤ x.2
  disjoint : xs.Pairwise (fun x y => x.2 < y.1)

/-- Some interval of the list contains the point `q`. -/
def Covers (xs : List (α × α)) (q : α) : Prop :=
  ∃ x ∈ xs, x.1 ≤ q ∧ q ≤ x.2

/-- The intervals that end before `a`. -/
def before (a : α) (xs : List (α × α)) : List (α × α) :=
  xs.filter (fun x => x.2 < a)

/-- The intervals that meet `[a, b]`. -/
def meeting (a b : α) (xs : List (α × α)) : List (α × α) :=
  xs.filter (fun x => a ≤ x.2 ∧ x.1 ≤ b)

/-- The intervals that start after `b`. -/
def after (b : α) (xs : List (α × α)) : List (α × α) :=
  xs.filter (fun x => b < x.1)

/-- The hull of `[a, b]` and the intervals of a list. -/
def hull (a b : α) (xs : List (α × α)) : α × α :=
  (xs.foldr (fun x m => min x.1 m) a, xs.foldr (fun x m => max x.2 m) b)

/-- Insert `[a, b]`, merging it with the intervals that meet it. -/
def insertMerge (a b : α) (xs : List (α × α)) : List (α × α) :=
  before a xs ++ hull a b (meeting a b xs) :: after b xs

/-! ## Sublists -/

theorem Sorted.sublist {xs ys : List (α × α)} (h : Sorted xs) (hsub : ys.Sublist xs) :
    Sorted ys :=
  ⟨fun x hx => h.nonempty x (hsub.subset hx), h.disjoint.sublist hsub⟩

theorem sorted_nil : Sorted ([] : List (α × α)) :=
  ⟨by simp, List.Pairwise.nil⟩

theorem sorted_append {xs ys : List (α × α)} :
    Sorted (xs ++ ys) ↔ Sorted xs ∧ Sorted ys ∧ ∀ x ∈ xs, ∀ y ∈ ys, x.2 < y.1 := by
  constructor
  · intro h
    have hp := List.pairwise_append.mp h.disjoint
    exact ⟨h.sublist (List.sublist_append_left xs ys),
      h.sublist (List.sublist_append_right xs ys), hp.2.2⟩
  · rintro ⟨hx, hy, hxy⟩
    refine ⟨fun z hz => ?_, List.pairwise_append.mpr ⟨hx.disjoint, hy.disjoint, hxy⟩⟩
    rcases List.mem_append.mp hz with hz | hz
    · exact hx.nonempty z hz
    · exact hy.nonempty z hz

theorem sorted_cons {x : α × α} {xs : List (α × α)} :
    Sorted (x :: xs) ↔ x.1 ≤ x.2 ∧ Sorted xs ∧ ∀ y ∈ xs, x.2 < y.1 := by
  constructor
  · intro h
    have hp := List.pairwise_cons.mp h.disjoint
    exact ⟨h.nonempty x (by simp), h.sublist (List.sublist_cons_self x xs), hp.1⟩
  · rintro ⟨hx, hxs, hlt⟩
    refine ⟨fun z hz => ?_, List.pairwise_cons.mpr ⟨hlt, hxs.disjoint⟩⟩
    rcases List.mem_cons.mp hz with rfl | hz
    · exact hx
    · exact hxs.nonempty z hz

/-- The first interval of a sorted list starts first. -/
theorem Sorted.le_of_mem_cons {x : α × α} {xs : List (α × α)} (h : Sorted (x :: xs))
    {y : α × α} (hy : y ∈ x :: xs) : x.1 ≤ y.1 := by
  have hs := sorted_cons.mp h
  rcases List.mem_cons.mp hy with rfl | hy
  · exact le_refl _
  · exact le_trans hs.1 (le_of_lt (hs.2.2 y hy))

/-! ## Covered points -/

theorem covers_nil (q : α) : ¬ Covers ([] : List (α × α)) q := by
  simp [Covers]

theorem covers_cons {x : α × α} {xs : List (α × α)} {q : α} :
    Covers (x :: xs) q ↔ (x.1 ≤ q ∧ q ≤ x.2) ∨ Covers xs q := by
  simp [Covers]

theorem covers_append {xs ys : List (α × α)} {q : α} :
    Covers (xs ++ ys) q ↔ Covers xs q ∨ Covers ys q := by
  simp only [Covers, List.mem_append, or_and_right, exists_or]

/-! ## The three parts of a list -/

/-- A sorted list is the part before `[a, b]`, the part that meets it and the part
    after it, in this order. -/
theorem Sorted.parts {xs : List (α × α)} (h : Sorted xs) {a b : α} (hab : a ≤ b) :
    before a xs ++ (meeting a b xs ++ after b xs) = xs := by
  induction xs with
  | nil => rfl
  | cons x xs ih =>
    obtain ⟨hx, hxs, hlt⟩ := sorted_cons.mp h
    have hrest := ih hxs
    -- `x` ends before `a`, or it meets the interval, or it starts after `b`
    rcases lt_or_ge x.2 a with hbefore | hmeets
    · have hnot : ¬ a ≤ x.2 := not_le.mpr hbefore
      have hnot' : ¬ b < x.1 := not_lt.mpr (le_trans hx (le_trans (le_of_lt hbefore) hab))
      simp only [before, meeting, after, List.filter_cons, hbefore, hnot, hnot', decide_true,
        if_true, false_and, decide_false, Bool.false_eq_true, if_false, List.cons_append] at hrest ⊢
      rw [hrest]
    · -- nothing that follows `x` ends before `a`
      have hnone : before a xs = [] := by
        refine List.filter_eq_nil_iff.mpr (fun y hy => ?_)
        have hy' := hxs.nonempty y hy
        simpa using le_trans hmeets (le_trans (le_of_lt (hlt y hy)) hy')
      have hnot : ¬ x.2 < a := not_lt.mpr hmeets
      rcases le_or_gt x.1 b with hstart | hafter
      · have hnot' : ¬ b < x.1 := not_lt.mpr hstart
        rw [hnone, List.nil_append] at hrest
        simp only [before] at hnone
        simp only [before, meeting, after, List.filter_cons, hnot, hmeets, hstart, hnot',
          decide_false, Bool.false_eq_true, if_false, and_self, decide_true, if_true, hnone,
          List.nil_append, List.cons_append] at hrest ⊢
        rw [hrest]
      · -- `x` starts after `b`, and so does everything that follows it
        have hnot' : ¬ x.1 ≤ b := not_le.mpr hafter
        have hmeet : meeting a b xs = [] := by
          refine List.filter_eq_nil_iff.mpr (fun y hy => ?_)
          have : b < y.1 := lt_of_lt_of_le hafter (le_trans hx (le_of_lt (hlt y hy)))
          simp [this]
        rw [hnone, hmeet, List.nil_append, List.nil_append] at hrest
        simp only [before] at hnone
        simp only [meeting] at hmeet
        simp only [before, meeting, after, List.filter_cons, hnot, hmeets, hafter, hnot',
          decide_false, Bool.false_eq_true, if_false, and_false, decide_true, if_true, hnone,
          hmeet, List.nil_append] at hrest ⊢
        rw [hrest]

theorem mem_before {a : α} {xs : List (α × α)} {x : α × α} :
    x ∈ before a xs ↔ x ∈ xs ∧ x.2 < a := by
  simp [before]

theorem mem_meeting {a b : α} {xs : List (α × α)} {x : α × α} :
    x ∈ meeting a b xs ↔ x ∈ xs ∧ a ≤ x.2 ∧ x.1 ≤ b := by
  simp [meeting]

theorem mem_after {b : α} {xs : List (α × α)} {x : α × α} :
    x ∈ after b xs ↔ x ∈ xs ∧ b < x.1 := by
  simp [after]

/-! ## Hulls -/

@[simp] theorem hull_nil (a b : α) : hull a b [] = (a, b) := rfl

@[simp] theorem hull_cons (a b : α) (x : α × α) (xs : List (α × α)) :
    hull a b (x :: xs) = (min x.1 (hull a b xs).1, max x.2 (hull a b xs).2) := rfl

theorem hull_fst_le (a b : α) (xs : List (α × α)) : (hull a b xs).1 ≤ a := by
  induction xs with
  | nil => exact le_refl a
  | cons x xs ih => exact le_trans (min_le_right _ _) ih

theorem le_hull_snd (a b : α) (xs : List (α × α)) : b ≤ (hull a b xs).2 := by
  induction xs with
  | nil => exact le_refl b
  | cons x xs ih => exact le_trans ih (le_max_right _ _)

/-- The hull starts where `[a, b]` or one of the intervals starts. -/
theorem hull_fst_eq (a b : α) (xs : List (α × α)) :
    (hull a b xs).1 = a ∨ ∃ x ∈ xs, (hull a b xs).1 = x.1 := by
  induction xs with
  | nil => exact Or.inl rfl
  | cons x xs ih =>
    rcases min_choice x.1 (hull a b xs).1 with hmin | hmin
    · exact Or.inr ⟨x, by simp, hmin⟩
    · rcases ih with hfst | ⟨y, hy, hfst⟩
      · exact Or.inl (hmin.trans hfst)
      · exact Or.inr ⟨y, List.mem_cons_of_mem x hy, hmin.trans hfst⟩

/-- The hull ends where `[a, b]` or one of the intervals ends. -/
theorem hull_snd_eq (a b : α) (xs : List (α × α)) :
    (hull a b xs).2 = b ∨ ∃ x ∈ xs, (hull a b xs).2 = x.2 := by
  induction xs with
  | nil => exact Or.inl rfl
  | cons x xs ih =>
    rcases max_choice x.2 (hull a b xs).2 with hmax | hmax
    · exact Or.inr ⟨x, by simp, hmax⟩
    · rcases ih with hsnd | ⟨y, hy, hsnd⟩
      · exact Or.inl (hmax.trans hsnd)
      · exact Or.inr ⟨y, List.mem_cons_of_mem x hy, hmax.trans hsnd⟩

theorem hull_le_of_mem {a b : α} {xs : List (α × α)} {x : α × α} (hx : x ∈ xs) :
    (hull a b xs).1 ≤ x.1 ∧ x.2 ≤ (hull a b xs).2 := by
  induction xs with
  | nil => simp at hx
  | cons y ys ih =>
    rcases List.mem_cons.mp hx with rfl | hx
    · exact ⟨min_le_left _ _, le_max_left _ _⟩
    · exact ⟨le_trans (min_le_right _ _) (ih hx).1, le_trans (ih hx).2 (le_max_right _ _)⟩

/-- On a sorted list the hull takes its left end from the first interval. -/
theorem Sorted.hull_fst {x : α × α} {xs : List (α × α)} (h : Sorted (x :: xs)) (a b : α) :
    (hull a b (x :: xs)).1 = min x.1 a := by
  apply le_antisymm
  · exact le_min (hull_le_of_mem (by simp)).1 (hull_fst_le a b _)
  · rcases hull_fst_eq a b (x :: xs) with hfst | ⟨y, hy, hfst⟩
    · rw [hfst]
      exact min_le_right _ _
    · rw [hfst]
      exact le_trans (min_le_left _ _) (h.le_of_mem_cons hy)

/-- On a sorted list the hull takes its right end from the last interval. -/
theorem Sorted.hull_snd {x : α × α} {xs : List (α × α)} (h : Sorted (xs ++ [x])) (a b : α) :
    (hull a b (xs ++ [x])).2 = max x.2 b := by
  have hlast : ∀ y ∈ xs ++ [x], y.2 ≤ x.2 := by
    obtain ⟨_, hx, hlt⟩ := sorted_append.mp h
    intro y hy
    rcases List.mem_append.mp hy with hy | hy
    · exact le_trans (le_of_lt (hlt y hy x (by simp))) (hx.nonempty x (by simp))
    · rw [List.mem_singleton.mp hy]
  apply le_antisymm
  · rcases hull_snd_eq a b (xs ++ [x]) with hsnd | ⟨y, hy, hsnd⟩
    · rw [hsnd]
      exact le_max_right _ _
    · rw [hsnd]
      exact le_trans (hlast y hy) (le_max_left _ _)
  · exact max_le (hull_le_of_mem (by simp)).2 (le_hull_snd a b _)

/-- The hull of `[a, b]` with intervals that meet it contains no other points. -/
theorem mem_hull_iff {a b : α} {xs : List (α × α)}
    (hmeet : ∀ x ∈ xs, a ≤ x.2 ∧ x.1 ≤ b) {q : α} :
    (hull a b xs).1 ≤ q ∧ q ≤ (hull a b xs).2 ↔ (a ≤ q ∧ q ≤ b) ∨ Covers xs q := by
  constructor
  · rintro ⟨hlo, hhi⟩
    rcases lt_or_ge q a with hqa | haq
    · -- left of `a`, the interval where the hull starts reaches up to `a`
      rcases hull_fst_eq a b xs with hfst | ⟨x, hx, hfst⟩
      · exact absurd (hfst ▸ hlo) (not_le.mpr hqa)
      · exact Or.inr ⟨x, hx, hfst ▸ hlo, le_trans (le_of_lt hqa) (hmeet x hx).1⟩
    · rcases le_or_gt q b with hqb | hbq
      · exact Or.inl ⟨haq, hqb⟩
      · rcases hull_snd_eq a b xs with hsnd | ⟨x, hx, hsnd⟩
        · exact absurd (hsnd ▸ hhi) (not_le.mpr hbq)
        · exact Or.inr ⟨x, hx, le_trans (hmeet x hx).2 (le_of_lt hbq), hsnd ▸ hhi⟩
  · rintro (⟨haq, hqb⟩ | ⟨x, hx, hlo, hhi⟩)
    · exact ⟨le_trans (hull_fst_le a b xs) haq, le_trans hqb (le_hull_snd a b xs)⟩
    · have hx' := hull_le_of_mem (a := a) (b := b) hx
      exact ⟨le_trans hx'.1 hlo, le_trans hhi hx'.2⟩

/-! ## Insertion -/

/-- Inserting an interval keeps the list sorted and disjoint. -/
theorem Sorted.insertMerge {xs : List (α × α)} (h : Sorted xs) {a b : α} (hab : a ≤ b) :
    Sorted (insertMerge a b xs) := by
  have hparts := h.parts hab
  rw [← hparts] at h
  obtain ⟨hbefore, hrest, hlt⟩ := sorted_append.mp h
  obtain ⟨_, hafter, hlt'⟩ := sorted_append.mp hrest
  have hhull : (hull a b (meeting a b xs)).1 ≤ (hull a b (meeting a b xs)).2 :=
    le_trans (hull_fst_le _ _ _) (le_trans hab (le_hull_snd _ _ _))
  refine sorted_append.mpr ⟨hbefore, sorted_cons.mpr ⟨hhull, hafter, ?_⟩, ?_⟩
  · intro y hy
    rcases hull_snd_eq a b (meeting a b xs) with hsnd | ⟨x, hx, hsnd⟩
    · rw [hsnd]
      exact (mem_after.mp hy).2
    · rw [hsnd]
      exact hlt' x hx y hy
  · intro x hx y hy
    rcases List.mem_cons.mp hy with rfl | hy
    · rcases hull_fst_eq a b (meeting a b xs) with hfst | ⟨z, hz, hfst⟩
      · rw [hfst]
        exact (mem_before.mp hx).2
      · rw [hfst]
        exact hlt x hx z (List.mem_append_left _ hz)
    · exact hlt x hx y (List.mem_append_right _ hy)

/-- Inserting `[a, b]` adds exactly the points of `[a, b]`. -/
theorem Sorted.covers_insertMerge {xs : List (α × α)} (h : Sorted xs) {a b : α} (hab : a ≤ b)
    (q : α) : Covers (IntervalList.insertMerge a b xs) q ↔ (a ≤ q ∧ q ≤ b) ∨ Covers xs q := by
  have hmeet : ∀ x ∈ meeting a b xs, a ≤ x.2 ∧ x.1 ≤ b := fun x hx => (mem_meeting.mp hx).2
  have hxs : Covers xs q ↔
      Covers (before a xs) q ∨ Covers (meeting a b xs) q ∨ Covers (after b xs) q := by
    conv_lhs => rw [← h.parts hab]
    rw [covers_append, covers_append]
  rw [IntervalList.insertMerge, covers_append, covers_cons, mem_hull_iff hmeet, hxs]
  tauto

/-! ## How many there can be -/

/-- Disjoint intervals between `a` and `b` are no more than the numbers there. -/
theorem Sorted.length_le {xs : List (ℕ × ℕ)} (h : Sorted xs) {a b : ℕ}
    (hlo : ∀ x ∈ xs, a ≤ x.1) (hhi : ∀ x ∈ xs, x.2 < b) : xs.length ≤ b - a := by
  induction xs generalizing a with
  | nil => exact Nat.zero_le _
  | cons x xs ih =>
    obtain ⟨hx, hxs, hlt⟩ := sorted_cons.mp h
    have hrest := ih hxs (a := x.2 + 1) (fun y hy => hlt y hy) fun y hy =>
      hhi y (List.mem_cons_of_mem _ hy)
    have hfirst := hlo x (List.mem_cons_self ..)
    have hlast := hhi x (List.mem_cons_self ..)
    rw [List.length_cons]
    omega

end IntervalList
