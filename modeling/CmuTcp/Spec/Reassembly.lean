import CmuTcp.Library.IntervalList

/-!
# Reassembly

What a receive buffer is for: the positions of a stream that have arrived, as the
in-order part `1, ..., next - 1`, of which the application has read `1, ..., read`, and
the intervals held out of order.  A segment is accepted when it brings something new and
ends less than one capacity after what has been read.

An interval that starts exactly at `next` may be held: merging only joins intervals that
share a position.

The structure carries what the operations keep: the held intervals are sorted, disjoint and
within one capacity of what is read.  `accept` and `consume` are the operations, and
`received_accept` says that the first adds exactly the positions of the segment.  The last
lemmas say when `next` is the first position that has not arrived.
-/

namespace CmuTcp

open IntervalList

/-- The positions that have arrived, within one capacity of what has been read. -/
structure Reassembly where
  capacity : ℕ
  read : ℕ
  next : ℕ
  held : List (ℕ × ℕ)
  read_lt_next : read < next
  next_le : next ≤ read + capacity
  sorted : Sorted held
  next_le_held : ∀ x ∈ held, next ≤ x.1
  held_lt : ∀ x ∈ held, x.2 < read + capacity

namespace Reassembly

/-- Nothing has arrived yet. -/
def empty (capacity : ℕ) (h : 0 < capacity) : Reassembly :=
  ⟨capacity, 0, 1, [], Nat.one_pos, by omega, sorted_nil, by simp, by simp⟩

/-- Position `q` has arrived. -/
def Received (r : Reassembly) (q : ℕ) : Prop :=
  (0 < q ∧ q < r.next) ∨ Covers r.held q

/-- Nothing after position `m` has arrived. -/
structure Within (r : Reassembly) (m : ℕ) : Prop where
  next : r.next ≤ m + 1
  held : ∀ x ∈ r.held, x.2 ≤ m

/-- What has arrived lies within one capacity of what has been read. -/
theorem received_lt (r : Reassembly) {q : ℕ} (h : r.Received q) : q < r.read + r.capacity := by
  rcases h with ⟨_, hlt⟩ | ⟨x, hx, _, hle⟩
  · exact lt_of_lt_of_le hlt r.next_le
  · exact lt_of_le_of_lt hle (r.held_lt x hx)

/-- The segment `[a, b]` is new and within the capacity. -/
structure Accepts (r : Reassembly) (a b : ℕ) : Prop where
  le : a ≤ b
  read_lt : r.read < a
  next_le : r.next ≤ b
  lt : b < r.read + r.capacity

instance (r : Reassembly) (a b : ℕ) : Decidable (r.Accepts a b) :=
  decidable_of_iff (a ≤ b ∧ r.read < a ∧ r.next ≤ b ∧ b < r.read + r.capacity)
    ⟨fun h => ⟨h.1, h.2.1, h.2.2.1, h.2.2.2⟩, fun h => ⟨h.le, h.read_lt, h.next_le, h.lt⟩⟩

/-- The interval that a segment is merged into. -/
def merged (r : Reassembly) (a b : ℕ) : ℕ × ℕ := hull a b (meeting a b r.held)

theorem parts_sorted (r : Reassembly) {a b : ℕ} (hab : a ≤ b) :
    Sorted (before a r.held ++ (meeting a b r.held ++ after b r.held)) := by
  rw [r.sorted.parts hab]
  exact r.sorted

/-- What is held after the segment starts after the merged interval ends. -/
theorem merged_lt_after (r : Reassembly) {a b : ℕ} (hab : a ≤ b) {x : ℕ × ℕ}
    (hx : x ∈ after b r.held) : (r.merged a b).2 < x.1 := by
  have hlt := (sorted_append.mp (sorted_append.mp (r.parts_sorted hab)).2.1).2.2
  rcases hull_snd_eq a b (meeting a b r.held) with hb | ⟨y, hy, hy'⟩
  · rw [merged, hb]
    exact (mem_after.mp hx).2
  · rw [merged, hy']
    exact hlt y hy x hx

/-- What is held before the segment ends before the merged interval starts. -/
theorem before_lt_merged (r : Reassembly) {a b : ℕ} (hab : a ≤ b) {x : ℕ × ℕ}
    (hx : x ∈ before a r.held) : x.2 < (r.merged a b).1 := by
  have hlt := (sorted_append.mp (r.parts_sorted hab)).2.2
  rcases hull_fst_eq a b (meeting a b r.held) with ha | ⟨y, hy, hy'⟩
  · rw [merged, ha]
    exact (mem_before.mp hx).2
  · rw [merged, hy']
    exact hlt x hx y (List.mem_append_left _ hy)

/-- When the merged interval continues the in-order part, nothing is held before it. -/
theorem before_eq_nil (r : Reassembly) {a b : ℕ} (hab : a ≤ b)
    (hle : (r.merged a b).1 ≤ r.next) : before a r.held = [] := by
  rw [List.eq_nil_iff_forall_not_mem]
  intro x hx
  have h1 := r.before_lt_merged hab hx
  have h2 := r.next_le_held x (mem_before.mp hx).1
  have h3 := r.sorted.nonempty x (mem_before.mp hx).1
  omega

theorem le_merged_snd (r : Reassembly) (a b : ℕ) : b ≤ (r.merged a b).2 :=
  le_hull_snd a b _

theorem merged_fst_le (r : Reassembly) (a b : ℕ) : (r.merged a b).1 ≤ a :=
  hull_fst_le a b _

/-- The merged interval stays within the capacity. -/
theorem merged_lt (r : Reassembly) {a b : ℕ} (h : r.Accepts a b) :
    (r.merged a b).2 < r.read + r.capacity := by
  rcases hull_snd_eq a b (meeting a b r.held) with hb | ⟨y, hy, hy'⟩
  · rw [merged, hb]
    exact h.lt
  · rw [merged, hy']
    exact r.held_lt y (mem_meeting.mp hy).1

/-- A segment is accepted: it joins the in-order part if the interval it is merged into
    does, and is held otherwise. -/
def accept (r : Reassembly) (a b : ℕ) (h : r.Accepts a b) : Reassembly :=
  if hle : (r.merged a b).1 ≤ r.next then {
    capacity := r.capacity
    read := r.read
    next := (r.merged a b).2 + 1
    held := after b r.held
    read_lt_next := by
      have := r.le_merged_snd a b
      have := h.le
      have := h.read_lt
      omega
    next_le := r.merged_lt h
    sorted := r.sorted.sublist List.filter_sublist
    next_le_held := fun x hx => r.merged_lt_after h.le hx
    held_lt := fun x hx => r.held_lt x (mem_after.mp hx).1 }
  else {
    capacity := r.capacity
    read := r.read
    next := r.next
    held := insertMerge a b r.held
    read_lt_next := r.read_lt_next
    next_le := r.next_le
    sorted := r.sorted.insertMerge h.le
    next_le_held := by
      intro x hx
      rcases List.mem_append.mp hx with hx | hx
      · exact r.next_le_held x (mem_before.mp hx).1
      · rcases List.mem_cons.mp hx with rfl | hx
        · exact Nat.le_of_lt (Nat.lt_of_not_le hle)
        · exact r.next_le_held x (mem_after.mp hx).1
    held_lt := by
      intro x hx
      rcases List.mem_append.mp hx with hx | hx
      · exact r.held_lt x (mem_before.mp hx).1
      · rcases List.mem_cons.mp hx with rfl | hx
        · exact r.merged_lt h
        · exact r.held_lt x (mem_after.mp hx).1 }

/-- The application reads `n` positions of the in-order part. -/
def consume (r : Reassembly) (n : ℕ) (h : r.read + n < r.next) : Reassembly where
  capacity := r.capacity
  read := r.read + n
  next := r.next
  held := r.held
  read_lt_next := h
  next_le := by
    have := r.next_le
    omega
  sorted := r.sorted
  next_le_held := r.next_le_held
  held_lt := fun x hx => by
    have := r.held_lt x hx
    omega

section Accept

variable {r : Reassembly} {a b : ℕ}

@[simp] theorem accept_capacity (h : r.Accepts a b) :
    (r.accept a b h).capacity = r.capacity := by
  unfold accept
  split <;> rfl

@[simp] theorem accept_read (h : r.Accepts a b) : (r.accept a b h).read = r.read := by
  unfold accept
  split <;> rfl

theorem accept_next_of_le (h : r.Accepts a b) (hle : (r.merged a b).1 ≤ r.next) :
    (r.accept a b h).next = (r.merged a b).2 + 1 := by
  rw [accept, dif_pos hle]

theorem accept_held_of_le (h : r.Accepts a b) (hle : (r.merged a b).1 ≤ r.next) :
    (r.accept a b h).held = after b r.held := by
  rw [accept, dif_pos hle]

theorem accept_next_of_lt (h : r.Accepts a b) (hlt : r.next < (r.merged a b).1) :
    (r.accept a b h).next = r.next := by
  rw [accept, dif_neg (Nat.not_le.mpr hlt)]

theorem accept_held_of_lt (h : r.Accepts a b) (hlt : r.next < (r.merged a b).1) :
    (r.accept a b h).held = insertMerge a b r.held := by
  rw [accept, dif_neg (Nat.not_le.mpr hlt)]

theorem accept_next (h : r.Accepts a b) : (r.accept a b h).next =
    if (r.merged a b).1 ≤ r.next then (r.merged a b).2 + 1 else r.next := by
  split
  · rename_i hle
    exact accept_next_of_le h hle
  · rename_i hgt
    exact accept_next_of_lt h (Nat.lt_of_not_le hgt)

/-- What is held afterwards: the intervals that do not meet the segment, and the merged one
    unless it continues the in-order part. -/
theorem mem_accept_held (h : r.Accepts a b) {v : ℕ × ℕ} : v ∈ (r.accept a b h).held ↔
    (v ∈ r.held ∧ ¬ (a ≤ v.2 ∧ v.1 ≤ b)) ∨ (v = r.merged a b ∧ r.next < (r.merged a b).1) := by
  have hside : v ∈ r.held ∧ ¬ (a ≤ v.2 ∧ v.1 ≤ b) ↔ v ∈ before a r.held ∨ v ∈ after b r.held := by
    rw [mem_before, mem_after, not_and_or, not_le, not_le, and_or_left]
  rw [hside]
  rcases Nat.lt_or_ge r.next (r.merged a b).1 with hlt | hle
  · rw [accept_held_of_lt h hlt, insertMerge, List.mem_append, List.mem_cons]
    unfold merged at hlt ⊢
    tauto
  · rw [accept_held_of_le h hle, r.before_eq_nil h.le hle]
    have hnot := Nat.not_lt.mpr hle
    simp [hnot]

/-- The in-order part never shrinks. -/
theorem next_le_accept (h : r.Accepts a b) : r.next ≤ (r.accept a b h).next := by
  rcases Nat.lt_or_ge r.next (r.merged a b).1 with hlt | hle
  · rw [accept_next_of_lt h hlt]
  · rw [accept_next_of_le h hle]
    have := r.le_merged_snd a b
    have := h.next_le
    omega

/-- The in-order part takes in a segment that continues it. -/
theorem lt_accept_next (h : r.Accepts a b) (ha : a ≤ r.next) : b < (r.accept a b h).next := by
  have hfst := r.merged_fst_le a b
  have hsnd := r.le_merged_snd a b
  rw [accept_next_of_le h (le_trans hfst ha)]
  omega

theorem Within.mono {m m' : ℕ} (h : r.Within m) (hle : m ≤ m') : r.Within m' :=
  ⟨le_trans h.next (Nat.add_le_add_right hle 1), fun x hx => le_trans (h.held x hx) hle⟩

theorem Within.merged {m : ℕ} (h : r.Within m) (hb : b ≤ m) : (r.merged a b).2 ≤ m := by
  rcases hull_snd_eq a b (meeting a b r.held) with heq | ⟨y, hy, heq⟩
  · rw [Reassembly.merged, heq]
    exact hb
  · rw [Reassembly.merged, heq]
    exact h.held y (mem_meeting.mp hy).1

/-- Accepting a segment reaches no further than the segment and what was there. -/
theorem Within.accept {m : ℕ} (h : r.Within m) (hacc : r.Accepts a b) (hb : b ≤ m) :
    (r.accept a b hacc).Within m := by
  have hmerged := h.merged (a := a) hb
  rcases Nat.lt_or_ge r.next (r.merged a b).1 with hlt | hle
  · refine ⟨accept_next_of_lt hacc hlt ▸ h.next, ?_⟩
    rw [accept_held_of_lt hacc hlt]
    intro x hx
    rcases List.mem_append.mp hx with hx | hx
    · exact h.held x (mem_before.mp hx).1
    · rcases List.mem_cons.mp hx with rfl | hx
      · exact hmerged
      · exact h.held x (mem_after.mp hx).1
  · refine ⟨by rw [accept_next_of_le hacc hle]; omega, ?_⟩
    rw [accept_held_of_le hacc hle]
    exact fun x hx => h.held x (mem_after.mp hx).1

/-- **Accepting a segment** adds exactly its positions. -/
theorem received_accept (h : r.Accepts a b) (q : ℕ) :
    (r.accept a b h).Received q ↔ r.Received q ∨ (a ≤ q ∧ q ≤ b) := by
  have hmeet : ∀ x ∈ meeting a b r.held, a ≤ x.2 ∧ x.1 ≤ b := fun x hx => (mem_meeting.mp hx).2
  have hhull := mem_hull_iff hmeet (q := q)
  have hread := h.read_lt
  -- the block stays behind a gap: only the held runs change
  rcases Nat.lt_or_ge r.next (r.merged a b).1 with hlt | hle
  · unfold Received
    rw [accept_next_of_lt h hlt, accept_held_of_lt h hlt, r.sorted.covers_insertMerge h.le]
    rw [or_assoc, or_comm (a := Covers r.held q)]
  -- the block closes the gap, and the runs it meets join what is in order
  · have hcovers : Covers r.held q ↔
        Covers (meeting a b r.held) q ∨ Covers (after b r.held) q := by
      rw [← covers_append]
      conv_lhs => rw [← r.sorted.parts h.le, r.before_eq_nil h.le hle, List.nil_append]
    have hb := r.le_merged_snd a b
    have hnext := h.next_le
    unfold Received
    rw [accept_next_of_le h hle, accept_held_of_le h hle, hcovers]
    unfold merged at *
    constructor
    · rintro (⟨hpos, hq⟩ | hafter)
      · rcases Nat.lt_or_ge q r.next with hold | hnew
        · exact Or.inl (Or.inl ⟨hpos, hold⟩)
        · rcases hhull.mp ⟨by omega, by omega⟩ with hab | hm
          · exact Or.inr hab
          · exact Or.inl (Or.inr (Or.inl hm))
      · exact Or.inl (Or.inr (Or.inr hafter))
    -- what is behind the old edge, met, or in the block is behind the new edge
    · rintro ((⟨hpos, hq⟩ | hm | hafter) | hab)
      · exact Or.inl ⟨hpos, by omega⟩
      · have := hhull.mpr (Or.inr hm)
        obtain ⟨x, hx, hxq⟩ := hm
        have := r.next_le_held x (mem_meeting.mp hx).1
        have := r.read_lt_next
        exact Or.inl ⟨by omega, by omega⟩
      · exact Or.inr hafter
      · exact Or.inl ⟨by omega, by omega⟩

/-- Something is held right after the merged interval exactly when it is held right after
    the segment, or right after a held interval with the segment's last position. -/
theorem exists_held_after_merged (h : r.Accepts a b) :
    (∃ v ∈ after b r.held, v.1 = (r.merged a b).2 + 1) ↔
      ∃ v ∈ r.held, v.1 = b + 1 ∨ ∃ u ∈ r.held, u.1 ≤ b ∧ b ≤ u.2 ∧ v.1 = u.2 + 1 := by
  have hb := r.le_merged_snd a b
  constructor
  · rintro ⟨v, hv, heq⟩
    refine ⟨v, (mem_after.mp hv).1, ?_⟩
    -- the merged run ends with the block or with a run it meets
    rcases hull_snd_eq a b (meeting a b r.held) with hsnd | ⟨u, hu, hsnd⟩
    · left
      rw [heq, merged, hsnd]
    · right
      obtain ⟨hmem, _, hle⟩ := mem_meeting.mp hu
      rw [merged, hsnd] at hb heq
      exact ⟨u, hmem, hle, hb, heq⟩
  · rintro ⟨v, hv, hcase⟩
    rcases hcase with heq | ⟨u, hu, hle, hge, heq⟩
    -- a run next to the block itself
    · have hafter : v ∈ after b r.held := mem_after.mpr ⟨hv, by omega⟩
      have := r.merged_lt_after h.le hafter
      exact ⟨v, hafter, by omega⟩
    -- a run next to one that the block meets
    · have hafter : v ∈ after b r.held := mem_after.mpr ⟨hv, by omega⟩
      have := r.merged_lt_after h.le hafter
      have hmeet : u ∈ meeting a b r.held := mem_meeting.mpr ⟨hu, le_trans h.le hge, hle⟩
      have := (hull_le_of_mem (a := a) (b := b) hmeet).2
      unfold merged at *
      exact ⟨v, hafter, by omega⟩

/-- `next` is the first position that has not arrived unless something is held there. -/
theorem received_next_iff (r : Reassembly) : r.Received r.next ↔ ∃ x ∈ r.held, x.1 = r.next := by
  constructor
  · rintro (⟨_, hlt⟩ | ⟨x, hx, hle, _⟩)
    · exact absurd hlt (lt_irrefl _)
    · exact ⟨x, hx, le_antisymm hle (r.next_le_held x hx)⟩
  · rintro ⟨x, hx, heq⟩
    exact Or.inr ⟨x, hx, le_of_eq heq, heq ▸ r.sorted.nonempty x hx⟩

/-- Nothing is held at `next` after a segment is accepted, if nothing was before and the
    segment does not make the in-order part touch what stays held. -/
theorem next_lt_held_accept (h : r.Accepts a b) (hgap : ∀ x ∈ r.held, r.next < x.1) :
    (∀ x ∈ (r.accept a b h).held, (r.accept a b h).next < x.1) ↔
      (a ≤ r.next → ∀ x ∈ after b r.held, x.1 ≠ (r.merged a b).2 + 1) := by
  rcases Nat.lt_or_ge r.next (r.merged a b).1 with hlt | hle
  -- the merged run starts beyond the next position, so it is held
  · have hfst := r.merged_fst_le a b
    rw [accept_next_of_lt h hlt, accept_held_of_lt h hlt]
    refine iff_of_true ?_ (fun hcontra => absurd hcontra (by omega))
    intro x hx
    rcases List.mem_append.mp hx with hx | hx
    · exact hgap x (mem_before.mp hx).1
    · rcases List.mem_cons.mp hx with rfl | hx
      · exact hlt
      · exact hgap x (mem_after.mp hx).1
  -- no held run touches the next position: the block itself must reach it
  · have ha : a ≤ r.next := by
      rcases hull_fst_eq a b (meeting a b r.held) with heq | ⟨y, hy, heq⟩
      · rw [merged, heq] at hle
        exact hle
      · rw [merged, heq] at hle
        exact absurd (hgap y (mem_meeting.mp hy).1) (Nat.not_lt.mpr hle)
    rw [accept_next_of_le h hle, accept_held_of_le h hle]
    constructor
    · intro hall _ x hx heq
      have := hall x hx
      omega
    · intro hne x hx
      have h1 := r.merged_lt_after h.le hx
      have h2 := hne ha x hx
      omega

end Accept

end Reassembly

end CmuTcp
