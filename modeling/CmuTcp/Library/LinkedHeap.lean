import Mathlib.Data.List.Basic
import Mathlib.Data.List.Nodup
import Mathlib.Data.Finset.Card
import Mathlib.Data.Finset.Range
import Mathlib.Logic.Function.Basic

/-!
# Doubly Linked Lists in a Heap

A heap of doubly linked nodes with `malloc`, `load`, `modify` and `free`.  An access
through an address that is not live has no result (`none`), so a computation that
returns never dereferenced a null or dangling pointer and never freed a node twice.

`malloc` takes the contents of a new node from the heap's `fresh` function: what an
allocator leaves in the memory it returns is a parameter.

`Chain m p xs n` says that the nodes `xs` are linked in order, the first one pointing
back to `p` and the last one on to `n`; `Linked` says that a heap contains a
null-terminated list, and `Represents` that it contains nothing else.  The lemmas below are
what list surgery needs: splitting a chain, changing its outer links, walking along it, and
freeing a stretch of it.
-/

namespace LinkedHeap

/-- Addresses of nodes; a null pointer is `none` in `Option Ptr`. -/
abbrev Ptr := ℕ

/-- A node of a doubly linked list. -/
structure Node (α : Type) where
  val : α
  prev : Option Ptr
  next : Option Ptr

/-- A heap of nodes: `none` marks a freed cell, and `fresh` gives the contents of the
    cell that the allocator hands out at an address. -/
structure Heap (α : Type) where
  cells : List (Option (Node α))
  fresh : Ptr → Node α

variable {α : Type}

namespace Heap

/-- The heap in which nothing has been allocated. -/
def empty (fresh : Ptr → Node α) : Heap α := ⟨[], fresh⟩

/-- The node at a live address. -/
def load (h : Heap α) (p : Ptr) : Option (Node α) := (h.cells[p]?).join

/-- The number of addresses handed out so far. -/
def size (h : Heap α) : ℕ := h.cells.length

/-- Allocate a node; its fields are whatever the allocator left there. -/
def malloc (h : Heap α) : Ptr × Heap α :=
  (h.size, { h with cells := h.cells ++ [some (h.fresh h.size)] })

/-- The addresses that are alive. -/
def live (h : Heap α) : List Ptr := (List.range h.size).filter fun p => (h.load p).isSome

/-- Change the node at a live address. -/
def modify (h : Heap α) (p : Ptr) (f : Node α → Node α) : Option (Heap α) :=
  (h.load p).map fun s => { h with cells := h.cells.set p (some (f s)) }

/-- Free a live node. -/
def free (h : Heap α) (p : Ptr) : Option (Heap α) :=
  (h.load p).map fun _ => { h with cells := h.cells.set p none }

/-- Free through a pointer; freeing the null pointer does nothing. -/
def freePtr (h : Heap α) : Option Ptr → Option (Heap α)
  | none => some h
  | some p => h.free p

/-- Change the node behind a pointer, if it is not the null pointer. -/
def modifyPtr (h : Heap α) (q : Option Ptr) (f : Node α → Node α) : Option (Heap α) :=
  match q with
  | none => some h
  | some p => h.modify p f

/-! ## What the operations do to live addresses -/

theorem lt_size_of_load {h : Heap α} {p : Ptr} {s : Node α} (hp : h.load p = some s) :
    p < h.size := by
  unfold load at hp
  by_contra hge
  rw [List.getElem?_eq_none (not_lt.mp hge)] at hp
  exact absurd hp (by simp)

theorem load_size (h : Heap α) : h.load h.size = none := by
  simp [load, size]

theorem load_malloc (h : Heap α) :
    h.malloc.2.load = Function.update h.load h.malloc.1 (some (h.fresh h.size)) := by
  funext p
  unfold malloc load size
  rcases Nat.lt_trichotomy p h.cells.length with hlt | heq | hgt
  · rw [Function.update_of_ne (Nat.ne_of_lt hlt), List.getElem?_append_left hlt]
  · subst heq
    simp
  · rw [Function.update_of_ne (Nat.ne_of_gt hgt), List.getElem?_eq_none (by simp; omega),
      List.getElem?_eq_none (by omega)]

theorem load_set {h : Heap α} {p : Ptr} (hp : p < h.size) (c : Option (Node α)) :
    (Heap.mk (h.cells.set p c) h.fresh).load = Function.update h.load p c := by
  funext q
  unfold load
  rcases eq_or_ne q p with rfl | hne
  · unfold size at hp
    simp [hp]
  · rw [Function.update_of_ne hne, List.getElem?_set_ne (Ne.symm hne)]

/-- Modifying a live node succeeds and changes that node only. -/
theorem modify_eq {h : Heap α} {p : Ptr} {s : Node α} (hp : h.load p = some s)
    (f : Node α → Node α) : ∃ h', h.modify p f = some h' ∧
      h'.load = Function.update h.load p (some (f s)) ∧ h'.fresh = h.fresh ∧
      h'.size = h.size := by
  refine ⟨_, by rw [modify, hp]; rfl, load_set (lt_size_of_load hp) _, rfl, ?_⟩
  simp [size]

/-- A change through a pointer that is null or live. -/
theorem modifyPtr_eq {h : Heap α} {q : Option Ptr}
    (hq : ∀ p, q = some p → ∃ s, h.load p = some s) (f : Node α → Node α) :
    ∃ h', h.modifyPtr q f = some h' ∧
      (∀ x, h'.load x = if q = some x then (h.load x).map f else h.load x) ∧
      h'.fresh = h.fresh ∧ h'.size = h.size := by
  cases q with
  | none => exact ⟨h, rfl, by simp, rfl, rfl⟩
  | some p =>
    obtain ⟨s, hs⟩ := hq p rfl
    obtain ⟨h', hmod, hload, hfresh, hsize⟩ := modify_eq hs f
    refine ⟨h', hmod, fun x => ?_, hfresh, hsize⟩
    rw [hload]
    by_cases hx : x = p
    · simp [hx, hs]
    · simp [hx, Ne.symm hx]

/-- Freeing a live node succeeds and changes that node only. -/
theorem free_eq {h : Heap α} {p : Ptr} {s : Node α} (hp : h.load p = some s) :
    ∃ h', h.free p = some h' ∧ h'.load = Function.update h.load p none ∧
      h'.fresh = h.fresh ∧ h'.size = h.size := by
  refine ⟨_, by rw [free, hp]; rfl, load_set (lt_size_of_load hp) _, rfl, ?_⟩
  simp [size]

/-- Put a node between two others, each of them null or live, by its links and then theirs. -/
theorem link_eq {h : Heap α} {seg : Ptr} {s : Node α} {lp rn : Option Ptr}
    (hseg : h.load seg = some s) (hlp : ∀ p, lp = some p → p ≠ seg ∧ ∃ t, h.load p = some t)
    (hrn : ∀ p, rn = some p → p ≠ seg ∧ ∃ t, h.load p = some t)
    (hne : ∀ p, lp = some p → rn ≠ some p) :
    ∃ h₁ h₂ h₃ h₄, h.modify seg (fun s => { s with next := rn }) = some h₁ ∧
      h₁.modifyPtr rn (fun s => { s with prev := some seg }) = some h₂ ∧
      h₂.modify seg (fun s => { s with prev := lp }) = some h₃ ∧
      h₃.modifyPtr lp (fun s => { s with next := some seg }) = some h₄ ∧
      h₄.fresh = h.fresh ∧ h₄.size = h.size ∧
      ∀ x, h₄.load x =
        if x = seg then some ⟨s.val, lp, rn⟩
        else if lp = some x then (h.load x).map fun s => { s with next := some seg }
        else if rn = some x then (h.load x).map fun s => { s with prev := some seg }
        else h.load x := by
  -- neither neighbour is the node itself
  have hlp_seg : lp ≠ some seg := fun heq => (hlp seg heq).1 rfl
  have hrn_seg : rn ≠ some seg := fun heq => (hrn seg heq).1 rfl
  -- the four assignments one after the other
  obtain ⟨h₁, hm₁, hl₁, hf₁, hz₁⟩ := modify_eq hseg (fun s => { s with next := rn })
  obtain ⟨h₂, hm₂, hl₂, hf₂, hz₂⟩ := modifyPtr_eq (h := h₁) (q := rn) (by
    intro p hp
    obtain ⟨hps, t, ht⟩ := hrn p hp
    exact ⟨t, by rw [hl₁, Function.update_of_ne hps, ht]⟩) (fun s => { s with prev := some seg })
  -- the node has kept the `next` that was set first
  have hseg₂ : h₂.load seg = some { s with next := rn } := by
    rw [hl₂, if_neg hrn_seg, hl₁, Function.update_self]
  obtain ⟨h₃, hm₃, hl₃, hf₃, hz₃⟩ := modify_eq hseg₂ (fun s => { s with prev := lp })
  obtain ⟨h₄, hm₄, hl₄, hf₄, hz₄⟩ := modifyPtr_eq (h := h₃) (q := lp) (by
    intro p hp
    obtain ⟨hps, t, ht⟩ := hlp p hp
    exact ⟨t, by rw [hl₃, Function.update_of_ne hps, hl₂, if_neg (hne p hp), hl₁,
      Function.update_of_ne hps, ht]⟩) (fun s => { s with next := some seg })
  refine ⟨h₁, h₂, h₃, h₄, hm₁, hm₂, hm₃, hm₄, hf₄.trans (hf₃.trans (hf₂.trans hf₁)),
    hz₄.trans (hz₃.trans (hz₂.trans hz₁)), fun x => ?_⟩
  rw [hl₄, hl₃]
  -- the node itself, its left neighbour, and all others
  by_cases hx : x = seg
  · rw [hx, if_neg hlp_seg, Function.update_self, if_pos rfl]
  · rw [Function.update_of_ne hx, if_neg hx, hl₂, hl₁, Function.update_of_ne hx]
    by_cases hlx : lp = some x
    · rw [if_pos hlx, if_pos hlx, if_neg (hne x hlx)]
    · rw [if_neg hlx, if_neg hlx]

/-- A change at one address leaves the others alone. -/
theorem load_of_modify {h h' : Heap α} {p x : Ptr} {f : Node α → Node α}
    (hmod : h.modify p f = some h') (hx : x ≠ p) : h'.load x = h.load x := by
  obtain ⟨s, hs, rfl⟩ := Option.map_eq_some_iff.mp hmod
  rw [load_set (lt_size_of_load hs), Function.update_of_ne hx]

theorem load_of_modifyPtr {h h' : Heap α} {q : Option Ptr} {x : Ptr} {f : Node α → Node α}
    (hmod : h.modifyPtr q f = some h') (hx : q ≠ some x) : h'.load x = h.load x := by
  cases q with
  | none => rw [Option.some.inj hmod]
  | some p => exact load_of_modify hmod fun heq => hx (congrArg some heq.symm)

theorem load_of_freePtr {h h' : Heap α} {q : Option Ptr} {x : Ptr}
    (hfree : h.freePtr q = some h') (hx : q ≠ some x) : h'.load x = h.load x := by
  cases q with
  | none => rw [Option.some.inj hfree]
  | some p =>
    obtain ⟨s, hs, rfl⟩ := Option.map_eq_some_iff.mp hfree
    rw [load_set (lt_size_of_load hs), Function.update_of_ne fun heq => hx (congrArg some heq.symm)]

end Heap

/-! ## Chains -/

/-- The address of the first node of a list, or `n` when there is none. -/
def headPtr (xs : List (Ptr × α)) (n : Option Ptr) : Option Ptr :=
  match xs with
  | [] => n
  | (x, _) :: _ => some x

/-- The address of the last node of a list, or `p` when there is none. -/
def lastPtr (p : Option Ptr) : List (Ptr × α) → Option Ptr
  | [] => p
  | (x, _) :: xs => lastPtr (some x) xs

/-- The nodes `xs` are linked in order between the pointers `p` and `n`. -/
def Chain (m : Ptr → Option (Node α)) : Option Ptr → List (Ptr × α) → Option Ptr → Prop
  | _, [], _ => True
  | p, (x, v) :: xs, n => m x = some ⟨v, p, headPtr xs n⟩ ∧ Chain m (some x) xs n

/-- The addresses of a list of nodes. -/
def ptrs (xs : List (Ptr × α)) : List Ptr := xs.map Prod.fst

@[simp] theorem headPtr_nil (n : Option Ptr) : headPtr ([] : List (Ptr × α)) n = n := rfl

@[simp] theorem headPtr_cons (x : Ptr × α) (xs : List (Ptr × α)) (n : Option Ptr) :
    headPtr (x :: xs) n = some x.1 := rfl

@[simp] theorem lastPtr_nil (p : Option Ptr) : lastPtr p ([] : List (Ptr × α)) = p := rfl

@[simp] theorem lastPtr_cons (p : Option Ptr) (x : Ptr × α) (xs : List (Ptr × α)) :
    lastPtr p (x :: xs) = lastPtr (some x.1) xs := rfl

@[simp] theorem ptrs_nil : ptrs ([] : List (Ptr × α)) = [] := rfl

@[simp] theorem ptrs_cons (x : Ptr × α) (xs : List (Ptr × α)) :
    ptrs (x :: xs) = x.1 :: ptrs xs := rfl

@[simp] theorem ptrs_append (xs ys : List (Ptr × α)) : ptrs (xs ++ ys) = ptrs xs ++ ptrs ys :=
  List.map_append

theorem headPtr_append (xs ys : List (Ptr × α)) (n : Option Ptr) :
    headPtr (xs ++ ys) n = headPtr xs (headPtr ys n) := by
  cases xs <;> rfl

theorem lastPtr_append (p : Option Ptr) (xs ys : List (Ptr × α)) :
    lastPtr p (xs ++ ys) = lastPtr (lastPtr p xs) ys := by
  induction xs generalizing p with
  | nil => rfl
  | cons x xs ih => exact ih (some x.1)

@[simp] theorem lastPtr_concat (p : Option Ptr) (xs : List (Ptr × α)) (x : Ptr × α) :
    lastPtr p (xs ++ [x]) = some x.1 := by
  rw [lastPtr_append]
  rfl

theorem headPtr_eq_none {xs : List (Ptr × α)} : headPtr xs none = none ↔ xs = [] := by
  cases xs with
  | nil => simp
  | cons x xs => simp

theorem lastPtr_eq_none {xs : List (Ptr × α)} : lastPtr none xs = none ↔ xs = [] := by
  rcases List.eq_nil_or_concat xs with rfl | ⟨xs, x, rfl⟩
  · simp
  · rw [List.concat_eq_append, lastPtr_concat]
    simp

theorem mem_of_headPtr {xs : List (Ptr × α)} {p : Ptr} (h : headPtr xs none = some p) :
    p ∈ ptrs xs := by
  cases xs with
  | nil => simp at h
  | cons x xs =>
    obtain rfl : x.1 = p := by simpa using h
    simp

theorem mem_of_lastPtr {xs : List (Ptr × α)} {p : Ptr} (h : lastPtr none xs = some p) :
    p ∈ ptrs xs := by
  rcases List.eq_nil_or_concat xs with rfl | ⟨xs, x, rfl⟩
  · simp at h
  · obtain rfl : x.1 = p := by simpa using h
    simp

@[simp] theorem chain_nil (m : Ptr → Option (Node α)) (p n : Option Ptr) :
    Chain m p [] n := trivial

@[simp] theorem chain_cons {m : Ptr → Option (Node α)} {p n : Option Ptr} {x : Ptr × α}
    {xs : List (Ptr × α)} : Chain m p (x :: xs) n ↔
      m x.1 = some ⟨x.2, p, headPtr xs n⟩ ∧ Chain m (some x.1) xs n := Iff.rfl

theorem chain_append {m : Ptr → Option (Node α)} {p n : Option Ptr}
    {xs ys : List (Ptr × α)} : Chain m p (xs ++ ys) n ↔
      Chain m p xs (headPtr ys n) ∧ Chain m (lastPtr p xs) ys n := by
  induction xs generalizing p with
  | nil => simp
  | cons x xs ih =>
    rw [List.cons_append, chain_cons, chain_cons, ih, headPtr_append, lastPtr_cons, and_assoc]

/-- The node in the middle of a chain. -/
theorem Chain.middle {m : Ptr → Option (Node α)} {p n : Option Ptr} {xs ys : List (Ptr × α)}
    {x : Ptr × α} (h : Chain m p (xs ++ x :: ys) n) :
    m x.1 = some ⟨x.2, lastPtr p xs, headPtr ys n⟩ :=
  (chain_append.mp h).2.1

/-- A chain depends only on its own nodes. -/
theorem Chain.frame {m m' : Ptr → Option (Node α)} {p n : Option Ptr}
    {xs : List (Ptr × α)} (h : Chain m p xs n) (heq : ∀ x ∈ ptrs xs, m' x = m x) :
    Chain m' p xs n := by
  induction xs generalizing p with
  | nil => trivial
  | cons x xs ih =>
    refine ⟨(heq x.1 (by simp)).trans h.1, ih h.2 (fun y hy => heq y ?_)⟩
    exact List.mem_cons_of_mem _ hy

theorem Chain.live {m : Ptr → Option (Node α)} {p n : Option Ptr} {xs : List (Ptr × α)}
    (h : Chain m p xs n) : ∀ x ∈ ptrs xs, ∃ s, m x = some s := by
  induction xs generalizing p with
  | nil => simp
  | cons x xs ih =>
    intro y hy
    rcases List.mem_cons.mp hy with rfl | hy
    · exact ⟨_, h.1⟩
    · exact ih h.2 y hy

/-- Change where a chain points on to. -/
theorem Chain.relink_next {m m' : Ptr → Option (Node α)} {p n n' : Option Ptr}
    {xs : List (Ptr × α)} (h : Chain m p xs n) (hnodup : (ptrs xs).Nodup)
    (heq : ∀ x ∈ ptrs xs, m' x = if lastPtr none xs = some x
      then (m x).map (fun s => { s with next := n' }) else m x) :
    Chain m' p xs n' := by
  induction xs generalizing p with
  | nil => trivial
  -- the head of the list is the node to relink only if it is the last one
  | cons x xs ih =>
    obtain ⟨hx, hxs⟩ := List.nodup_cons.mp hnodup
    have hhead := heq x.1 (by simp)
    rw [h.1] at hhead
    cases xs with
    | nil => exact ⟨by simpa using hhead, trivial⟩
    | cons y ys =>
      -- another node is behind it, and nodes do not repeat
      have hne : lastPtr (some y.1) ys ≠ some x.1 := by
        intro hlast
        apply hx
        have hmem : ∀ (zs : List (Ptr × α)) (z : Ptr), lastPtr (some z) zs = some x.1 →
            x.1 ∈ z :: ptrs zs := by
          intro zs
          induction zs with
          | nil => simp
          | cons w ws ihw =>
            intro z hz
            exact List.mem_cons_of_mem _ (ihw w.1 hz)
        exact hmem ys y.1 hlast
      refine ⟨by simpa [hne] using hhead, ih h.2 hxs (fun z hz => ?_)⟩
      exact heq z (List.mem_cons_of_mem _ hz)

/-- Change where a chain points back to. -/
theorem Chain.relink_prev {m m' : Ptr → Option (Node α)} {p p' n : Option Ptr}
    {xs : List (Ptr × α)} (h : Chain m p xs n) (hnodup : (ptrs xs).Nodup)
    (heq : ∀ x ∈ ptrs xs, m' x = if headPtr xs none = some x
      then (m x).map (fun s => { s with prev := p' }) else m x) :
    Chain m' p' xs n := by
  cases xs with
  | nil => trivial
  | cons x xs =>
    obtain ⟨hx, _⟩ := List.nodup_cons.mp hnodup
    have hhead := heq x.1 (by simp)
    rw [h.1] at hhead
    refine ⟨by simpa using hhead, h.2.frame (fun y hy => ?_)⟩
    have hne : x.1 ≠ y := fun heq => hx (heq ▸ hy)
    simpa [hne] using heq y (List.mem_cons_of_mem _ hy)

/-! ## Walking along a chain -/

/-- Follow `link` from `cur` while the node satisfies `cond`; `none` when an address is not
    live or the fuel does not suffice. -/
def walk (link : Node α → Option Ptr) (h : Heap α) (cond : Node α → Bool) :
    ℕ → Option Ptr → Option (Option Ptr)
  | 0, _ => none
  | _ + 1, none => some none
  | fuel + 1, some c => do
    let s ← h.load c
    if cond s then walk link h cond fuel (link s) else some (some c)

/-- Follow `next`. -/
def walkNext (h : Heap α) (cond : Node α → Bool) (fuel : ℕ) (cur : Option Ptr) :
    Option (Option Ptr) :=
  walk Node.next h cond fuel cur

/-- Follow `prev`. -/
def walkPrev (h : Heap α) (cond : Node α → Bool) (fuel : ℕ) (cur : Option Ptr) :
    Option (Option Ptr) :=
  walk Node.prev h cond fuel cur

/-- Walking forwards passes the nodes that satisfy the condition and stops at the first
    one that does not, or at the end of the list. -/
theorem walkNext_chain {h : Heap α} {c : α → Bool} {p : Option Ptr}
    {xs ys : List (Ptr × α)} (hchain : Chain h.load p (xs ++ ys) none)
    (hpass : ∀ x ∈ xs, c x.2 = true) (hstop : ∀ y ∈ ys.head?, c y.2 = false)
    {fuel : ℕ} (hfuel : xs.length < fuel) :
    walkNext h (fun s => c s.val) fuel (headPtr (xs ++ ys) none) = some (headPtr ys none) := by
  induction xs generalizing p fuel with
  | nil =>
    obtain ⟨fuel, rfl⟩ : ∃ k, fuel = k + 1 := ⟨fuel - 1, by omega⟩
    cases ys with
    | nil => rfl
    | cons y ys =>
      have hy : c y.2 = false := hstop y (by simp)
      simp only [List.nil_append, headPtr_cons, walkNext, walk, hchain.1, Option.bind_eq_bind,
        Option.bind_some, hy, Bool.false_eq_true, if_false]
  | cons x xs ih =>
    obtain ⟨fuel, rfl⟩ : ∃ k, fuel = k + 1 := ⟨fuel - 1, by omega⟩
    have hx : c x.2 = true := hpass x (by simp)
    have hrest : walkNext h _ fuel _ = _ :=
      ih hchain.2 (fun z hz => hpass z (List.mem_cons_of_mem _ hz)) (by simp at hfuel; omega)
    have hload := hchain.1
    simp only [List.cons_append, headPtr_cons, walkNext, walk, hload, Option.bind_eq_bind,
      Option.bind_some, hx, if_true]
    exact hrest

/-- Walking backwards, likewise. -/
theorem walkPrev_chain {h : Heap α} {c : α → Bool} {n : Option Ptr}
    {xs ys : List (Ptr × α)} (hchain : Chain h.load none (xs ++ ys) n)
    (hpass : ∀ y ∈ ys, c y.2 = true) (hstop : ∀ x ∈ xs.getLast?, c x.2 = false)
    {fuel : ℕ} (hfuel : ys.length < fuel) :
    walkPrev h (fun s => c s.val) fuel (lastPtr none (xs ++ ys)) = some (lastPtr none xs) := by
  induction ys using List.reverseRecOn generalizing n fuel with
  -- the scan stops at the last node of `xs`
  | nil =>
    obtain ⟨fuel, rfl⟩ : ∃ k, fuel = k + 1 := ⟨fuel - 1, by omega⟩
    rw [List.append_nil] at hchain ⊢
    -- there is no such node, or `c` is false of it
    induction xs using List.reverseRecOn with
    | nil => rfl
    | append_singleton xs x _ =>
      have hx : c x.2 = false := hstop x (by simp)
      have hload := hchain.middle
      simp only [lastPtr_concat, walkPrev, walk, hload, Option.bind_eq_bind, Option.bind_some, hx,
        Bool.false_eq_true, if_false]
  -- it passes the last node of `ys`
  | append_singleton ys y ih =>
    obtain ⟨fuel, rfl⟩ : ∃ k, fuel = k + 1 := ⟨fuel - 1, by omega⟩
    have hy : c y.2 = true := hpass y (by simp)
    rw [← List.append_assoc] at hchain ⊢
    have hload := hchain.middle
    have hrest : walkPrev h _ fuel _ = _ := ih (chain_append.mp hchain).1
      (fun z hz => hpass z (List.mem_append_left _ hz)) (by simp at hfuel; omega)
    simp only [lastPtr_concat, walkPrev, walk, hload, Option.bind_eq_bind, Option.bind_some, hy,
      if_true]
    exact hrest

/-- The values met on the way from a pointer along `next`. -/
def valuesFrom (h : Heap α) : ℕ → Option Ptr → List α
  | 0, _ => []
  | _ + 1, none => []
  | fuel + 1, some c =>
    match h.load c with
    | some s => s.val :: valuesFrom h fuel s.next
    | none => []

theorem valuesFrom_chain {h : Heap α} {p : Option Ptr} {xs : List (Ptr × α)}
    (hchain : Chain h.load p xs none) {fuel : ℕ} (hfuel : xs.length ≤ fuel) :
    valuesFrom h fuel (headPtr xs none) = xs.map Prod.snd := by
  induction xs generalizing p fuel with
  | nil => cases fuel <;> rfl
  | cons x xs ih =>
    obtain ⟨fuel, rfl⟩ : ∃ k, fuel = k + 1 := ⟨fuel - 1, by simp at hfuel; omega⟩
    have hload := hchain.1
    have hrest : valuesFrom h fuel (headPtr xs none) = xs.map Prod.snd :=
      ih hchain.2 (by simpa using hfuel)
    simp only [headPtr_cons, valuesFrom, hload, hrest, List.map_cons]

/-! ## Lists in a heap -/

/-- The null-terminated list `xs` lies in the heap and is reached from both its ends. -/
structure Linked (h : Heap α) (first last : Option Ptr) (xs : List (Ptr × α)) : Prop where
  chain : Chain h.load none xs none
  first_eq : first = headPtr xs none
  last_eq : last = lastPtr none xs
  nodup : (ptrs xs).Nodup

/-- A list has no more nodes than the heap has handed out. -/
theorem Linked.length_le {h : Heap α} {first last : Option Ptr} {xs : List (Ptr × α)}
    (hl : Linked h first last xs) : xs.length ≤ h.size := by
  have hsub : (ptrs xs).toFinset ⊆ Finset.range h.size := by
    intro p hp
    obtain ⟨s, hs⟩ := hl.chain.live p (List.mem_toFinset.mp hp)
    exact Finset.mem_range.mpr (Heap.lt_size_of_load hs)
  have hcard := Finset.card_le_card hsub
  rw [List.toFinset_card_of_nodup hl.nodup, Finset.card_range] at hcard
  simpa [ptrs] using hcard

/-- A scan from the first node of a list stops at the first node that it does not pass. -/
theorem Linked.walkNext {h : Heap α} {first last : Option Ptr} {xs ys : List (Ptr × α)}
    (hl : Linked h first last (xs ++ ys)) {c : α → Bool} (hpass : ∀ x ∈ xs, c x.2 = true)
    (hstop : ∀ y ∈ ys.head?, c y.2 = false) :
    LinkedHeap.walkNext h (fun s => c s.val) (h.size + 1) first = some (headPtr ys none) := by
  have hlen := hl.length_le
  rw [List.length_append] at hlen
  rw [hl.first_eq]
  exact walkNext_chain hl.chain hpass hstop (by omega)

/-- A scan from the last node, likewise. -/
theorem Linked.walkPrev {h : Heap α} {first last : Option Ptr} {xs ys : List (Ptr × α)}
    (hl : Linked h first last (xs ++ ys)) {c : α → Bool} (hpass : ∀ y ∈ ys, c y.2 = true)
    (hstop : ∀ x ∈ xs.getLast?, c x.2 = false) :
    LinkedHeap.walkPrev h (fun s => c s.val) (h.size + 1) last = some (lastPtr none xs) := by
  have hlen := hl.length_le
  rw [List.length_append] at hlen
  rw [hl.last_eq]
  exact walkPrev_chain hl.chain hpass hstop (by omega)

/-- Where a scan from the front stops. -/
theorem exists_front {β : Type} (c : β → Bool) (xs : List β) :
    ∃ ys zs, xs = ys ++ zs ∧ (∀ y ∈ ys, c y = true) ∧ ∀ z ∈ zs.head?, c z = false := by
  induction xs with
  | nil => exact ⟨[], [], rfl, by simp, by simp⟩
  | cons x xs ih =>
    cases hx : c x with
    | false => exact ⟨[], x :: xs, rfl, by simp, by simpa using hx⟩
    | true =>
      obtain ⟨ys, zs, rfl, hys, hzs⟩ := ih
      exact ⟨x :: ys, zs, rfl, List.forall_mem_cons.mpr ⟨hx, hys⟩, hzs⟩

/-- Where a scan from the back stops. -/
theorem exists_back {β : Type} (c : β → Bool) (xs : List β) :
    ∃ ys zs, xs = ys ++ zs ∧ (∀ z ∈ zs, c z = true) ∧ ∀ y ∈ ys.getLast?, c y = false := by
  obtain ⟨ys, zs, hxs, hys, hzs⟩ := exists_front c xs.reverse
  refine ⟨zs.reverse, ys.reverse, ?_, fun z hz => hys z (List.mem_reverse.mp hz), ?_⟩
  · rw [← List.reverse_append, ← hxs, List.reverse_reverse]
  · rwa [List.getLast?_reverse]

/-- In two heaps with the same list a scan from the front stops at the same address. -/
theorem Linked.walkNext_congr {h k : Heap α} {first last : Option Ptr} {xs : List (Ptr × α)}
    (hh : Linked h first last xs) (hk : Linked k first last xs) (c : α → Bool) :
    LinkedHeap.walkNext k (fun s => c s.val) (k.size + 1) first =
      LinkedHeap.walkNext h (fun s => c s.val) (h.size + 1) first := by
  obtain ⟨ys, zs, rfl, hys, hzs⟩ := exists_front (fun x : Ptr × α => c x.2) xs
  rw [hh.walkNext hys hzs, hk.walkNext hys hzs]

/-- So does a scan from the back. -/
theorem Linked.walkPrev_congr {h k : Heap α} {first last : Option Ptr} {xs : List (Ptr × α)}
    (hh : Linked h first last xs) (hk : Linked k first last xs) (c : α → Bool) :
    LinkedHeap.walkPrev k (fun s => c s.val) (k.size + 1) last =
      LinkedHeap.walkPrev h (fun s => c s.val) (h.size + 1) last := by
  obtain ⟨ys, zs, rfl, hzs, hys⟩ := exists_back (fun x : Ptr × α => c x.2) xs
  rw [hh.walkPrev hzs hys, hk.walkPrev hzs hys]

/-- The address that the allocator hands out next is not in the list. -/
theorem Linked.size_notMem {h : Heap α} {first last : Option Ptr} {xs : List (Ptr × α)}
    (hl : Linked h first last xs) : h.size ∉ ptrs xs := by
  intro hmem
  obtain ⟨s, hs⟩ := hl.chain.live _ hmem
  rw [h.load_size] at hs
  exact absurd hs (by simp)

/-- Replace the stretch `M` of a list by `N`: outside `N` only the links that pointed
    into the stretch change. -/
theorem Linked.replace {h h' : Heap α} {first last : Option Ptr}
    {L M R N : List (Ptr × α)} (hl : Linked h first last (L ++ (M ++ R)))
    (hN : Chain h'.load (lastPtr none L) N (headPtr R none))
    (hnodup : (ptrs N).Nodup) (hdisj : ∀ x ∈ ptrs N, x ∉ ptrs L ∧ x ∉ ptrs R)
    (hleft : ∀ x ∈ ptrs L, h'.load x = if lastPtr none L = some x
      then (h.load x).map (fun s => { s with next := headPtr N (headPtr R none) })
      else h.load x)
    (hright : ∀ x ∈ ptrs R, h'.load x = if headPtr R none = some x
      then (h.load x).map (fun s => { s with prev := lastPtr (lastPtr none L) N })
      else h.load x) :
    Linked h' (headPtr (L ++ (N ++ R)) none) (lastPtr none (L ++ (N ++ R)))
      (L ++ (N ++ R)) := by
  -- the list before is three stretches with no node in common
  obtain ⟨hchainL, hchainMR⟩ := chain_append.mp hl.chain
  have hchainR := (chain_append.mp hchainMR).2
  have hall := hl.nodup
  rw [ptrs_append, ptrs_append] at hall
  obtain ⟨hndL, hndMR, hLMR⟩ := List.nodup_append.mp hall
  have hndR := (List.nodup_append.mp hndMR).2.1
  have hLR : ∀ x ∈ ptrs L, ∀ y ∈ ptrs R, x ≠ y :=
    fun x hx y hy => hLMR x hx y (List.mem_append_right _ hy)
  refine ⟨?_, rfl, rfl, ?_⟩
  -- the outer two are relinked to the new one in the middle
  · rw [chain_append, chain_append, headPtr_append]
    exact ⟨hchainL.relink_next hndL hleft, hN, hchainR.relink_prev hndR hright⟩
  -- which has no node in common with them either
  · rw [ptrs_append, ptrs_append]
    refine List.nodup_append.mpr ⟨hndL, List.nodup_append.mpr ⟨hnodup, hndR, ?_⟩, ?_⟩
    · rintro x hx y hy rfl
      exact (hdisj x hx).2 hy
    · intro x hx y hy
      rcases List.mem_append.mp hy with hyN | hyR
      · rintro rfl
        exact (hdisj x hyN).1 hx
      · exact hLR x hx y hyR

/-! ## Heaps that are one list -/

/-- The heap is exactly the null-terminated list `xs`, reached from both its ends. -/
structure Represents (h : Heap α) (first last : Option Ptr) (xs : List (Ptr × α)) : Prop where
  chain : Chain h.load none xs none
  first_eq : first = headPtr xs none
  last_eq : last = lastPtr none xs
  nodup : (ptrs xs).Nodup
  owned : ∀ p s, h.load p = some s → p ∈ ptrs xs

theorem Represents.linked {h : Heap α} {first last : Option Ptr} {xs : List (Ptr × α)}
    (hr : Represents h first last xs) : Linked h first last xs :=
  ⟨hr.chain, hr.first_eq, hr.last_eq, hr.nodup⟩

/-- The nodes of the list are those that are alive. -/
theorem Represents.live {h : Heap α} {first last : Option Ptr} {xs : List (Ptr × α)}
    (hr : Represents h first last xs) : h.live.Perm (ptrs xs) := by
  refine (List.perm_ext_iff_of_nodup (List.nodup_range.filter _) hr.nodup).mpr fun p => ?_
  rw [List.mem_filter, List.mem_range, Option.isSome_iff_exists]
  constructor
  · rintro ⟨_, s, hs⟩
    exact hr.owned p s hs
  · intro hp
    obtain ⟨s, hs⟩ := hr.chain.live p hp
    exact ⟨Heap.lt_size_of_load hs, s, hs⟩

theorem represents_empty (fresh : Ptr → Node α) : Represents (Heap.empty fresh) none none [] :=
  ⟨trivial, rfl, rfl, List.nodup_nil, by simp [Heap.empty, Heap.load]⟩

/-- A list that replaces one that was the whole heap is the whole heap, if every other node
    that is alive was alive before and in neither of them. -/
theorem Linked.represents {h h' : Heap α} {first last first' last' : Option Ptr}
    {xs ys : List (Ptr × α)} (hl : Linked h' first' last' ys) (hr : Represents h first last xs)
    (hframe : ∀ p ∉ ptrs ys, h'.load p = none ∨ p ∉ ptrs xs ∧ h'.load p = h.load p) :
    Represents h' first' last' ys := by
  refine ⟨hl.chain, hl.first_eq, hl.last_eq, hl.nodup, fun p s hs => ?_⟩
  by_contra hp
  rcases hframe p hp with hdead | ⟨hx, heq⟩
  · rw [hdead] at hs
    cases hs
  · exact hx (hr.owned p s (heq ▸ hs))

/-- The two ends of a nonempty list, as an explicit first and last node. -/
theorem exists_ends {xs : List (Ptr × α)} (h : xs ≠ []) :
    ∃ a b, headPtr xs none = some a ∧ lastPtr none xs = some b ∧ a ∈ ptrs xs ∧
      b ∈ ptrs xs := by
  obtain ⟨x, ys, rfl⟩ := List.exists_cons_of_ne_nil h
  obtain ⟨zs, z, hz⟩ := List.eq_nil_or_concat (x :: ys) |>.resolve_left (by simp)
  refine ⟨x.1, z.1, rfl, ?_, by simp, ?_⟩
  · rw [hz, List.concat_eq_append, lastPtr_concat]
  · rw [hz, List.concat_eq_append, ptrs_append]
    simp

end LinkedHeap
