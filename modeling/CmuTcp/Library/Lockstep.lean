import CmuTcp.Library.FaultSystem
import CmuTcp.Library.LinkedHeap

/-!
# Two Computations in Lockstep

Relations between two runs of the same program on different data: both fail with the same
fault, or both succeed with related results.  Related computations in sequence are
related, so a relational fact about a program follows its text.

For heaps of linked nodes the relation is on the data of the nodes; the links, and so
everything that an algorithm does to the shape of its lists, are the same in both runs.
A property of all nodes of one heap is the diagonal case.
-/

namespace Lockstep

universe u

variable {ε α β γ δ : Type u}

/-! ## Faults -/

/-- Both fail with the same fault, one of `F`, or both succeed with related results. -/
inductive Agree (F : ε → Prop) (R : α → β → Prop) : Except ε α → Except ε β → Prop
  | ok {a : α} {b : β} (h : R a b) : Agree F R (.ok a) (.ok b)
  | error {f : ε} (hf : F f) : Agree F R (.error f) (.error f)

section Agree

variable {F : ε → Prop} {R : α → β → Prop} {S : γ → δ → Prop} {x : Except ε α} {y : Except ε β}

theorem Agree.bind {f : α → Except ε γ} {g : β → Except ε δ} (h : Agree F R x y)
    (hfg : ∀ a b, R a b → Agree F S (f a) (g b)) : Agree F S (x >>= f) (y >>= g) := by
  cases h with
  | ok hab => exact hfg _ _ hab
  | error hf => exact .error hf

theorem Agree.mono {F' : ε → Prop} {R' : α → β → Prop} (h : Agree F R x y)
    (hF : ∀ f, F f → F' f) (hR : ∀ a b, R a b → R' a b) : Agree F' R' x y := by
  cases h with
  | ok hab => exact .ok (hR _ _ hab)
  | error hf => exact .error (hF _ hf)

theorem Agree.map {f : α → γ} {g : β → δ} (h : Agree F R x y)
    (hfg : ∀ a b, R a b → S (f a) (g b)) : Agree F S (x.map f) (y.map g) := by
  cases h with
  | ok hab => exact .ok (hfg _ _ hab)
  | error hf => exact .error hf

/-- Every computation agrees with itself. -/
theorem Agree.refl {x : Except ε α} (h : FaultSystem.FailsOnly F x) : Agree F Eq x x := by
  cases x with
  | ok a => exact .ok rfl
  | error f => exact .error (h.fault f rfl)

theorem Agree.self (x : Except ε α) : Agree (fun _ => True) Eq x x :=
  .refl ⟨fun _ _ => trivial⟩

theorem Agree.eq {x y : Except ε α} (h : Agree F Eq x y) : x = y := by
  cases h with
  | ok hab => rw [hab]
  | error _ => rfl

/-- What one of them returns, the other returns a relative of. -/
theorem Agree.ok_left {a : α} (h : Agree F R (.ok a) y) : ∃ b, y = .ok b ∧ R a b := by
  cases h with
  | ok hab => exact ⟨_, rfl, hab⟩

/-- A computation that agrees with itself fails with one of `F` only. -/
theorem Agree.failsOnly {x : Except ε α} {R : α → α → Prop} (h : Agree F R x x) :
    FaultSystem.FailsOnly F x := by
  constructor
  intro f hf
  rw [hf] at h
  cases h with
  | error hF => exact hF

/-- What it returns is related to itself. -/
theorem Agree.of_ok {x : Except ε α} {R : α → α → Prop} (h : Agree F R x x) {a : α}
    (hx : x = .ok a) : R a a := by
  rw [hx] at h
  cases h with
  | ok haa => exact haa

end Agree

/-! ## Missing results -/

section Options

variable {R : α → β → Prop} {S : γ → δ → Prop} {x : Option α} {y : Option β}

theorem rel_bind {f : α → Option γ} {g : β → Option δ} (h : Option.Rel R x y)
    (hfg : ∀ a b, R a b → Option.Rel S (f a) (g b)) : Option.Rel S (x >>= f) (y >>= g) := by
  cases h with
  | some hab => exact hfg _ _ hab
  | none => exact .none

theorem rel_mono {R' : α → β → Prop} (h : Option.Rel R x y) (hR : ∀ a b, R a b → R' a b) :
    Option.Rel R' x y := by
  cases h with
  | some hab => exact .some (hR _ _ hab)
  | none => exact .none

theorem rel_cases (h : Option.Rel R x y) :
    x = none ∧ y = none ∨ ∃ a b, x = some a ∧ y = some b ∧ R a b := by
  cases h with
  | some hab => exact Or.inr ⟨_, _, rfl, rfl, hab⟩
  | none => exact Or.inl ⟨rfl, rfl⟩

end Options

/-! ## Runs -/

section Runs

variable {σ ι ο : Type u}

/-- What a machine answers to a list of inputs, up to its first fault. -/
def trace (run : σ → ι → Except ε (ο × σ)) : σ → List ι → List (Except ε ο)
  | _, [] => []
  | s, i :: is =>
    match run s i with
    | .error f => [.error f]
    | .ok (o, s') => .ok o :: trace run s' is

/-- Every input, and its image under `f` in a second run, meets the condition `C` in the
    states in which it comes. -/
def Meets (run : σ → ι → Except ε (ο × σ)) (f : ι → ι) (C : σ → σ → ι → Prop) :
    σ → σ → List ι → Prop
  | _, _, [] => True
  | s, t, i :: is => C s t i ∧ ∀ o s' o' t', run s i = .ok (o, s') → run t (f i) = .ok (o', t') →
      Meets run f C s' t' is

theorem meets_of_forall {run : σ → ι → Except ε (ο × σ)} {f : ι → ι} {C : ι → Prop} {is : List ι}
    (h : ∀ i ∈ is, C i) (s t : σ) : Meets run f (fun _ _ i => C i) s t is := by
  induction is generalizing s t with
  | nil => trivial
  | cons i is ih =>
    refine ⟨h i (List.mem_cons_self ..), fun _ s' _ t' _ _ => ?_⟩
    exact ih (fun j hj => h j (List.mem_cons_of_mem _ hj)) s' t'

/-- A relation between the states that every step keeps makes the answers of both runs
    agree, one by one. -/
theorem trace_agree {run : σ → ι → Except ε (ο × σ)} {f : ι → ι} {C : σ → σ → ι → Prop}
    {I : σ → σ → Prop} {F : ε → Prop} {O : ο → ο → Prop}
    (hstep : ∀ s t i, I s t → C s t i →
      Agree F (fun x y => O x.1 y.1 ∧ I x.2 y.2) (run s i) (run t (f i)))
    {s t : σ} (hI : I s t) {is : List ι} (hC : Meets run f C s t is) :
    List.Forall₂ (Agree F O) (trace run s is) (trace run t (is.map f)) := by
  -- induction on the inputs: related states take related steps
  induction is generalizing s t with
  | nil => exact .nil
  | cons i is ih =>
    obtain ⟨hCi, hrest⟩ := hC
    have hi := hstep s t i hI hCi
    rw [List.map_cons]
    unfold trace
    -- one run stops exactly when the other does
    cases hs : run s i with
    | error g =>
      rw [hs] at hi
      cases ht : run t (f i) with
      | error g' =>
        rw [ht] at hi
        cases hi with
        | error hg => exact .cons (.error hg) .nil
      | ok y =>
        rw [ht] at hi
        cases hi
    | ok x =>
      rw [hs] at hi
      obtain ⟨y, ht, hO, hI'⟩ := hi.ok_left
      rw [ht]
      exact .cons (.ok hO) (ih hI' (hrest x.1 x.2 y.1 y.2 hs ht))

/-- **Systems in lockstep**: when a relation holds of the initial states, and two related
    states take the same label to related states, fail with the same fault or do not take it,
    a run of one system whose steps all meet `C` is followed by a run of the other. -/
theorem run_lockstep {M N : FaultSystem.System σ ι ε} {T : σ → σ → Prop} {C : σ → ι → Prop}
    (hinit : ∀ s, M.init s → ∃ t, N.init t ∧ T s t)
    (hstep : ∀ s t i, T s t → C s i →
      Option.Rel (Agree (fun _ => True) T) (M.step s i) (N.step t i))
    {tr : List (σ × ι)} {s : σ} (h : FaultSystem.Run M (fun _ => True) tr s)
    (hC : ∀ p ∈ tr, C p.1 p.2) :
    ∃ tr' t, FaultSystem.Run N (fun _ => True) tr' t ∧
      List.Forall₂ (fun p q => q.2 = p.2 ∧ T p.1 q.1) tr tr' ∧ T s t := by
  induction h with
  | init h0 _ =>
    obtain ⟨t, ht, hT⟩ := hinit _ h0
    exact ⟨[], t, .init ht trivial, .nil, hT⟩
  | @step tr s s' i _ hs _ ih =>
    obtain ⟨tr', t, hrun, htr, hT⟩ := ih fun p hp => hC p (List.mem_append_left _ hp)
    have hrel := hstep s t i hT (hC (s, i) (by simp))
    rw [hs] at hrel
    rcases rel_cases hrel with ⟨hnone, _⟩ | ⟨x, y, hx, hy, hxy⟩
    · exact absurd hnone (by simp)
    · obtain rfl := Option.some.inj hx
      obtain ⟨t', rfl, hT'⟩ := hxy.ok_left
      exact ⟨tr' ++ [(t, i)], t', hrun.step hy trivial,
        List.rel_append htr (.cons ⟨rfl, hT⟩ .nil), hT'⟩

end Runs

end Lockstep

/-! ## Heaps of linked nodes -/

namespace LinkedHeap

open Lockstep

variable {α β : Type}

/-- Nodes with the same links and related data. -/
structure Node.Rel (R : α → β → Prop) (s : Node α) (t : Node β) : Prop where
  val : R s.val t.val
  prev : s.prev = t.prev
  next : s.next = t.next

theorem Node.Rel.mono {R R' : α → β → Prop} {s : Node α} {t : Node β} (h : Node.Rel R s t)
    (hR : ∀ a b, R a b → R' a b) : Node.Rel R' s t :=
  ⟨hR _ _ h.val, h.prev, h.next⟩

namespace Heap

/-- Heaps with the same live addresses, the same links and related data; new nodes come
    with the same links. -/
structure Rel (R : Ptr → α → β → Prop) (h : Heap α) (k : Heap β) : Prop where
  size : h.size = k.size
  load : ∀ p, Option.Rel (Node.Rel (R p)) (h.load p) (k.load p)
  fresh : ∀ p, (h.fresh p).prev = (k.fresh p).prev ∧ (h.fresh p).next = (k.fresh p).next

variable {R T : Ptr → α → β → Prop} {h : Heap α} {k : Heap β}

theorem Rel.mono (hrel : Rel R h k) (hR : ∀ p a b, R p a b → T p a b) : Rel T h k where
  size := hrel.size
  load p := rel_mono (hrel.load p) fun _ _ hst => hst.mono (hR p)
  fresh := hrel.fresh

theorem Rel.empty (f : Ptr → Node α) (g : Ptr → Node β)
    (hfg : ∀ p, (f p).prev = (g p).prev ∧ (f p).next = (g p).next) :
    Rel R (Heap.empty f) (Heap.empty g) where
  size := rfl
  load p := by
    simp only [Heap.empty, Heap.load, List.getElem?_nil, Option.join_none]
    exact .none
  fresh := hfg

/-! ## The operations -/

/-- One address changes in both heaps. -/
theorem Rel.update (hrel : Rel R h k) {h' : Heap α} {k' : Heap β} {p : Ptr}
    {c : Option (Node α)} {d : Option (Node β)}
    (hload : h'.load = Function.update h.load p c) (kload : k'.load = Function.update k.load p d)
    (hsize : h'.size = k'.size) (hfresh : h'.fresh = h.fresh) (kfresh : k'.fresh = k.fresh)
    (hcd : Option.Rel (Node.Rel (T p)) c d) (hR : ∀ q, q ≠ p → ∀ a b, R q a b → T q a b) :
    Rel T h' k' where
  size := hsize
  load q := by
    rw [hload, kload]
    rcases eq_or_ne q p with rfl | hne
    · simpa only [Function.update_self] using hcd
    · rw [Function.update_of_ne hne, Function.update_of_ne hne]
      exact rel_mono (hrel.load q) fun _ _ hst => hst.mono (hR q hne)
  fresh q := by
    rw [hfresh, kfresh]
    exact hrel.fresh q

/-- Nothing is known of the data of a new node. -/
theorem Rel.malloc (hrel : Rel R h k) :
    Rel (fun p a b => p ≠ h.size → R p a b) h.malloc.2 k.malloc.2 := by
  have hfst : k.malloc.1 = h.malloc.1 := hrel.size.symm
  refine hrel.update (load_malloc h) (hfst ▸ load_malloc k) ?_ rfl rfl ?_ ?_
  · simp [Heap.malloc, Heap.size, show h.cells.length = k.cells.length from hrel.size]
  · have hlinks := hrel.fresh h.size
    rw [← hrel.size]
    exact .some ⟨fun hne => absurd rfl hne, hlinks.1, hlinks.2⟩
  · exact fun q _ a b hab _ => hab

/-- Changing one node may change what is known of its data. -/
theorem Rel.modify (hrel : Rel R h k) {p : Ptr} {f : Node α → Node α} {g : Node β → Node β}
    (hfg : ∀ s t, Node.Rel (R p) s t → Node.Rel (T p) (f s) (g t))
    (hR : ∀ q, q ≠ p → ∀ a b, R q a b → T q a b) :
    Option.Rel (Rel T) (h.modify p f) (k.modify p g) := by
  rcases rel_cases (hrel.load p) with ⟨hs, ht⟩ | ⟨s, t, hs, ht, hst⟩
  · simp only [Heap.modify, hs, ht, Option.map_none]
    exact .none
  · obtain ⟨h', hmod, hload, hfresh, hsize⟩ := modify_eq hs f
    obtain ⟨k', kmod, kload, kfresh, ksize⟩ := modify_eq ht g
    rw [hmod, kmod]
    exact .some (hrel.update hload kload (by rw [hsize, ksize, hrel.size]) hfresh kfresh
      (.some (hfg s t hst)) hR)

/-- A change that leaves the data alone. -/
theorem Rel.modifyPtr (hrel : Rel R h k) {q : Option Ptr} {f : Node α → Node α}
    {g : Node β → Node β} (hfg : ∀ p s t, Node.Rel (R p) s t → Node.Rel (R p) (f s) (g t)) :
    Option.Rel (Rel R) (h.modifyPtr q f) (k.modifyPtr q g) := by
  cases q with
  | none => exact .some hrel
  | some p => exact hrel.modify (hfg p) fun _ _ _ _ hab => hab

theorem Rel.free (hrel : Rel R h k) (p : Ptr) : Option.Rel (Rel R) (h.free p) (k.free p) := by
  rcases rel_cases (hrel.load p) with ⟨hs, ht⟩ | ⟨s, t, hs, ht, _⟩
  · simp only [Heap.free, hs, ht, Option.map_none]
    exact .none
  · obtain ⟨h', hfree, hload, hfresh, hsize⟩ := free_eq hs
    obtain ⟨k', kfree, kload, kfresh, ksize⟩ := free_eq ht
    rw [hfree, kfree]
    exact .some (hrel.update hload kload (by rw [hsize, ksize, hrel.size]) hfresh kfresh .none
      fun _ _ _ _ hab => hab)

theorem Rel.freePtr (hrel : Rel R h k) (q : Option Ptr) :
    Option.Rel (Rel R) (h.freePtr q) (k.freePtr q) := by
  cases q with
  | none => exact .some hrel
  | some p => exact hrel.free p

/-! ## Walks -/

/-- Walks whose links and conditions agree stop at the same address. -/
theorem Rel.walk (hrel : Rel R h k) {l : Node α → Option Ptr} {m : Node β → Option Ptr}
    (hlm : ∀ p s t, Node.Rel (R p) s t → l s = m t) {c : Node α → Bool} {d : Node β → Bool}
    (hcd : ∀ p s t, Node.Rel (R p) s t → c s = d t) (fuel : ℕ) (cur : Option Ptr) :
    LinkedHeap.walk l h c fuel cur = LinkedHeap.walk m k d fuel cur := by
  induction fuel generalizing cur with
  | zero => rfl
  | succ fuel ih =>
    cases cur with
    | none => rfl
    | some p =>
      simp only [LinkedHeap.walk]
      rcases rel_cases (hrel.load p) with ⟨hs, ht⟩ | ⟨s, t, hs, ht, hst⟩
      · rw [hs, ht]
        rfl
      · simp only [hs, ht, Option.bind_eq_bind, Option.bind_some, hcd p s t hst, hlm p s t hst, ih]

theorem Rel.walkNext (hrel : Rel R h k) {c : Node α → Bool} {d : Node β → Bool}
    (hcd : ∀ p s t, Node.Rel (R p) s t → c s = d t) (fuel : ℕ) (cur : Option Ptr) :
    LinkedHeap.walkNext h c fuel cur = LinkedHeap.walkNext k d fuel cur :=
  hrel.walk (fun _ _ _ hst => hst.next) hcd fuel cur

theorem Rel.walkPrev (hrel : Rel R h k) {c : Node α → Bool} {d : Node β → Bool}
    (hcd : ∀ p s t, Node.Rel (R p) s t → c s = d t) (fuel : ℕ) (cur : Option Ptr) :
    LinkedHeap.walkPrev h c fuel cur = LinkedHeap.walkPrev k d fuel cur :=
  hrel.walk (fun _ _ _ hst => hst.prev) hcd fuel cur

/-- A walk stops at a live address, whichever links it follows. -/
theorem live_of_walk {l : Node α → Option Ptr} {c : Node α → Bool} {fuel : ℕ}
    {cur : Option Ptr} {p : Ptr} (hwalk : LinkedHeap.walk l h c fuel cur = some (some p)) :
    ∃ s, h.load p = some s := by
  induction fuel generalizing cur with
  | zero => exact absurd hwalk (by simp [LinkedHeap.walk])
  | succ fuel ih =>
    cases cur with
    | none => exact absurd hwalk (by simp [LinkedHeap.walk])
    | some q =>
      simp only [LinkedHeap.walk] at hwalk
      obtain ⟨s, hs, hrest⟩ := Option.bind_eq_some_iff.mp hwalk
      split at hrest
      · exact ih hrest
      · obtain rfl := Option.some.inj (Option.some.inj hrest)
        exact ⟨s, hs⟩

/-- A live address is not the one that `malloc` hands out next. -/
theorem ne_size_of_live {p : Ptr} (hlive : ∃ s, h.load p = some s) : p ≠ h.size := by
  obtain ⟨s, hs⟩ := hlive
  exact Nat.ne_of_lt (lt_size_of_load hs)

end Heap

end LinkedHeap
