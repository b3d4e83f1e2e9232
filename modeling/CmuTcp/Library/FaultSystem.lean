import Mathlib.Logic.Basic
import Mathlib.Logic.Relation
import Mathlib.Data.List.Basic

/-!
# Transition Systems with Faults

A labelled transition system whose steps are functions: in a given state a label is
either disabled (`none`), ends the run with a fault (`some (.error f)`), or leads to a
next state (`some (.ok s')`).  A failed assertion of a program is a fault, so a run is
a sequence of successful steps and "no assertion fails" says that no reachable state
has a faulting step.

Runs are taken under a side condition `K` on states (an assumption such as "no counter
has overflowed yet"), and carry the trace of the states and labels they went through,
so that a property can speak about every step of a run as well as about its last state.
-/

namespace FaultSystem

universe u v w

/-- A labelled transition system with faulting steps. -/
structure System (σ : Type u) (ℓ : Type v) (ε : Type w) where
  /-- The states a run may start in. -/
  init : σ → Prop
  /-- What a label does: disabled, a fault, or a next state. -/
  step : σ → ℓ → Option (Except ε σ)

variable {σ : Type u} {ℓ : Type v} {ε : Type w}

/-- Runs of `M` through states that satisfy `K`, with the trace of their steps. -/
inductive Run (M : System σ ℓ ε) (K : σ → Prop) : List (σ × ℓ) → σ → Prop where
  | init {s : σ} (hinit : M.init s) (hK : K s) : Run M K [] s
  | step {tr : List (σ × ℓ)} {s s' : σ} {l : ℓ} (hrun : Run M K tr s)
      (hstep : M.step s l = some (.ok s')) (hK : K s') : Run M K (tr ++ [(s, l)]) s'

/-- The states a run went through, the last one included. -/
def visited (tr : List (σ × ℓ)) (s : σ) : List σ :=
  tr.map Prod.fst ++ [s]

/-- The last state of a run satisfies the side condition. -/
theorem Run.kept {M : System σ ℓ ε} {K : σ → Prop} {tr : List (σ × ℓ)} {s : σ}
    (h : Run M K tr s) : K s := by
  cases h with
  | init _ hK => exact hK
  | step _ _ hK => exact hK

/-! ## Invariants -/

/-- A predicate that holds initially and is kept by every step whose label meets `C`
    holds at the end of every run all of whose steps meet `C`. -/
theorem Run.invariant_of_steps {M : System σ ℓ ε} {K : σ → Prop} {I : σ → Prop}
    {C : σ → ℓ → Prop}
    (hinit : ∀ s, M.init s → K s → I s)
    (hstep : ∀ s l s', I s → K s → K s' → C s l → M.step s l = some (.ok s') → I s')
    {tr : List (σ × ℓ)} {s : σ} (h : Run M K tr s)
    (hC : ∀ p ∈ tr, C p.1 p.2) : I s := by
  induction h with
  | init h0 hK => exact hinit _ h0 hK
  | @step tr s s' l hrun hs hK ih =>
    have hI : I s := ih (fun p hp => hC p (List.mem_append_left _ hp))
    exact hstep s l s' hI hrun.kept hK (hC (s, l) (by simp)) hs

/-- It holds in all the states such a run went through. -/
theorem Run.visited_of_steps {M : System σ ℓ ε} {K : σ → Prop} {I : σ → Prop}
    {C : σ → ℓ → Prop}
    (hinit : ∀ s, M.init s → K s → I s)
    (hstep : ∀ s l s', I s → K s → K s' → C s l → M.step s l = some (.ok s') → I s')
    {tr : List (σ × ℓ)} {s : σ} (h : Run M K tr s)
    (hC : ∀ p ∈ tr, C p.1 p.2) : ∀ t ∈ visited tr s, I t := by
  induction h with
  | init h0 hK => simpa [visited] using hinit _ h0 hK
  | @step tr s s' l hrun hs hK ih =>
    have hall := ih (fun p hp => hC p (List.mem_append_left _ hp))
    intro t ht
    simp only [visited, List.map_append, List.map_cons, List.map_nil, List.mem_append,
      List.mem_singleton] at ht hall
    rcases ht with ht | rfl
    · exact hall t ht
    · exact hstep s l t (hall s (Or.inr rfl)) hrun.kept hK (hC (s, l) (by simp)) hs

/-- A predicate that holds initially and is kept by every step holds at the end of
    every run. -/
theorem Run.invariant {M : System σ ℓ ε} {K : σ → Prop} {I : σ → Prop}
    (hinit : ∀ s, M.init s → K s → I s)
    (hstep : ∀ s l s', I s → K s → K s' → M.step s l = some (.ok s') → I s')
    {tr : List (σ × ℓ)} {s : σ} (h : Run M K tr s) : I s :=
  h.invariant_of_steps (C := fun _ _ => True) hinit
    (fun s l s' hI hK hK' _ hs => hstep s l s' hI hK hK' hs) (fun _ _ => trivial)

/-- Every step of a run leaves from a state that a shorter run reached. -/
theorem Run.prefix_of_mem {M : System σ ℓ ε} {K : σ → Prop} {tr : List (σ × ℓ)} {s : σ}
    (h : Run M K tr s) {p : σ × ℓ} (hp : p ∈ tr) : ∃ tr', Run M K tr' p.1 := by
  induction h with
  | init => simp at hp
  | @step tr s s' l hrun _ _ ih =>
    rcases List.mem_append.mp hp with hmem | hlast
    · exact ih hmem
    · rw [List.mem_singleton] at hlast
      exact ⟨tr, hlast ▸ hrun⟩

/-- An invariant of all runs holds in every state a run went through. -/
theorem Run.visited_of_invariant {M : System σ ℓ ε} {K : σ → Prop} {I : σ → Prop}
    (hI : ∀ tr s, Run M K tr s → I s) {tr : List (σ × ℓ)} {s : σ} (h : Run M K tr s) :
    ∀ t ∈ visited tr s, I t := by
  intro t ht
  rcases List.mem_append.mp ht with hmem | hlast
  · obtain ⟨p, hp, rfl⟩ := List.mem_map.mp hmem
    obtain ⟨tr', hrun⟩ := h.prefix_of_mem hp
    exact hI tr' p.1 hrun
  · rw [List.mem_singleton] at hlast
    exact hlast ▸ hI tr s h

/-- **Exactness along runs** whose steps all meet `B`: suppose that, from states with the
    invariant `I` and the property `P`, such a step keeps `P` exactly when it meets `C`.
    Then all steps of a run meet `C` if and only if all states it went through have `P`. -/
theorem Run.forall_visited_iff_of_steps {M : System σ ℓ ε} {K : σ → Prop} {I P : σ → Prop}
    {B C : σ → ℓ → Prop}
    (hI : ∀ tr s, Run M K tr s → (∀ p ∈ tr, B p.1 p.2) → I s)
    (hinit : ∀ s, M.init s → K s → P s)
    (hstep : ∀ s l s', I s → P s → K s' → B s l → M.step s l = some (.ok s') → (P s' ↔ C s l))
    {tr : List (σ × ℓ)} {s : σ} (h : Run M K tr s) (hB : ∀ p ∈ tr, B p.1 p.2) :
    (∀ t ∈ visited tr s, P t) ↔ ∀ p ∈ tr, C p.1 p.2 := by
  -- induction on the run: the last step decides about the last state
  induction h with
  | init h0 hK => simpa [visited] using hinit _ h0 hK
  | @step tr s s' l hrun hs hK ih =>
    have hbefore : ∀ p ∈ tr, B p.1 p.2 := fun p hp => hB p (List.mem_append_left _ hp)
    have hlabel : B s l := hB (s, l) (by simp)
    have ih := ih hbefore
    -- both sides split into what was before and the last step
    have hsplit : (∀ t ∈ visited (tr ++ [(s, l)]) s', P t) ↔
        (∀ t ∈ visited tr s, P t) ∧ P s' := by
      simp only [visited, List.map_append, List.map_cons, List.map_nil, List.mem_append,
        List.mem_singleton, or_imp, forall_and, forall_eq]
    have hlast : (∀ p ∈ tr ++ [(s, l)], C p.1 p.2) ↔ (∀ p ∈ tr, C p.1 p.2) ∧ C s l := by
      simp only [List.mem_append, List.mem_singleton, or_imp, forall_and, forall_eq]
    rw [hsplit, hlast, ih]
    constructor
    · rintro ⟨hC, hP'⟩
      have hP : P s := (ih.mpr hC) s (by simp [visited])
      exact ⟨hC, (hstep s l s' (hI _ _ hrun hbefore) hP hK hlabel hs).mp hP'⟩
    · rintro ⟨hC, hCl⟩
      have hP : P s := (ih.mpr hC) s (by simp [visited])
      exact ⟨hC, (hstep s l s' (hI _ _ hrun hbefore) hP hK hlabel hs).mpr hCl⟩

/-- The same for all runs. -/
theorem Run.forall_visited_iff {M : System σ ℓ ε} {K : σ → Prop} {I P : σ → Prop}
    {C : σ → ℓ → Prop}
    (hI : ∀ tr s, Run M K tr s → I s)
    (hinit : ∀ s, M.init s → K s → P s)
    (hstep : ∀ s l s', I s → P s → K s' → M.step s l = some (.ok s') → (P s' ↔ C s l))
    {tr : List (σ × ℓ)} {s : σ} (h : Run M K tr s) :
    (∀ t ∈ visited tr s, P t) ↔ ∀ p ∈ tr, C p.1 p.2 :=
  h.forall_visited_iff_of_steps (B := fun _ _ => True) (fun tr s hrun _ => hI tr s hrun) hinit
    (fun s l s' hI hP hK _ hs => hstep s l s' hI hP hK hs) fun _ _ => trivial

/-! ## Which faults a computation can end with -/

section FailsOnly

variable {α β : Type u} {F : ε → Prop}

/-- If the computation fails, it fails with one of the faults `F`. -/
structure FailsOnly (F : ε → Prop) (x : Except ε α) : Prop where
  fault : ∀ f, x = .error f → F f

/-- A sequence that succeeds is a sequence of successes. -/
theorem ok_of_bind_ok {x : Except ε α} {f : α → Except ε β} {b : β} (h : x >>= f = .ok b) :
    ∃ a, x = .ok a ∧ f a = .ok b := by
  cases x with
  | error g => cases h
  | ok a => exact ⟨a, rfl, h⟩

theorem ok_of_map_ok {x : Except ε α} {f : α → β} {b : β} (h : x.map f = .ok b) :
    ∃ a, x = .ok a ∧ f a = b := by
  cases x with
  | error g => cases h
  | ok a => exact ⟨a, rfl, Except.ok.inj h⟩

theorem FailsOnly.ok (a : α) : FailsOnly F (.ok a) :=
  ⟨fun _ hf => by cases hf⟩

theorem FailsOnly.error {f : ε} (hf : F f) : FailsOnly F (.error f : Except ε α) :=
  ⟨fun _ hg => Except.error.inj hg ▸ hf⟩

theorem FailsOnly.bind {x : Except ε α} {f : α → Except ε β} (hx : FailsOnly F x)
    (hf : ∀ a, FailsOnly F (f a)) : FailsOnly F (x >>= f) := by
  cases x with
  | error g => exact .error (hx.fault g rfl)
  | ok a => exact hf a

theorem FailsOnly.ite {c : Prop} [Decidable c] {x y : Except ε α} (hx : FailsOnly F x)
    (hy : FailsOnly F y) : FailsOnly F (if c then x else y) := by
  split
  · exact hx
  · exact hy

theorem FailsOnly.map {x : Except ε α} (hx : FailsOnly F x) (f : α → β) :
    FailsOnly F (x.map f) := by
  cases x with
  | error g => exact .error (hx.fault g rfl)
  | ok a => exact .ok (f a)

end FailsOnly

/-! ## Executing labels -/

/-- Perform labels one after another, through states that satisfy `K`; `none` when a
    label is disabled or the condition fails, a fault when a step faults. -/
def exec (M : System σ ℓ ε) (K : σ → Prop) [DecidablePred K] :
    σ → List ℓ → Option (Except ε σ)
  | s, [] => some (.ok s)
  | s, l :: ls =>
    match M.step s l with
    | some (.ok s') => if K s' then exec M K s' ls else none
    | r => r

/-- The steps that `exec` goes through. -/
def execTrace (M : System σ ℓ ε) : σ → List ℓ → List (σ × ℓ)
  | _, [] => []
  | s, l :: ls =>
    match M.step s l with
    | some (.ok s') => (s, l) :: execTrace M s' ls
    | _ => []

/-- Only the labels given are performed. -/
theorem mem_of_mem_execTrace {M : System σ ℓ ε} {s : σ} {ls : List ℓ} {p : σ × ℓ}
    (h : p ∈ execTrace M s ls) : p.2 ∈ ls := by
  induction ls generalizing s with
  | nil => simp [execTrace] at h
  | cons l ls ih =>
    simp only [execTrace] at h
    split at h
    · rcases List.mem_cons.mp h with rfl | hrest
      · exact List.mem_cons_self ..
      · exact List.mem_cons_of_mem _ (ih hrest)
    · simp at h

/-- Labels performed successfully extend a run. -/
theorem Run.exec {M : System σ ℓ ε} {K : σ → Prop} [DecidablePred K]
    {tr : List (σ × ℓ)} {s s' : σ} (h : Run M K tr s) (ls : List ℓ)
    (hexec : exec M K s ls = some (.ok s')) :
    Run M K (tr ++ execTrace M s ls) s' := by
  induction ls generalizing tr s with
  | nil =>
    simp only [FaultSystem.exec, Option.some.injEq, Except.ok.injEq] at hexec
    simpa [execTrace, hexec] using h
  | cons l ls ih =>
    simp only [FaultSystem.exec] at hexec
    simp only [execTrace]
    split at hexec
    · rename_i t hstep
      split at hexec
      · rename_i hK
        have hnext := ih (h.step hstep hK) hexec
        simpa [List.append_assoc] using hnext
      · exact absurd hexec (by simp)
    · rename_i r hne
      exact absurd hexec (hne s')

/-! ## What can still happen

Steps with labels of some kind lead from a state to another.  That a goal can still be
reached from every state of some kind follows from a rank: it is enough to get from each
such state to the goal, or to one of lower rank. -/

/-- A step into a state that satisfies `K`, with a label that satisfies `C`. -/
def System.Next (M : System σ ℓ ε) (K : σ → Prop) (C : ℓ → Prop) (s t : σ) : Prop :=
  ∃ l, C l ∧ M.step s l = some (.ok t) ∧ K t

/-- Such steps lead from one state to another. -/
def System.Reaches (M : System σ ℓ ε) (K : σ → Prop) (C : ℓ → Prop) : σ → σ → Prop :=
  Relation.ReflTransGen (M.Next K C)

namespace System.Reaches

variable {M : System σ ℓ ε} {K : σ → Prop} {C : ℓ → Prop} {s t u : σ}

theorem refl (s : σ) : M.Reaches K C s s :=
  Relation.ReflTransGen.refl

theorem trans (h : M.Reaches K C s t) (h' : M.Reaches K C t u) : M.Reaches K C s u :=
  Relation.ReflTransGen.trans h h'

theorem single {l : ℓ} (hC : C l) (hstep : M.step s l = some (.ok t)) (hK : K t) :
    M.Reaches K C s t :=
  Relation.ReflTransGen.single ⟨l, hC, hstep, hK⟩

/-- A run goes on with the steps. -/
theorem run (h : M.Reaches K C s t) {tr : List (σ × ℓ)} (hrun : Run M K tr s) :
    ∃ tr', Run M K (tr ++ tr') t ∧ ∀ p ∈ tr', C p.2 := by
  induction h with
  | refl => exact ⟨[], by rwa [List.append_nil], by simp⟩
  | @tail t u _ hnext ih =>
    obtain ⟨tr', hrun', hC⟩ := ih
    obtain ⟨l, hl, hstep, hK⟩ := hnext
    refine ⟨tr' ++ [(t, l)], ?_, fun p hp => ?_⟩
    · rw [← List.append_assoc]
      exact hrun'.step hstep hK
    · rcases List.mem_append.mp hp with hp | hp
      · exact hC p hp
      · rw [List.mem_singleton.mp hp]
        exact hl

/-- **The rank rule**: if every state of rank `n` leads to the goal, or to a state of lower
    rank, then every state that has a rank leads to the goal. -/
theorem of_rank {I : ℕ → σ → Prop} {G : σ → Prop}
    (h : ∀ n s, I n s → ∃ t, M.Reaches K C s t ∧ (G t ∨ ∃ m < n, I m t)) {n : ℕ} {s : σ}
    (hs : I n s) : ∃ t, M.Reaches K C s t ∧ G t := by
  induction n using Nat.strongRecOn generalizing s with
  | ind n ih =>
    obtain ⟨t, hst, hgoal | ⟨m, hm, ht⟩⟩ := h n s hs
    · exact ⟨t, hst, hgoal⟩
    · obtain ⟨u, htu, hu⟩ := ih m hm ht
      exact ⟨u, hst.trans htu, hu⟩

end System.Reaches

/-! ## Forward simulations

A relation between the states of two systems such that a step of the concrete system is
matched by a step of the abstract one, or by none.  Every run of the concrete system then
has a run of the abstract one beside it. -/

section Simulation

variable {τ : Type u} {κ : Type v} {δ : Type w}

/-- The system `N` simulates `M` through states with `K`, in states with `L`. -/
structure Simulation (M : System σ ℓ ε) (N : System τ κ δ) (K : σ → Prop) (L : τ → Prop)
    (R : σ → τ → Prop) : Prop where
  init : ∀ s, M.init s → K s → ∃ t, N.init t ∧ R s t
  kept : ∀ s t, R s t → K s → L t
  step : ∀ s t l s', R s t → K s → M.step s l = some (.ok s') →
    R s' t ∨ ∃ k t', N.step t k = some (.ok t') ∧ R s' t'

variable {M : System σ ℓ ε} {N : System τ κ δ} {K : σ → Prop} {L : τ → Prop}
  {R : σ → τ → Prop}

/-- Every run of `M` has a run of `N` beside it. -/
theorem Simulation.run (h : Simulation M N K L R) {tr : List (σ × ℓ)} {s : σ}
    (hrun : Run M K tr s) : ∃ tr' t, Run N L tr' t ∧ R s t := by
  induction hrun with
  | init hinit hK =>
    obtain ⟨t, ht, hR⟩ := h.init _ hinit hK
    exact ⟨[], t, .init ht (h.kept _ t hR hK), hR⟩
  | @step tr s s' l hrun hstep hK ih =>
    obtain ⟨tr', t, hN, hR⟩ := ih
    rcases h.step s t l s' hR hrun.kept hstep with hstay | ⟨k, t', hk, hR'⟩
    · exact ⟨tr', t, hN, hstay⟩
    · exact ⟨tr' ++ [(t, k)], t', hN.step hk (h.kept s' t' hR' hK), hR'⟩

end Simulation

end FaultSystem
