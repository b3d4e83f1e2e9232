import CmuTcp.Connection.Local
import CmuTcp.Model.Threads

/-!
# Who Holds Which Mutex

What the threads of one socket do to its mutexes, its condition variable and the record of
its past, whatever the buffers hold: a thread that holds a mutex is about to use it, so no
thread holds two, and what a thread has passed to `cmu_write` is what it has written into
the ring and what it has left.

1. `Threads.BackendStep` is the inversion lemma of the backend thread: it goes on with its
   mutex given back, it goes on where it needs none, or the process dies.
2. `Threads.AppStep` is that of a thread of the application.
3. `Threads.Tidy` is the invariant, one field for each thing that the threads share.  The
   lemmas about taking and giving back a mutex say what becomes of the others.
4. Every kind of step keeps it: those of the two inversion lemmas, the calls, and wakeups.
-/

namespace CmuTcp

open FaultSystem

variable {T : Type}

/-- What is left of the call in progress. -/
def AppPc.left : AppPc → List UInt8
  | .writing buf => buf
  | _ => []

/-- The tags of the record name the threads only. -/
theorem map_snd_tag (t : T) (data : List UInt8) : (data.map (t, ·)).map Prod.snd = data := by
  rw [List.map_map]
  exact List.map_id _

/-! ## The backend thread -/

section Backend

variable {h h' : Threads T}

/-- What a step of the backend thread leaves alone, and what it does to its mutex. -/
structure Threads.BackendStep (h h' : Threads T) : Prop where
  app : h'.app = h.app
  closed : h'.closed = h.closed
  passed : h'.passed = h.passed
  written : h'.written = h.written
  read : h'.read = h.read
  dying : h'.sock.dying = h.sock.dying
  waiters : h'.waiters.Sublist h.waiters
  holder : h.pc.wants = none ∧ h'.holder = h.holder ∨ (∃ m, h.pc.wants = some m ∧
    h.holder m = some .backend ∧ h'.holder = Function.update h.holder m none) ∨
    h.pc = .transmit ∧ h'.pc = .crashed ∧ h'.holder = h.holder
  leaving : (h'.pc = .exitTest true → h.sock.dying = true) ∧
    (h'.pc = .exited → h.pc = .exitTest true)
  crashed : h'.pc = .crashed → h'.strayed = true

theorem Threads.signal_ok {i : ℕ} (hsignal : h.signal i = some h') :
    ∃ waiters, h' = { h with waiters := waiters } ∧ waiters.Sublist h.waiters := by
  unfold Threads.signal at hsignal
  split at hsignal
  · exact ⟨h.waiters, (Option.some.inj hsignal).symm, List.Sublist.refl _⟩
  · split at hsignal
    · exact ⟨_, (Option.some.inj hsignal).symm, List.eraseIdx_sublist ..⟩
    · exact absurd hsignal (by simp)

/-- The thread goes on in its loop. -/
structure LoopPc.Stays (pc : LoopPc) : Prop where
  exitTest : pc ≠ .exitTest true
  exited : pc ≠ .exited
  crashed : pc ≠ .crashed

/-- It does in `handle_message`. -/
theorem takeWindow_stays (sock : CmuSocket) (pkt : Packet) : (takeWindow sock pkt).2.Stays := by
  unfold takeWindow
  dsimp only
  split <;> exact ⟨by simp, by simp, by simp⟩

theorem handleArrival_pc {sock sock' : CmuSocket} {pkt : Packet} {pc : LoopPc}
    (hok : handleArrival sock pkt = .ok (sock', pc)) :
    (sock'.dying = sock.dying ∧ sock'.recvBuf = sock.recvBuf) ∧ pc.Stays := by
  obtain ⟨_, _, hok⟩ := ok_of_bind_ok hok
  obtain ⟨_, _, hok⟩ := ok_of_bind_ok hok
  split at hok
  · obtain ⟨rfl, rfl⟩ := Prod.mk.inj (Except.ok.inj hok)
    exact ⟨⟨rfl, rfl⟩, by simp, by simp, by simp⟩
  · split at hok
    · obtain ⟨rfl, rfl⟩ := Prod.mk.inj (Except.ok.inj hok)
      exact ⟨⟨rfl, rfl⟩, takeWindow_stays sock pkt⟩
    · obtain ⟨rfl, rfl⟩ := Prod.mk.inj (Except.ok.inj hok)
      exact ⟨⟨rfl, rfl⟩, by simp, by simp, by simp⟩

/-- A thread that goes on in its loop is not about to leave it. -/
theorem LoopPc.Stays.leaving {pc : LoopPc} {P Q : Prop} (h : pc.Stays) :
    (pc = .exitTest true → P) ∧ (pc = .exited → Q) :=
  ⟨(absurd · h.exitTest), (absurd · h.exited)⟩

section Goes

variable {m : Mutex} {sock : CmuSocket} {pc : LoopPc} {waiters : List T} {strayed : Bool}

/-- The thread goes on to `pc` and gives its mutex back. -/
theorem Threads.BackendStep.gives (hwants : h.pc.wants = some m)
    (hheld : h.holder m = some .backend) (hdying : sock.dying = h.sock.dying)
    (hsub : waiters.Sublist h.waiters) (hleaving : (pc = .exitTest true → h.sock.dying = true) ∧
      (pc = .exited → h.pc = .exitTest true)) (hcrashed : pc ≠ .crashed) :
    h.BackendStep ({ h with sock := sock, pc := pc, waiters := waiters, strayed := strayed }.unlock
      m) where
  app := rfl
  closed := rfl
  passed := rfl
  written := rfl
  read := rfl
  dying := hdying
  waiters := hsub
  holder := Or.inr (Or.inl ⟨m, hwants, hheld, rfl⟩)
  leaving := hleaving
  crashed := (absurd · hcrashed)

/-- The thread goes on to `pc` in its loop, where it takes no mutex. -/
theorem Threads.BackendStep.goes (hwants : h.pc.wants = none) (hdying : sock.dying = h.sock.dying)
    (hsub : waiters.Sublist h.waiters) (hstays : pc.Stays) :
    h.BackendStep { h with sock := sock, pc := pc, waiters := waiters } where
  app := rfl
  closed := rfl
  passed := rfl
  written := rfl
  read := rfl
  dying := hdying
  waiters := hsub
  holder := Or.inl ⟨hwants, rfl⟩
  leaving := hstays.leaving
  crashed := (absurd · hstays.crashed)

/-- The process dies with `send_lock` taken. -/
theorem Threads.BackendStep.dies (hpc : h.pc = .transmit) (hdying : sock.dying = h.sock.dying)
    (hstrayed : strayed = true) :
    h.BackendStep { h with sock := sock, pc := .crashed, strayed := strayed } where
  app := rfl
  closed := rfl
  passed := rfl
  written := rfl
  read := rfl
  dying := hdying
  waiters := .refl _
  holder := Or.inr (Or.inr ⟨hpc, rfl, rfl⟩)
  leaving := ⟨by simp, by simp⟩
  crashed := fun _ => hstrayed

end Goes

theorem Threads.receive_ok {source : SockAddr} {pkt : Packet}
    (hstep : h.receive source pkt = some (.ok h')) :
    h.BackendStep h' ∧ h'.sock.recvBuf = h.sock.recvBuf := by
  unfold Threads.receive at hstep
  split at hstep
  case h_1 hpc =>
    obtain ⟨⟨sock, pc⟩, hok, hret⟩ := ok_of_bind_ok (Option.some.inj hstep)
    obtain rfl := Except.ok.inj hret
    obtain ⟨⟨hdying, hrecv⟩, hstays⟩ := handleArrival_pc hok
    exact ⟨.goes (by rw [hpc]; rfl) hdying (.refl _) hstays, hrecv⟩
  case h_2 => exact absurd hstep (by simp)

/-- A thread that may be woken is woken, or not. -/
theorem Threads.signal_or {c : Prop} [Decidable c] {i : ℕ} {woken : Threads T}
    (hwoken : (if c then h.signal i else some h) = some woken) :
    ∃ waiters, woken = { h with waiters := waiters } ∧ waiters.Sublist h.waiters := by
  split at hwoken
  · exact Threads.signal_ok hwoken
  · exact ⟨_, (Option.some.inj hwoken).symm, .refl _⟩

/-- **Every step** of the backend thread. -/
theorem Threads.backend_ok [DecidableEq T] {now : Int} {beyond : ℕ → UInt8}
    {torn : Option RecvBuffer} {i : ℕ} {packets : List Packet}
    (hstep : h.backend now beyond torn i = some (.ok (h', packets))) :
    h.BackendStep h' := by
  unfold Threads.backend at hstep
  split at hstep
  case isFalse => exact absurd hstep (by simp)
  case isTrue hguard =>
    -- at each program counter: which mutex it has, and where it goes from there
    have hheld : ∀ {pc m}, h.pc = pc → pc.wants = some m →
        h.pc.wants = some m ∧ h.holder m = some .backend := by
      intro pc m hpc hwants
      rw [hpc] at hguard ⊢
      exact ⟨hwants, hguard m hwants⟩
    unfold Threads.proceed at hstep
    split at hstep
    case h_1 hpc =>
      obtain ⟨rfl, _⟩ := Prod.mk.inj (Except.ok.inj (Option.some.inj hstep))
      obtain ⟨hwants, hhas⟩ := hheld hpc rfl
      exact .gives hwants hhas rfl (.refl _) ⟨fun hexit => LoopPc.exitTest.inj hexit, by simp⟩
        (by simp)
    case h_2 death hpc =>
      obtain ⟨rfl, _⟩ := Prod.mk.inj (Except.ok.inj (Option.some.inj hstep))
      obtain ⟨hwants, hhas⟩ := hheld hpc rfl
      refine .gives hwants hhas rfl (.refl _) ⟨fun hexit => absurd hexit ?_, fun hexit => ?_⟩ ?_
      · split <;> simp
      · split at hexit
        · rename_i htest
          rw [hpc, (Bool.and_eq_true_iff.mp htest).1]
        · exact absurd hexit (by simp)
      · split <;> simp
    case h_3 hpc =>
      obtain ⟨rfl, _⟩ := Prod.mk.inj (Except.ok.inj (Option.some.inj hstep))
      exact .goes (by rw [hpc]; rfl) rfl (.refl _) ⟨by simp, by simp, by simp⟩
    case h_4 pkt hpc =>
      obtain ⟨sendBuf, _, hret⟩ := ok_of_bind_ok (Option.some.inj hstep)
      obtain ⟨rfl, _⟩ := Prod.mk.inj (Except.ok.inj hret)
      obtain ⟨hwants, hhas⟩ := hheld hpc rfl
      have hstays := takeWindow_stays { h.sock with sendBuf := sendBuf } pkt
      exact .gives hwants hhas rfl (.refl _) hstays.leaving hstays.crashed
    case h_5 pkt hpc =>
      obtain ⟨woken, hwoken, hret⟩ := Option.map_eq_some_iff.mp hstep
      obtain ⟨recvBuf, _, hret⟩ := ok_of_bind_ok hret
      obtain ⟨rfl, _⟩ := Prod.mk.inj (Except.ok.inj hret)
      obtain ⟨waiters, rfl, hsub⟩ := Threads.signal_or hwoken
      obtain ⟨hwants, hhas⟩ := hheld hpc rfl
      exact .gives hwants hhas rfl hsub ⟨by simp, by simp⟩ (by simp)
    case h_6 hpc =>
      obtain ⟨rfl, _⟩ := Prod.mk.inj (Except.ok.inj (Option.some.inj hstep))
      obtain ⟨hwants, hhas⟩ := hheld hpc rfl
      exact .gives hwants hhas rfl (.refl _) ⟨by simp, by simp⟩ (by simp)
    case h_7 hpc =>
      obtain ⟨recvBuf, _, hret⟩ := Option.map_eq_some_iff.mp hstep
      obtain ⟨sent, hsent, hret⟩ := ok_of_bind_ok hret
      dsimp only at hret
      split at hret
      · obtain ⟨rfl, _⟩ := Prod.mk.inj (Except.ok.inj hret)
        obtain ⟨hwants, hhas⟩ := hheld hpc rfl
        exact .gives hwants hhas rfl (.refl _) ⟨by simp, by simp⟩ (by simp)
      · obtain ⟨rfl, _⟩ := Prod.mk.inj (Except.ok.inj hret)
        refine .dies hpc rfl (Bool.or_eq_true_iff.mpr (Or.inr ?_))
        rw [Bool.not_eq_true', ← Bool.not_eq_true]
        exact fun hin => absurd (transmit_fault hsent hin) ‹_›
    case h_8 hpc =>
      obtain ⟨rfl, _⟩ := Prod.mk.inj (Except.ok.inj (Option.some.inj hstep))
      obtain ⟨hwants, hhas⟩ := hheld hpc rfl
      exact .gives hwants hhas rfl (.refl _) ⟨by simp, by simp⟩ (by simp)
    case h_9 available hpc =>
      obtain ⟨woken, hwoken, hret⟩ := Option.map_eq_some_iff.mp hstep
      obtain ⟨rfl, _⟩ := Prod.mk.inj (Except.ok.inj hret)
      obtain ⟨waiters, rfl, hsub⟩ := Threads.signal_or hwoken
      exact .goes (by rw [hpc]; rfl) rfl hsub ⟨by simp, by simp, by simp⟩
    case h_10 => exact absurd hstep (by simp)
    case h_11 => exact absurd hstep (by simp)

end Backend

variable [DecidableEq T]

/-- The bytes that a thread has written into the ring. -/
def Threads.writtenBy (h : Threads T) (t : T) : List UInt8 :=
  (h.written.filter fun byte => byte.1 = t).map Prod.snd

/-- The threads of a socket and their record fit together. -/
structure Threads.Tidy (h : Threads T) : Prop where
  held : ∀ m th, h.holder m = some th → h.wants th = some m
  nodup : h.waiters.Nodup
  asleep : ∀ t ∈ h.waiters, ∃ length, h.app t = .reading length .noFlag ∧ ¬ length < 0
  passed : ∀ t, h.passed t = h.writtenBy t ++ (h.app t).left
  short : ∀ t, (h.app t).left.length < 2 ^ 31
  closed : h.closed = true → ∀ t, h.app t = .idle ∨ h.app t = .closing ∨ h.app t = .joining
  closing : ∀ t, h.app t = .closing → h.closed = true
  dying : h.sock.dying = true → h.closed = true
  leaving : h.pc = .exitTest true ∨ h.pc = .exited → h.sock.dying = true
  crashed : h.pc = .crashed → h.strayed = true

/-! ## Mutexes -/

section Mutexes

variable {h h' : Threads T} {th : Thread T} {m : Mutex}

/-- A thread that holds no mutex goes on. -/
theorem Threads.Tidy.held_same (h₀ : h.Tidy) (hholder : h'.holder = h.holder)
    (hnone : h.wants th = none)
    (hother : ∀ u, u ≠ th → ∀ m, h.wants u = some m → h'.wants u = some m) :
    ∀ m u, h'.holder m = some u → h'.wants u = some m := by
  intro m u hu
  rw [hholder] at hu
  have hwants := h₀.held m u hu
  by_cases hth : u = th
  · subst hth
    exact absurd (hnone.symm.trans hwants) (by simp)
  · exact hother u hth m hwants

/-- A thread gives its mutex back. -/
theorem Threads.Tidy.held_unlock (h₀ : h.Tidy) (hm : h.holder m = some th)
    (hholder : h'.holder = Function.update h.holder m none)
    (hother : ∀ u, u ≠ th → ∀ m, h.wants u = some m → h'.wants u = some m) :
    ∀ m' u, h'.holder m' = some u → h'.wants u = some m' := by
  intro m' u hu
  rw [hholder] at hu
  by_cases hmm : m' = m
  · subst hmm
    simp at hu
  · rw [Function.update_of_ne hmm] at hu
    have hwants := h₀.held m' u hu
    by_cases hth : u = th
    · -- it would hold two
      subst hth
      exact absurd (Option.some.inj (hwants.symm.trans (h₀.held m u hm))) hmm
    · exact hother u hth m' hwants

/-- Another thread still wants what it wanted. -/
theorem Threads.wants_app {t : T} (happ : h'.app t = h.app t)
    (hwaiters : t ∈ h'.waiters → t ∈ h.waiters) {m : Mutex}
    (hwants : h.wants (.app t) = some m) : h'.wants (.app t) = some m := by
  unfold Threads.wants at hwants ⊢
  dsimp only at hwants ⊢
  split at hwants
  · exact absurd hwants (by simp)
  · rename_i hawake
    rw [if_neg fun hw => hawake (hwaiters hw), happ]
    exact hwants

/-- A thread takes a mutex. -/
theorem Threads.Tidy.lock (h₀ : h.Tidy) (hlock : h.lock th = some h') :
    h'.Tidy ∧ ∃ m, h' = { h with holder := Function.update h.holder m (some th) } ∧
      h.holder m = none ∧ h.wants th = some m := by
  unfold Threads.lock at hlock
  split at hlock
  · rename_i m hwants
    split at hlock
    · rename_i hfree
      obtain rfl := Option.some.inj hlock
      refine ⟨{ h₀ with held := fun m' u hu => ?_ }, m, rfl, hfree, hwants⟩
      dsimp only at hu
      by_cases hmm : m' = m
      · subst hmm
        rw [Function.update_self] at hu
        obtain rfl := Option.some.inj hu
        exact hwants
      · rw [Function.update_of_ne hmm] at hu
        exact h₀.held m' u hu
    · exact absurd hlock (by simp)
  · exact absurd hlock (by simp)

/-- The threads of the application want what they wanted. -/
theorem Threads.BackendStep.others (hstep : h.BackendStep h') :
    ∀ u, u ≠ .backend → ∀ m, h.wants u = some m → h'.wants u = some m := by
  intro u hu m hwants
  cases u with
  | backend => exact absurd rfl hu
  | app t =>
    exact Threads.wants_app (congrFun hstep.app t) (fun hw => hstep.waiters.subset hw) hwants

/-- A step of the backend thread. -/
theorem Threads.Tidy.backendStep (h₀ : h.Tidy) (hstep : h.BackendStep h') : h'.Tidy := by
  have hother := hstep.others
  constructor
  case held =>
    -- no mutex is touched, or the one that was held is given back
    rcases hstep.holder with ⟨hnone, hholder⟩ | ⟨m, _, hheld, hholder⟩ | ⟨hpc, hpc', hholder⟩
    · exact h₀.held_same hholder (show h.wants .backend = none from hnone) hother
    · exact h₀.held_unlock hheld hholder hother
    · -- the process dies with `send_lock` taken
      intro m u hu
      rw [hholder] at hu
      have hwants := h₀.held m u hu
      cases u with
      | app t => exact hother _ (by simp) m hwants
      | backend =>
        show h'.pc.wants = some m
        rw [hpc']
        exact (congrArg LoopPc.wants hpc).symm.trans hwants
  case nodup => exact h₀.nodup.sublist hstep.waiters
  case asleep =>
    intro t ht
    rw [hstep.app]
    exact h₀.asleep t (hstep.waiters.subset ht)
  case passed =>
    intro t
    unfold Threads.writtenBy
    rw [hstep.passed, hstep.written, hstep.app]
    exact h₀.passed t
  case short =>
    rw [hstep.app]
    exact h₀.short
  case closed =>
    rw [hstep.closed, hstep.app]
    exact h₀.closed
  case closing =>
    rw [hstep.closed, hstep.app]
    exact h₀.closing
  case dying =>
    rw [hstep.dying, hstep.closed]
    exact h₀.dying
  case leaving =>
    rw [hstep.dying]
    -- a thread that is about to leave has read `dying`
    rintro (htest | hexited)
    · exact hstep.leaving.1 htest
    · exact h₀.leaving (Or.inl (hstep.leaving.2 hexited))
  case crashed => exact hstep.crashed

end Mutexes

/-! ## The threads of the application -/

section App

variable {h h' : Threads T} {t : T}

theorem Threads.app_goto_of_ne (h : Threads T) {t u : T} (hu : u ≠ t) (pc : AppPc) :
    (h.goto t pc).app u = h.app u :=
  Function.update_of_ne hu ..

/-- What remains of a `cmu_write` is the end of its buffer. -/
theorem cmuWriteIteration_rest {sock sock' : CmuSocket} {buf rest : List UInt8}
    (hwrite : cmuWriteIteration sock buf = .ok (rest, sock')) :
    buf.take (buf.length - rest.length) ++ rest = buf := by
  have hdrop : ∃ n, rest = buf.drop n := by
    unfold cmuWriteIteration at hwrite
    dsimp only at hwrite
    generalize (if buf.length.toUInt32 > sendBufferMaxWrite sock.sendBuf then _ else _) =
      writeLen at hwrite
    split at hwrite
    · obtain ⟨_, _, hret⟩ := ok_of_bind_ok hwrite
      exact ⟨_, (Prod.mk.inj (Except.ok.inj hret)).1.symm⟩
    · exact ⟨0, (Prod.mk.inj (Except.ok.inj hwrite)).1.symm⟩
  obtain ⟨n, rfl⟩ := hdrop
  have htake : buf.take (buf.length - (buf.drop n).length) = buf.take n := by
    rw [List.length_drop, List.take_eq_take_iff]
    omega
  rw [htake, List.take_append_drop]

/-- The socket after an iteration of the loop of `cmu_write`. -/
def Threads.wrote (h : Threads T) (t : T) (buf : List UInt8) (result : List UInt8 × CmuSocket) :
    Threads T :=
  ({ h with
    sock := result.2
    written := h.written ++ (buf.take (buf.length - result.1.length)).map (t, ·) }.goto t
      (.writing result.1)).unlock .sendLock

theorem Threads.writtenBy_wrote (h : Threads T) (t u : T) (buf : List UInt8)
    (result : List UInt8 × CmuSocket) : (h.wrote t buf result).writtenBy u =
      h.writtenBy u ++ if u = t then buf.take (buf.length - result.1.length) else [] := by
  show ((h.written ++ List.map (t, ·) _).filter _).map Prod.snd = _
  generalize buf.take (buf.length - result.1.length) = data
  have htag : ∀ byte ∈ data.map (t, ·), byte.1 = t := by
    intro byte hbyte
    obtain ⟨_, _, rfl⟩ := List.mem_map.mp hbyte
    rfl
  rw [List.filter_append, List.map_append]
  congr 1
  by_cases hu : u = t
  · rw [if_pos hu, List.filter_eq_self.mpr fun byte hbyte => by simp [htag byte hbyte, hu],
      map_snd_tag]
  · rw [if_neg hu, List.filter_eq_nil_iff.mpr fun byte hbyte => by
      simp [htag byte hbyte, Ne.symm hu], List.map_nil]

/-- The socket after a call of `cmu_read`. -/
def Threads.gave (h : Threads T) (t : T) (result : Int × List UInt8 × CmuSocket) : Threads T :=
  ({ h with
    sock := result.2.2
    read := h.read ++ result.2.1.map (t, ·) }.goto t .idle).unlock .recvLock

/-- What a step of a thread of the application is. -/
inductive Threads.AppStep (h : Threads T) (t : T) : Except Fault (Threads T) → Prop
  | returns (happ : h.app t = .writing []) : AppStep h t (.ok (h.goto t .idle))
  | writes {buf : List UInt8} (happ : h.app t = .writing buf)
      (hheld : h.holder .sendLock = some (.app t)) :
      AppStep h t ((cmuWriteIteration h.sock buf).map (h.wrote t buf))
  | refuses {length : Int} {flags : CmuReadMode} (happ : h.app t = .reading length flags)
      (hlength : length < 0) : AppStep h t (.ok (h.goto t .idle))
  | sleeps {length : Int} (happ : h.app t = .reading length .noFlag) (hlength : ¬ length < 0)
      (hheld : h.holder .recvLock = some (.app t)) (hnone : recvBufferMaxRead h.sock.recvBuf = 0) :
      AppStep h t (.ok ({ h with waiters := h.waiters ++ [t] }.unlock .recvLock))
  | reads {length : Int} {flags : CmuReadMode} (happ : h.app t = .reading length flags)
      (hheld : h.holder .recvLock = some (.app t)) :
      AppStep h t ((cmuRead h.sock length flags).map (h.gave t))
  | closes (happ : h.app t = .closing) (hheld : h.holder .deathLock = some (.app t)) :
      AppStep h t (.ok (({ h with sock := { h.sock with dying := true } }.goto t .joining).unlock
        .deathLock))
  | joins (happ : h.app t = .joining) : AppStep h t (.ok (h.goto t .idle))

theorem Threads.appStep_cases {r : Except Fault (Threads T)} (hstep : h.appStep t = some r) :
    h.AppStep t r := by
  unfold Threads.appStep at hstep
  split at hstep
  case h_1 => exact absurd hstep (by simp)
  -- nothing left to write
  case h_2 happ =>
    obtain rfl := Option.some.inj hstep
    exact .returns happ
  -- an iteration of `cmu_write` under `send_lock`
  case h_3 buf _ happ =>
    split at hstep
    · obtain rfl := Option.some.inj hstep
      exact .writes happ ‹_›
    · exact absurd hstep (by simp)
  -- a call of `cmu_read`: a negative length is refused before the lock
  case h_4 length flags happ =>
    split at hstep
    · obtain rfl := Option.some.inj hstep
      exact .refuses happ ‹_›
    · rename_i hlength
      split at hstep
      · rename_i hheld
        -- with nothing to read it goes to sleep, which gives the lock back
        split at hstep
        · rename_i hsleep
          obtain ⟨rfl, hnone⟩ := hsleep
          obtain rfl := Option.some.inj hstep
          exact .sleeps happ hlength hheld hnone
        · obtain rfl := Option.some.inj hstep
          exact .reads happ hheld
      · exact absurd hstep (by simp)
  -- `cmu_close` sets `dying` under `death_lock`
  case h_5 happ =>
    split at hstep
    · obtain rfl := Option.some.inj hstep
      exact .closes happ ‹_›
    · exact absurd hstep (by simp)
  -- and waits until the backend thread has left
  case h_6 happ =>
    split at hstep
    · obtain rfl := Option.some.inj hstep
      exact .joins happ
    · exact absurd hstep (by simp)

/-- A thread that is awake goes on to `pc`. -/
theorem Threads.Tidy.turn (h₀ : h.Tidy) {pc : AppPc} (happ : h'.app = Function.update h.app t pc)
    (hawake : t ∉ h.waiters) (hwaiters : h'.waiters = h.waiters) (hloop : h'.pc = h.pc)
    (hheld : ∀ m u, h'.holder m = some u → h'.wants u = some m)
    (hpassed : h'.passed t = h'.writtenBy t ++ pc.left) (hshort : pc.left.length < 2 ^ 31)
    (hother : ∀ u, u ≠ t → h'.passed u = h.passed u ∧ h'.writtenBy u = h.writtenBy u)
    (hkept : h.closed = true → h'.closed = true)
    (hclosed : h'.closed = true → (pc = .idle ∨ pc = .closing ∨ pc = .joining) ∧
      (h.closed = true ∨ ∀ u, h.app u = .idle))
    (hclosing : pc = .closing → h'.closed = true)
    (hdying : h'.sock.dying = true → h'.closed = true)
    (hleaving : h.sock.dying = true → h'.sock.dying = true) (hstrayed : h'.strayed = h.strayed) :
    h'.Tidy := by
  have hself : h'.app t = pc := by rw [happ, Function.update_self]
  have hsame : ∀ u, u ≠ t → h'.app u = h.app u := fun u hu => by
    rw [happ, Function.update_of_ne hu]
  constructor
  -- the thread `t` goes on to `pc`, and all others are where they were
  case held => exact hheld
  case nodup => exact hwaiters ▸ h₀.nodup
  case asleep =>
    intro u hu
    rw [hwaiters] at hu
    rw [hsame u fun hut => hawake (hut ▸ hu)]
    exact h₀.asleep u hu
  -- only the bytes of `t` may have moved, from its call into the ring
  case passed =>
    intro u
    by_cases hu : u = t
    · rw [hu, hself]
      exact hpassed
    · rw [hsame u hu, (hother u hu).1, (hother u hu).2]
      exact h₀.passed u
  case short =>
    intro u
    by_cases hu : u = t
    · rwa [hu, hself]
    · rw [hsame u hu]
      exact h₀.short u
  -- a closed socket has only idle threads, and those in `cmu_close`
  case closed =>
    intro hc u
    obtain ⟨hpc, hidle⟩ := hclosed hc
    by_cases hu : u = t
    · rwa [hu, hself]
    · rw [hsame u hu]
      exact hidle.elim (fun hold => h₀.closed hold u) fun hidle => Or.inl (hidle u)
  case closing =>
    intro u hu
    by_cases hut : u = t
    · rw [hut, hself] at hu
      exact hclosing hu
    · rw [hsame u hut] at hu
      exact hkept (h₀.closing u hu)
  case dying => exact hdying
  case leaving => exact fun hexit => hleaving (h₀.leaving (hloop ▸ hexit))
  case crashed => exact fun hpc => hstrayed.trans (h₀.crashed (hloop ▸ hpc))

/-- Only a thread that waits for data sleeps. -/
theorem Threads.Tidy.awake (h₀ : h.Tidy)
    (happ : ∀ length, h.app t = .reading length .noFlag → length < 0) : t ∉ h.waiters := by
  intro ht
  obtain ⟨length, hreading, hlength⟩ := h₀.asleep t ht
  exact hlength (happ length hreading)

theorem Threads.Tidy.awake_of_held (h₀ : h.Tidy) {m : Mutex}
    (hheld : h.holder m = some (.app t)) : t ∉ h.waiters := by
  intro ht
  have hwants := h₀.held m _ hheld
  rw [Threads.wants, if_pos ht] at hwants
  exact absurd hwants (by simp)

/-- The other threads want what they wanted. -/
theorem Threads.wants_others (hloop : h'.pc = h.pc) {pc : AppPc}
    (happ : h'.app = Function.update h.app t pc)
    (hwaiters : ∀ u, u ≠ t → u ∈ h'.waiters → u ∈ h.waiters) :
    ∀ u, u ≠ .app t → ∀ m, h.wants u = some m → h'.wants u = some m := by
  intro u hu m hwants
  cases u with
  | backend =>
    show h'.pc.wants = some m
    rw [hloop]
    exact hwants
  | app u =>
    have hut : u ≠ t := fun hut => hu (congrArg Thread.app hut)
    refine Threads.wants_app ?_ (hwaiters u hut) hwants
    rw [happ, Function.update_of_ne hut]

/-- A thread of the application ends its call, or goes on without a mutex. -/
theorem Threads.Tidy.goto (h₀ : h.Tidy) {pc : AppPc} (hnone : (h.app t).wants = none)
    (hawake : t ∉ h.waiters) (hleft : pc.left = (h.app t).left)
    (hclosed : h.closed = true → pc = .idle ∨ pc = .closing ∨ pc = .joining)
    (hclosing : pc = .closing → h.closed = true) : (h.goto t pc).Tidy := by
  have hwants : h.wants (.app t) = none := by rw [Threads.wants, if_neg hawake, hnone]
  exact h₀.turn rfl hawake rfl rfl
    (h₀.held_same rfl hwants (Threads.wants_others rfl rfl fun _ _ hw => hw))
    (hleft ▸ h₀.passed t) (hleft ▸ h₀.short t) (fun _ _ => ⟨rfl, rfl⟩) id
    (fun hc => ⟨hclosed hc, Or.inl hc⟩) hclosing h₀.dying id rfl

/-- A call that is over has nothing left. -/
theorem Threads.Tidy.ends (h₀ : h.Tidy) {pc : AppPc} (happ : h.app t = pc)
    (hnone : pc.wants = none) (hleft : pc.left = [])
    (hneg : ∀ length, pc = .reading length .noFlag → length < 0) : (h.goto t .idle).Tidy := by
  subst happ
  exact h₀.goto hnone (h₀.awake hneg) hleft.symm (fun _ => Or.inl rfl) (by simp)

/-- A call in progress other than `cmu_close` is on an open socket. -/
theorem Threads.Tidy.not_closed (h₀ : h.Tidy) {pc : AppPc} (happ : h.app t = pc)
    (hidle : pc ≠ .idle) (hclosing : pc ≠ .closing) (hjoining : pc ≠ .joining) :
    h.closed ≠ true := by
  subst happ
  exact fun hclosed => (h₀.closed hclosed t).elim hidle fun hrest => hrest.elim hclosing hjoining

/-- A thread of the application goes on to `pc` and gives its mutex back. -/
theorem Threads.Tidy.held_free (h₀ : h.Tidy) {m : Mutex} {pc : AppPc}
    (hheld : h.holder m = some (.app t)) (hholder : h'.holder = Function.update h.holder m none)
    (hloop : h'.pc = h.pc) (happ : h'.app = Function.update h.app t pc)
    (hwaiters : h'.waiters = h.waiters) : ∀ m' u, h'.holder m' = some u → h'.wants u = some m' :=
  h₀.held_unlock hheld hholder (Threads.wants_others hloop happ fun _ _ hw => hwaiters ▸ hw)

/-- `cmu_close` has set `dying`. -/
theorem Threads.Tidy.closes (h₀ : h.Tidy) (happ : h.app t = .closing)
    (hheld : h.holder .deathLock = some (.app t)) :
    (({ h with sock := { h.sock with dying := true } }.goto t .joining).unlock
      .deathLock).Tidy := by
  have hclosed := h₀.closing t happ
  have hpassed := h₀.passed t
  rw [happ] at hpassed
  exact h₀.turn rfl (h₀.awake_of_held hheld) rfl rfl (h₀.held_free hheld rfl rfl rfl rfl) hpassed
    (Nat.two_pow_pos 31) (fun _ _ => ⟨rfl, rfl⟩) id
    (fun _ => ⟨Or.inr (Or.inr rfl), Or.inl hclosed⟩) (by simp) (fun _ => hclosed) (fun _ => rfl)
    rfl

/-- A thread that finds nothing to read goes to sleep. -/
theorem Threads.Tidy.sleeps (h₀ : h.Tidy) {length : Int}
    (happ : h.app t = .reading length .noFlag) (hlength : ¬ length < 0)
    (hheld : h.holder .recvLock = some (.app t)) :
    ({ h with waiters := h.waiters ++ [t] }.unlock .recvLock).Tidy := by
  have hawake := h₀.awake_of_held hheld
  have hsame : h.app = Function.update h.app t (h.app t) := (Function.update_eq_self ..).symm
  refine { h₀ with held := ?_, nodup := ?_, asleep := ?_ }
  · refine h₀.held_unlock hheld rfl (Threads.wants_others rfl hsame fun u hu hw => ?_)
    exact (List.mem_append.mp hw).elim id fun hlast => absurd (List.mem_singleton.mp hlast) hu
  · show (h.waiters ++ [t]).Nodup
    rw [List.nodup_append]
    refine ⟨h₀.nodup, List.nodup_singleton t, fun a ha b hb hab => ?_⟩
    rw [hab, List.mem_singleton.mp hb] at ha
    exact hawake ha
  · intro u hu
    rcases List.mem_append.mp hu with hold | hlast
    · exact h₀.asleep u hold
    · obtain rfl := List.mem_singleton.mp hlast
      exact ⟨length, happ, hlength⟩

/-- What an iteration of the loop of `cmu_write` has written joins what was. -/
theorem Threads.Tidy.writes (h₀ : h.Tidy) {buf rest : List UInt8} {sock : CmuSocket}
    (happ : h.app t = .writing buf) (hheld : h.holder .sendLock = some (.app t))
    (hwrite : cmuWriteIteration h.sock buf = .ok (rest, sock)) :
    (h.wrote t buf (rest, sock)).Tidy := by
  obtain ⟨sb, rfl, _⟩ := cmuWriteIteration_ok hwrite
  have hjoin := cmuWriteIteration_rest hwrite
  have hshort := h₀.short t
  have hpassed := h₀.passed t
  have hnot := h₀.not_closed happ (by simp) (by simp) (by simp)
  rw [happ] at hshort hpassed
  refine h₀.turn rfl (h₀.awake_of_held hheld) rfl rfl (h₀.held_free hheld rfl rfl rfl rfl) ?_
    (lt_of_le_of_lt ?_ hshort) (fun u hu => ⟨rfl, ?_⟩) id (fun hc => absurd hc hnot) (by simp)
    h₀.dying id rfl
  · show h.passed t = (h.wrote t buf (rest, _)).writtenBy t ++ rest
    rw [h.writtenBy_wrote, if_pos rfl, List.append_assoc, hjoin]
    exact hpassed
  · show rest.length ≤ buf.length
    rw [← hjoin, List.length_append]
    exact Nat.le_add_left _ _
  · show (h.wrote t buf (rest, _)).writtenBy u = _
    rw [h.writtenBy_wrote, if_neg hu, List.append_nil]

/-- `cmu_read` has what it returns. -/
theorem Threads.Tidy.reads (h₀ : h.Tidy) {length count : Int} {flags : CmuReadMode}
    {data : List UInt8} {sock : CmuSocket} (happ : h.app t = .reading length flags)
    (hheld : h.holder .recvLock = some (.app t))
    (hread : cmuRead h.sock length flags = .ok (count, data, sock)) :
    (h.gave t (count, data, sock)).Tidy := by
  obtain ⟨rb, rfl⟩ := cmuRead_ok hread
  have hpassed := h₀.passed t
  have hnot := h₀.not_closed happ (by simp) (by simp) (by simp)
  rw [happ] at hpassed
  exact h₀.turn rfl (h₀.awake_of_held hheld) rfl rfl (h₀.held_free hheld rfl rfl rfl rfl) hpassed
    (Nat.two_pow_pos 31) (fun _ _ => ⟨rfl, rfl⟩) id (fun hc => absurd hc hnot) (by simp)
    h₀.dying id rfl

/-- **Every step** of a thread of the application. -/
theorem Threads.Tidy.appStep (h₀ : h.Tidy) {r : Except Fault (Threads T)} (hstep : h.AppStep t r)
    (hr : r = .ok h') : h'.Tidy := by
  cases hstep with
  | returns happ =>
    obtain rfl := Except.ok.inj hr
    exact h₀.ends happ rfl rfl (by simp)
  | refuses happ hlength =>
    obtain rfl := Except.ok.inj hr
    refine h₀.ends happ (if_pos hlength) rfl fun length hpc => ?_
    obtain ⟨rfl, _⟩ := AppPc.reading.inj hpc
    exact hlength
  | joins happ =>
    obtain rfl := Except.ok.inj hr
    exact h₀.ends happ rfl rfl (by simp)
  | closes happ hheld =>
    obtain rfl := Except.ok.inj hr
    exact h₀.closes happ hheld
  | sleeps happ hlength hheld =>
    obtain rfl := Except.ok.inj hr
    exact h₀.sleeps happ hlength hheld
  | writes happ hheld =>
    obtain ⟨⟨rest, sock⟩, hwrite, rfl⟩ := ok_of_map_ok hr
    exact h₀.writes happ hheld hwrite
  | reads happ hheld =>
    obtain ⟨⟨count, data, sock⟩, hread, rfl⟩ := ok_of_map_ok hr
    exact h₀.reads happ hheld hread

/-! ## Calls -/

theorem Threads.writeCall_ok {data : List UInt8} (hcall : h.writeCall t data = some h') :
    h.app t = .idle ∧ data.length < 2 ^ 31 ∧ h' =
      { h with passed := Function.update h.passed t (h.passed t ++ data) }.goto t
        (.writing data) := by
  unfold Threads.writeCall at hcall
  split at hcall
  · rename_i hguard
    exact ⟨hguard.1, hguard.2, (Option.some.inj hcall).symm⟩
  · exact absurd hcall (by simp)

theorem Threads.readCall_ok {length : Int} {flags : CmuReadMode}
    (hcall : h.readCall t length flags = some h') :
    h.app t = .idle ∧ h' = h.goto t (.reading length flags) := by
  unfold Threads.readCall at hcall
  split at hcall
  · exact ⟨‹_›, (Option.some.inj hcall).symm⟩
  · exact absurd hcall (by simp)

theorem Threads.closeCall_ok (hcall : h.closeCall t = some h') :
    h.app t = .idle ∧ h' = { h with closed := true }.goto t .closing := by
  unfold Threads.closeCall at hcall
  split at hcall
  · exact ⟨‹_›, (Option.some.inj hcall).symm⟩
  · exact absurd hcall (by simp)

/-- A thread that makes a call is awake, and wants no mutex. -/
theorem Threads.Tidy.of_idle (h₀ : h.Tidy) (happ : h.app t = .idle) :
    t ∉ h.waiters ∧ h.wants (.app t) = none := by
  have hawake := h₀.awake (t := t) (by simp [happ])
  refine ⟨hawake, ?_⟩
  rw [Threads.wants, if_neg hawake, happ]
  rfl

theorem Threads.Tidy.writeCall (h₀ : h.Tidy) (hopen : h.closed = false) {data : List UInt8}
    (hcall : h.writeCall t data = some h') : h'.Tidy := by
  obtain ⟨hidle, hshort, rfl⟩ := Threads.writeCall_ok hcall
  obtain ⟨hawake, hnone⟩ := h₀.of_idle hidle
  have hpassed := h₀.passed t
  rw [hidle] at hpassed
  refine h₀.turn rfl hawake rfl rfl
    (h₀.held_same rfl hnone (Threads.wants_others rfl rfl fun _ _ hw => hw)) ?_ hshort
    (fun u hu => ⟨Function.update_of_ne hu .., rfl⟩) id
    (fun hc => absurd (hopen.symm.trans hc) (by decide)) (by simp) h₀.dying id rfl
  show Function.update h.passed t (h.passed t ++ data) t = h.writtenBy t ++ data
  rw [Function.update_self, hpassed]
  show h.writtenBy t ++ [] ++ data = _
  rw [List.append_nil]

theorem Threads.Tidy.readCall (h₀ : h.Tidy) (hopen : h.closed = false) {length : Int}
    {flags : CmuReadMode} (hcall : h.readCall t length flags = some h') : h'.Tidy := by
  obtain ⟨hidle, rfl⟩ := Threads.readCall_ok hcall
  refine h₀.goto (by rw [hidle]; rfl) (h₀.of_idle hidle).1 (by rw [hidle]; rfl)
    (fun hc => absurd (hopen.symm.trans hc) (by decide)) (by simp)

theorem Threads.Tidy.closeCall (h₀ : h.Tidy) (hidle : ∀ u, h.app u = .idle)
    (hcall : h.closeCall t = some h') : h'.Tidy := by
  obtain ⟨_, rfl⟩ := Threads.closeCall_ok hcall
  obtain ⟨hawake, hnone⟩ := h₀.of_idle (hidle t)
  have hpassed := h₀.passed t
  rw [hidle t] at hpassed
  exact h₀.turn rfl hawake rfl rfl
    (h₀.held_same rfl hnone (Threads.wants_others rfl rfl fun _ _ hw => hw)) hpassed
    (Nat.two_pow_pos 31) (fun _ _ => ⟨rfl, rfl⟩) (fun _ => rfl)
    (fun _ => ⟨Or.inr (Or.inl rfl), Or.inr hidle⟩) (fun _ => rfl) (fun _ => rfl) id rfl

/-- Threads that sleep wake up. -/
theorem Threads.Tidy.wakeUp (h₀ : h.Tidy) {waiters : List T}
    (hsub : waiters.Sublist h.waiters) : ({ h with waiters := waiters } : Threads T).Tidy where
  held m th hheld := by
    have hwants := h₀.held m th hheld
    cases th with
    | backend => exact hwants
    | app t =>
      have happ : ({ h with waiters := waiters } : Threads T).app t = h.app t := rfl
      exact Threads.wants_app happ (fun hw => hsub.subset hw) hwants
  nodup := h₀.nodup.sublist hsub
  asleep u hu := h₀.asleep u (hsub.subset hu)
  passed := h₀.passed
  short := h₀.short
  closed := h₀.closed
  closing := h₀.closing
  dying := h₀.dying
  leaving := h₀.leaving
  crashed := h₀.crashed

end App

end CmuTcp
