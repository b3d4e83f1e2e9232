import CmuTcp.Threads.Interleaving

/-!
# Safety in Every Interleaving

What holds of two sockets however the scheduler and the network choose, with any number of
threads that write and read: the order of the sequence numbers, delivery, the mutexes, and
the condition variable.

1. `threads_safe`: the invariant of the interleavings, read as what the threads of the
   application can see.
2. `mutex_freed`: a thread that holds a mutex holds no other, and its next step gives it
   back, whatever all others do; only the death of the process keeps a mutex for ever.
3. `no_lost_wakeup`: a reader that sleeps has nothing to read.  The backend thread changes the
   receive buffer only in the step that wakes a thread, and with one reader it wakes that one.

The frees of `cmu_close` are not part of the model, so each of the three is about runs in which
a socket is closed last.
-/

namespace CmuTcp

open FaultSystem

variable {T : Type} [DecidableEq T] {cfg : Config} {s : ThreadedSys T} {x : Side}

/-- No sequence number of either side wraps around. -/
def ThreadedSys.NoWrap (s : ThreadedSys T) : Prop :=
  (s.host .client).sock.sendBuf.NoWrap ∧ (s.host .server).sock.sendBuf.NoWrap

instance ThreadedSys.decidableNoWrap (s : ThreadedSys T) : Decidable s.NoWrap :=
  inferInstanceAs (Decidable (_ ∧ _))

/-! ## The streams -/

/-- The direction from `x` to its peer, wherever the threads are. -/
structure ThreadedSys.Safe (s : ThreadedSys T) (x : Side) : Prop where
  acked_lt_expected : (s.host x).sock.sendBuf.lastByteAckedSeqnum.toNat <
    (getNextByteExpectedSeqnum (s.host x.other).sock.recvBuf).toNat
  expected_le_sent : (getNextByteExpectedSeqnum (s.host x.other).sock.recvBuf).toNat ≤
    (getLastByteSentSeqnum (s.host x).sock.sendBuf).toNat + 1
  sent_le_written : (getLastByteSentSeqnum (s.host x).sock.sendBuf).toNat + 1 ≤
    (getNextByteWrittenSeqnum (s.host x).sock.sendBuf).toNat
  -- the copies of the ack state disagree only before `send_buffer_update_ack`
  lastAck : (∀ pkt, (s.host x).pc ≠ .updateAck pkt) →
    (s.host x).sock.window.lastAckReceived = (s.host x).sock.sendBuf.lastByteAckedSeqnum + 1
  -- each thread's bytes go into the ring in its order
  written : ∀ t, (s.host x).writtenBy t <+: (s.host x).passed t
  delivered : (s.host x).strayed = false →
    (s.host x.other).read.map Prod.snd <+: (s.host x).written.map Prod.snd
  -- a process dies in a copy out of the ring, nowhere else
  crashed : (s.host x).pc = .crashed → (s.host x).strayed = true
  -- a thread that has left its loop has lost nothing of what any thread wrote
  exited : (s.host x).pc = .exited →
    (∀ t, (s.host x).writtenBy t = (s.host x).passed t) ∧
      getNextByteExpectedSeqnum (s.host x.other).sock.recvBuf =
        getNextByteWrittenSeqnum (s.host x).sock.sendBuf

theorem ThreadedSys.Sound.safe {out : Side → SendStream UInt8} {inn : Side → Reassembly}
    (hs : s.Sound cfg out inn) (hw : s.sys.NoWrap) (x : Side) : s.Safe x := by
  have hsafe := hs.sys.ackSafe hw x
  have htidy := hs.tidy x
  -- what the threads have written, without their names, is the stream
  have hpassed : (s.host x).written.map Prod.snd = (out x).written :=
    (ThreadedSys.buffers hs.sys hw x).2.2.2.1
  constructor
  case acked_lt_expected => exact hsafe.acked_lt_expected
  case expected_le_sent => exact hsafe.expected_le_sent
  case sent_le_written => exact hsafe.sent_le_written
  case lastAck => exact fun hpc => (hs.lastAck x).trans (Threads.lastAck_of hpc)
  -- a thread's bytes in the ring are what it has passed, but for what it has left
  case written =>
    intro t
    rw [htidy.passed t]
    exact List.prefix_append _ _
  case delivered =>
    intro hx
    rw [hpassed]
    have hdelivered : (s.host x.other).read.map Prod.snd = _ := (hs.sys.faithful x hx).delivered
    rw [hdelivered]
    exact List.take_prefix _ _
  case crashed => exact htidy.crashed
  -- a thread that has left: the socket is closed, and no call has anything left
  case exited =>
    intro hpc
    have hclosed := htidy.dying (htidy.leaving (Or.inr hpc))
    constructor
    · intro t
      have hleft : ((s.host x).app t).left = [] := by
        rcases htidy.closed hclosed t with hidle | hclosing | hjoining
        · rw [hidle]
          rfl
        · rw [hclosing]
          rfl
        · rw [hjoining]
          rfl
      rw [htidy.passed t, hleft, List.append_nil]
    -- everything is acknowledged, so the four numbers are one
    · have hall := hs.exited x hpc
      have hnext := (hs.sys.endpoint x).sock.sendBuf.getNextByteWrittenSeqnum (hw.sendBuf x)
      have hacked := (hs.sys.endpoint x).sock.sendBuf.acked
      have hlo := hsafe.acked_lt_expected
      have hhi := hsafe.expected_le_sent
      have hsent := hsafe.sent_le_written
      apply UInt32.toNat_inj.mp
      show (getNextByteExpectedSeqnum (s.sys.ep x.other).sock.recvBuf).toNat =
        (getNextByteWrittenSeqnum (s.sys.ep x).sock.sendBuf).toNat
      omega

/-- **Safety in every interleaving**: in every run of the threads of two sockets, each of
    which is closed last, over a network that loses, duplicates and reorders packets, both
    directions are safe, and no step of any thread violates an assertion. -/
theorem threads_safe (hcfg : cfg.Valid) {tr : List (ThreadedSys T × ThreadLabel T)}
    (h : Run (threadsFrom cfg.establishedThreads) ThreadedSys.NoWrap tr s)
    (hlast : ∀ p ∈ tr, p.1.ClosesLast p.2) :
    (∀ x, s.Safe x) ∧ ∀ l f, s.ClosesLast l → s.step l ≠ some (.error f) := by
  obtain ⟨out, inn, hs⟩ := ThreadedSys.Sound.of_run hcfg h hlast
  refine ⟨hs.safe h.kept, fun l f hl hfault => ?_⟩
  obtain ⟨s', hs', _⟩ := hs.step h.kept hl hfault
  exact absurd hs' (by simp)

/-- Two threads of the client write, and a thread of the server reads both bytes before the
    backend thread of the server has answered. -/
def interleavedLabels : List (ThreadLabel Bool) :=
  [.writeCall .client false [7], .writeCall .client true [8],
    .lock .client (.app true), .app .client true,
    .lock .client (.app false), .app .client false,
    .lock .client .backend, .backend .client 0 (fun _ => 0) none 0,
    .lock .client .backend, .backend .client 0 (fun _ => 0) none 0,
    .backend .client 0 (fun _ => 0) none 0,
    .lock .client .backend, .backend .client 0 (fun _ => 0) none 0,
    .lock .server .backend, .backend .server 0 (fun _ => 0) none 0,
    .lock .server .backend, .backend .server 0 (fun _ => 0) none 0,
    .receive .server 0, .readCall .server true 2 .noFlag,
    .lock .server .backend, .backend .server 0 (fun _ => 0) none 0,
    .lock .server (.app true), .app .server true]

theorem interleaved_run : ∃ tr s, Run (threadsFrom (smallConfig 4).establishedThreads)
    (ThreadedSys.NoWrap (T := Bool)) tr s ∧ (∀ p ∈ tr, p.1.ClosesLast p.2) ∧
    (s.host .server).pc = .answer ∧ (s.host .server).read = [(true, 8), (true, 7)] := by
  have hinit : Run (threadsFrom (smallConfig 4).establishedThreads)
      (ThreadedSys.NoWrap (T := Bool)) [] (smallConfig 4).establishedThreads :=
    .init rfl (by decide)
  exact ⟨_, _, hinit.exec interleavedLabels rfl, by decide, rfl, rfl⟩

theorem threads_safe_interleaved : ∃ tr s, Run (threadsFrom (smallConfig 4).establishedThreads)
    (ThreadedSys.NoWrap (T := Bool)) tr s ∧
    (s.host .server).read = [(true, 8), (true, 7)] ∧ ∀ x, s.Safe x := by
  obtain ⟨tr, s, hrun, hlast, _, hread⟩ := interleaved_run
  exact ⟨tr, s, hrun, hread, (threads_safe (smallConfig_valid (by decide)) hrun hlast).1⟩

/-! ## The mutexes -/

section Mutexes

variable {h h' : Threads T} {m : Mutex}

/-- What a thread that holds a mutex does next. -/
def ThreadLabel.turn (x : Side) (now : Int) (beyond : ℕ → UInt8) : Thread T → ThreadLabel T
  | .backend => .backend x now beyond none 0
  | .app t => .app x t

end Mutexes

section Wakeup

variable {h h' : Threads T} {t : T}

/-- Only `t` reads, and it sleeps only as long as there is nothing to read. -/
structure Threads.Served (h : Threads T) (t : T) : Prop where
  reader : ∀ u length flags, h.app u = .reading length flags → u = t
  nothing : h.waiters ≠ [] → recvBufferMaxRead h.sock.recvBuf = 0

/-- At most one thread sleeps. -/
theorem Threads.Served.waiters (hv : h.Served t) (h₀ : h.Tidy) :
    h.waiters = [] ∨ h.waiters = [t] := by
  have hall : ∀ u ∈ h.waiters, u = t := by
    intro u hu
    obtain ⟨length, happ, _⟩ := h₀.asleep u hu
    exact hv.reader u length _ happ
  cases hwaiters : h.waiters with
  | nil => exact Or.inl rfl
  | cons u rest =>
    rw [hwaiters] at hall
    obtain rfl := hall u (List.mem_cons_self ..)
    cases rest with
    | nil => exact Or.inr rfl
    | cons v rest =>
      -- the second would be the first
      have hnodup := h₀.nodup
      rw [hwaiters, hall v (by simp)] at hnodup
      exact absurd hnodup (by simp)

omit [DecidableEq T] in
/-- A step that changes neither the receive buffer nor who reads, and puts no thread to
    sleep. -/
theorem Threads.Served.same (hv : h.Served t) (hrecv : h'.sock.recvBuf = h.sock.recvBuf)
    (happ : ∀ u length flags, h'.app u = .reading length flags → h.app u = .reading length flags)
    (hwaiters : h'.waiters ≠ [] → h.waiters ≠ []) : h'.Served t where
  reader u length flags hu := hv.reader u length flags (happ u length flags hu)
  nothing hne := by
    rw [hrecv]
    exact hv.nothing (hwaiters hne)

/-- A thread that goes on to `pc`. -/
theorem Threads.reading_of_goto {pc : AppPc} (hpc : ∀ length flags, pc ≠ .reading length flags)
    (u : T) (length : Int) (flags : CmuReadMode)
    (hu : Function.update h.app t pc u = .reading length flags) :
    h.app u = .reading length flags := by
  by_cases hut : u = t
  · subst hut
    rw [Function.update_self] at hu
    exact absurd hu (hpc length flags)
  · rwa [Function.update_of_ne hut] at hu

/-- The backend thread changes the receive buffer only as it wakes a thread. -/
theorem Threads.backend_wakes {now : Int} {beyond : ℕ → UInt8} {torn : Option RecvBuffer} {i : ℕ}
    {packets : List Packet} (hstep : h.backend now beyond torn i = some (.ok (h', packets))) :
    h'.sock.recvBuf = h.sock.recvBuf ∨ h'.waiters.length ≤ h.waiters.length - 1 := by
  unfold Threads.backend at hstep
  split at hstep
  case isFalse => exact absurd hstep (by simp)
  case isTrue =>
    unfold Threads.proceed at hstep
    split at hstep
    -- `send_buffer_update_ack` leaves the receive buffer alone
    case h_4 pkt _ =>
      obtain ⟨sendBuf, _, hret⟩ := ok_of_bind_ok (Option.some.inj hstep)
      obtain ⟨rfl, _⟩ := Prod.mk.inj (Except.ok.inj hret)
      exact Or.inl rfl
    -- `recv_buffer_receive` is in the same critical section as the signal
    case h_5 pkt _ =>
      obtain ⟨woken, hwoken, hret⟩ := Option.map_eq_some_iff.mp hstep
      obtain ⟨recvBuf, hreceive, hret⟩ := ok_of_bind_ok hret
      obtain ⟨rfl, _⟩ := Prod.mk.inj (Except.ok.inj hret)
      split at hwoken
      · refine Or.inr ?_
        unfold Threads.signal at hwoken
        split at hwoken
        · rename_i hnone
          obtain rfl := Option.some.inj hwoken
          show h.waiters.length ≤ _
          rw [hnone]
          exact le_refl _
        · split at hwoken
          · rename_i hlt
            obtain rfl := Option.some.inj hwoken
            exact le_of_eq (List.length_eraseIdx_of_lt hlt)
          · exact absurd hwoken (by simp)
      -- a segment that is refused wakes nobody, and changes nothing
      · rename_i hrefused
        obtain rfl := Option.some.inj hwoken
        unfold receivePayload at hreceive
        rw [if_neg hrefused] at hreceive
        exact Or.inl (Except.ok.inj hreceive).symm
    -- the sending part copies the receive buffer and does not change it
    case h_7 =>
      obtain ⟨recvBuf, _, hret⟩ := Option.map_eq_some_iff.mp hstep
      obtain ⟨sent, _, hret⟩ := ok_of_bind_ok hret
      dsimp only at hret
      split at hret
      · obtain ⟨rfl, _⟩ := Prod.mk.inj (Except.ok.inj hret)
        exact Or.inl rfl
      · obtain ⟨rfl, _⟩ := Prod.mk.inj (Except.ok.inj hret)
        exact Or.inl rfl
    -- the signal of `begin_backend` wakes a thread, or nobody waits
    case h_9 =>
      obtain ⟨woken, hwoken, hret⟩ := Option.map_eq_some_iff.mp hstep
      obtain ⟨rfl, _⟩ := Prod.mk.inj (Except.ok.inj hret)
      obtain ⟨_, rfl, _⟩ := Threads.signal_or hwoken
      exact Or.inl rfl
    case h_10 => exact absurd hstep (by simp)
    case h_11 => exact absurd hstep (by simp)
    -- all other steps look at no buffer
    all_goals
      obtain ⟨rfl, _⟩ := Prod.mk.inj (Except.ok.inj (Option.some.inj hstep))
      exact Or.inl rfl

/-- The backend thread serves the reader. -/
theorem Threads.Served.backend (hv : h.Served t) (h₀ : h.Tidy) {now : Int} {beyond : ℕ → UInt8}
    {torn : Option RecvBuffer} {i : ℕ} {packets : List Packet}
    (hstep : h.backend now beyond torn i = some (.ok (h', packets))) : h'.Served t := by
  have hfacts := Threads.backend_ok hstep
  have happ := hfacts.app
  have hsub := hfacts.waiters
  rcases Threads.backend_wakes hstep with hrecv | hfewer
  · refine hv.same hrecv (fun u length flags hu => happ ▸ hu) fun hne hnone => hne ?_
    rw [hnone] at hsub
    exact List.sublist_nil.mp hsub
  · refine ⟨fun u length flags hu => hv.reader u length flags (happ ▸ hu), fun hne => absurd ?_ hne⟩
    -- only one thread can have slept
    rcases hv.waiters h₀ with hnone | hone
    · rw [hnone] at hsub
      exact List.sublist_nil.mp hsub
    · rw [hone] at hfewer
      exact List.length_eq_zero_iff.mp (Nat.le_zero.mp hfewer)

theorem Threads.Served.app (hv : h.Served t) (h₀ : h.Tidy) {u : T} {r : Except Fault (Threads T)}
    (hact : h.AppStep u r) (hr : r = .ok h') : h'.Served t := by
  have hends : ∀ {pc : AppPc} {u' : T} {length : Int} {flags : CmuReadMode},
      (∀ length flags, pc ≠ .reading length flags) →
      Function.update h.app u pc u' = .reading length flags → h.app u' = .reading length flags :=
    fun hpc hu => Threads.reading_of_goto hpc _ _ _ hu
  cases hact with
  | returns =>
    obtain rfl := Except.ok.inj hr
    exact hv.same rfl (fun _ _ _ hu => hends (by simp) hu) id
  | refuses =>
    obtain rfl := Except.ok.inj hr
    exact hv.same rfl (fun _ _ _ hu => hends (by simp) hu) id
  | joins =>
    obtain rfl := Except.ok.inj hr
    exact hv.same rfl (fun _ _ _ hu => hends (by simp) hu) id
  | closes =>
    obtain rfl := Except.ok.inj hr
    exact hv.same rfl (fun _ _ _ hu => hends (by simp) hu) id
  | writes =>
    obtain ⟨⟨rest, sock⟩, hwrite, rfl⟩ := ok_of_map_ok hr
    obtain ⟨sb, rfl, _⟩ := cmuWriteIteration_ok hwrite
    exact hv.same rfl (fun _ _ _ hu => hends (by simp) hu) id
  | sleeps happ hlength hheld hnone =>
    obtain rfl := Except.ok.inj hr
    exact ⟨hv.reader, fun _ => hnone⟩
  | @reads length flags happ hheld =>
    obtain ⟨⟨count, data, sock⟩, hread, rfl⟩ := ok_of_map_ok hr
    refine ⟨fun v l f hu => hv.reader v l f (hends (by simp) hu), fun hne => absurd ?_ hne⟩
    -- the one that sleeps would be the one that reads
    obtain rfl := hv.reader u length flags happ
    refine (hv.waiters h₀).resolve_right fun hone => ?_
    exact h₀.awake_of_held hheld (by simp [hone])

end Wakeup

/-! ### Every step serves the reader -/

section Serves

variable {out : Side → SendStream UInt8} {inn : Side → Reassembly} {t : T} {y : Side}
  {h h' : Threads T}

omit [DecidableEq T] in
/-- It is enough to look at the side that takes the step. -/
theorem ThreadedSys.served_put (s₀ : ThreadedSys T) (hv : (s.host x).Served t)
    (hhost : s₀.host = s.host) {packets : List Packet} (hy : (s.host y).Served t → h'.Served t) :
    ((s₀.put y h' packets).host x).Served t := by
  by_cases hyx : y = x
  · subst hyx
    rw [ThreadedSys.host_put_self]
    exact hy hv
  · show (Function.update s₀.host y h' x).Served t
    rwa [Function.update_of_ne (Ne.symm hyx), hhost]

/-- Calls of `cmu_write` and `cmu_close` do not read. -/
theorem Threads.Served.writeCall (hv : h.Served t) {u : T} {data : List UInt8}
    (hcall : h.writeCall u data = some h') : h'.Served t := by
  obtain ⟨_, _, rfl⟩ := Threads.writeCall_ok hcall
  exact hv.same rfl (fun _ _ _ hu => Threads.reading_of_goto (by simp) _ _ _ hu) id

theorem Threads.Served.closeCall (hv : h.Served t) {u : T}
    (hcall : h.closeCall u = some h') : h'.Served t := by
  obtain ⟨_, rfl⟩ := Threads.closeCall_ok hcall
  exact hv.same rfl (fun _ _ _ hu => Threads.reading_of_goto (by simp) _ _ _ hu) id

/-- A call of `cmu_read` by the one that reads. -/
theorem Threads.Served.readCall (hv : h.Served t) {length : Int} {flags : CmuReadMode}
    (hcall : h.readCall t length flags = some h') : h'.Served t := by
  obtain ⟨_, rfl⟩ := Threads.readCall_ok hcall
  refine ⟨fun v l f hu => ?_, hv.nothing⟩
  by_cases hvt : v = t
  · exact hvt
  · rw [Threads.app_goto_of_ne _ hvt] at hu
    exact hv.reader v l f hu

omit [DecidableEq T] in
theorem Threads.Served.receive (hv : h.Served t) {source : SockAddr} {pkt : Packet}
    (hstep : h.receive source pkt = some (.ok h')) : h'.Served t := by
  obtain ⟨hfacts, hrecv⟩ := Threads.receive_ok hstep
  refine hv.same hrecv (fun _ _ _ hu => hfacts.app ▸ hu) fun hne hnone => hne ?_
  exact List.sublist_nil.mp (hnone ▸ hfacts.waiters)

/-- **Every step** serves the reader. -/
theorem ThreadedSys.served_step (hs : s.Sound cfg out inn) (hv : (s.host x).Served t)
    {l : ThreadLabel T} {s' : ThreadedSys T} (hstep : s.step l = some (.ok s'))
    (honly : ∀ u length flags, l = .readCall x u length flags → u = t) :
    (s'.host x).Served t := by
  replace hstep := (ThreadedSys.step_eq_some.mp hstep).2
  cases l with
  -- a thread takes a mutex
  | lock y th =>
    obtain ⟨h, hlock, hr⟩ := Option.map_eq_some_iff.mp hstep
    obtain ⟨_, m, rfl, _⟩ := (hs.tidy y).lock hlock
    obtain rfl := Except.ok.inj hr
    exact served_put s hv rfl fun hy => hy.same rfl (fun _ _ _ hu => hu) id
  -- the backend thread wakes the reader when there is something to read
  | backend y now beyond torn i =>
    obtain ⟨r, hback, hr⟩ := Option.map_eq_some_iff.mp hstep
    obtain ⟨⟨h', packets⟩, rfl, rfl⟩ := ok_of_map_ok hr
    exact served_put s hv rfl fun hy => hy.backend (hs.tidy y) hback
  -- a packet arrives at the thread
  | receive y i =>
    unfold ThreadedSys.act at hstep
    dsimp only at hstep
    split at hstep
    · obtain ⟨r, hreceive, hr⟩ := Option.map_eq_some_iff.mp hstep
      obtain ⟨h', rfl, rfl⟩ := ok_of_map_ok hr
      exact served_put (s.takePacket y i) hv rfl fun hy => hy.receive hreceive
    · exact absurd hstep (by simp)
  | writeCall y u data =>
    obtain ⟨h, hcall, hr⟩ := Option.map_eq_some_iff.mp hstep
    obtain rfl := Except.ok.inj hr
    exact served_put s hv rfl fun hy => hy.writeCall hcall
  -- only `t` calls `cmu_read` on the side `x`
  | readCall y u length flags =>
    obtain ⟨h, hcall, hr⟩ := Option.map_eq_some_iff.mp hstep
    obtain rfl := Except.ok.inj hr
    by_cases hyx : y = x
    · subst hyx
      obtain rfl := honly u length flags rfl
      exact served_put s hv rfl fun hy => hy.readCall hcall
    · show (Function.update s.host y h x).Served t
      rwa [Function.update_of_ne (Ne.symm hyx)]
  | closeCall y u =>
    obtain ⟨h, hcall, hr⟩ := Option.map_eq_some_iff.mp hstep
    obtain rfl := Except.ok.inj hr
    exact served_put s hv rfl fun hy => hy.closeCall hcall
  -- the reader goes to sleep only if there is nothing to read
  | app y u =>
    obtain ⟨r, happ, hr⟩ := Option.map_eq_some_iff.mp hstep
    obtain ⟨h', rfl, rfl⟩ := ok_of_map_ok hr
    exact served_put s hv rfl fun hy => hy.app (hs.tidy y) (Threads.appStep_cases happ) rfl
  -- a thread wakes up, for whatever reason
  | wakeUp y i =>
    unfold ThreadedSys.act at hstep
    dsimp only at hstep
    split at hstep
    · obtain rfl := Except.ok.inj (Option.some.inj hstep)
      exact served_put s hv rfl fun hy =>
        hy.same rfl (fun _ _ _ hu => hu) fun hne hnone => hne (by simp [hnone])
    · exact absurd hstep (by simp)
  -- the network does not touch the threads
  | lose y i =>
    unfold ThreadedSys.act at hstep
    dsimp only at hstep
    split at hstep
    · obtain rfl := Except.ok.inj (Option.some.inj hstep)
      exact hv
    · exact absurd hstep (by simp)
  | duplicate y i =>
    unfold ThreadedSys.act at hstep
    dsimp only at hstep
    split at hstep
    · obtain rfl := Except.ok.inj (Option.some.inj hstep)
      exact hv
    · exact absurd hstep (by simp)

end Serves

/-- **No wakeup is lost**: when each socket is closed last and one thread `t` does all the
    reading on the side `x`, then in every reachable state in which a thread of `x` sleeps on
    the condition variable, it is `t`, there is nothing to read, and the backend thread,
    which will wake it, has not left its loop. -/
theorem no_lost_wakeup (hcfg : cfg.Valid) {tr : List (ThreadedSys T × ThreadLabel T)}
    (h : Run (threadsFrom cfg.establishedThreads) ThreadedSys.NoWrap tr s)
    (hlast : ∀ p ∈ tr, p.1.ClosesLast p.2) {t : T}
    (honly : ∀ p ∈ tr, ∀ u length flags, p.2 = .readCall x u length flags → u = t) {u : T}
    (hsleeps : u ∈ (s.host x).waiters) :
    u = t ∧ recvBufferMaxRead (s.host x).sock.recvBuf = 0 ∧ (s.host x).pc ≠ .exited := by
  have hall : (∃ out inn, s.Sound cfg out inn) ∧ (s.host x).Served t := by
    refine h.invariant_of_steps
      (I := fun s => (∃ out inn, s.Sound cfg out inn) ∧ (s.host x).Served t)
      (C := fun s l => s.ClosesLast l ∧
        ∀ u length flags, l = .readCall x u length flags → u = t) ?_ ?_
      fun p hp => ⟨hlast p hp, honly p hp⟩
    · rintro s rfl hw
      exact ⟨hcfg.establishedThreads hw, by simp [Config.establishedThreads],
        by simp [Config.establishedThreads]⟩
    · rintro s l s' ⟨⟨out, inn, hs⟩, hv⟩ hw _ ⟨hl, honly⟩ hstep
      obtain ⟨s₁, hs₁, hsound⟩ := hs.step hw hl hstep
      obtain rfl := Except.ok.inj hs₁
      exact ⟨hsound, ThreadedSys.served_step hs hv hstep honly⟩
  obtain ⟨⟨out, inn, hs⟩, hv⟩ := hall
  obtain ⟨length, happ, _⟩ := (hs.tidy x).asleep u hsleeps
  refine ⟨hv.reader u length _ happ, hv.nothing (List.ne_nil_of_mem hsleeps), ?_⟩
  exact (hs.tidy x).not_exited (u := u) (by simp [happ]) (by simp [happ]) (by simp [happ])

/-- A thread of the server reads before anything has arrived, is woken by the byte that
    arrives, and reads again. -/
def wokenLabels : List (ThreadLabel Bool) :=
  [.readCall .server true 2 .noFlag, .lock .server (.app true), .app .server true,
    .writeCall .client false [7], .lock .client (.app false), .app .client false,
    .lock .client .backend, .backend .client 0 (fun _ => 0) none 0,
    .lock .client .backend, .backend .client 0 (fun _ => 0) none 0,
    .backend .client 0 (fun _ => 0) none 0,
    .lock .client .backend, .backend .client 0 (fun _ => 0) none 0,
    .lock .server .backend, .backend .server 0 (fun _ => 0) none 0,
    .lock .server .backend, .backend .server 0 (fun _ => 0) none 0,
    .receive .server 0, .lock .server .backend, .backend .server 0 (fun _ => 0) none 0,
    .lock .server (.app true), .app .server true,
    .readCall .server true 1 .noFlag, .lock .server (.app true), .app .server true]

theorem no_lost_wakeup_woken : ∃ tr s, Run (threadsFrom (smallConfig 4).establishedThreads)
    (ThreadedSys.NoWrap (T := Bool)) tr s ∧ (s.host .server).read = [(true, 7)] ∧
    true ∈ (s.host .server).waiters ∧ recvBufferMaxRead (s.host .server).sock.recvBuf = 0 := by
  have hinit : Run (threadsFrom (smallConfig 4).establishedThreads)
      (ThreadedSys.NoWrap (T := Bool)) [] (smallConfig 4).establishedThreads :=
    .init rfl (by decide)
  have hrun := hinit.exec wokenLabels rfl
  refine ⟨_, _, hrun, rfl, List.mem_singleton_self _, ?_⟩
  refine (no_lost_wakeup (smallConfig_valid (by decide)) hrun (by decide) (t := true) ?_
    (List.mem_singleton_self _)).2.1
  intro p hp u length flags hl
  have hmem := mem_of_mem_execTrace (show p ∈ execTrace _ _ _ from hp)
  rw [hl] at hmem
  simp [wokenLabels] at hmem
  exact hmem.elim And.left And.left

end CmuTcp
