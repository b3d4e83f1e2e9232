import CmuTcp.Library.FaultSystem
import CmuTcp.Connection.Acking
import CmuTcp.Connection.Delivery
import CmuTcp.Connection.Stall

/-!
# Serving a Transfer

The steps that bring the bytes of one side `x` to its peer, from wherever a connection is:
threads run, packets arrive, the `cmu_write` in progress goes on, and the application of the
peer reads.  Each lemma says that a step is possible, and what it does to the six numbers of
the transfer; the rest of the state follows from the invariant of a connection.

All of it is about sides that have passed fewer bytes than their rings have cells.  Then no
copy out of a send ring leaves the ring or starts after its wrap, so no process dies in one,
and what is sent is what was written.

1. `Label.Serves` singles out the steps that are enough, none of which asks anything of the
   application of `x`; `Sys.Open` is what they leave alone.
2. `Sys.Carries` is the state of a transfer that can go on: the invariant, and fewer bytes
   than cells.  Serving steps that are enabled keep it (`Sys.Carries.step`).
3. The steps within an iteration take a thread to the next place at which it does something:
   to `check_for_data`, to the sending part, to the next packet.
4. `Sys.At` forgets everything but where the two threads are and the numbers of the transfer.
   The lemmas at the end are its steps: send again, deliver, answer, read, write, send.
-/

namespace CmuTcp

open FaultSystem

/-! ## The steps that are enough -/

/-- Threads run, packets arrive, `x` goes on with its `cmu_write` and closes, and the
    application of its peer reads. -/
inductive Label.Serves (x : Side) : Label → Prop
  | backend (z : Side) (now : Int) (beyond : ℕ → UInt8) : Serves x (.backend z now beyond)
  | receive (z : Side) (now : Int) (i : ℕ) : Serves x (.receive z now i)
  | write : Serves x (.write x)
  | read (length : Int) (flags : CmuReadMode) : Serves x (.read x.other length flags)
  | close : Serves x (.close x)

/-- What these steps do not change, as far as it matters for them: both sockets are set up,
    the peer of `x` does not close, `x` has passed `data`, what each side has passed stays
    before the end of its ring, and no sequence number will wrap around. -/
structure Sys.Open (cfg : Config) (x : Side) (data : List UInt8) (s : Sys) : Prop where
  initialized : ∀ z, (s.ep z).sock.initialized = true
  dying : (s.ep x.other).sock.dying = false
  passed : (s.ep x).passed = data
  firstLap : ∀ z, (s.ep z).passed.length < (cfg.sendCapacity z).toNat
  room : ∀ z, (cfg.isn z).toNat + (s.ep z).passed.length + (cfg.sendCapacity z).toNat < 2 ^ 32

/-! ## Labels and events -/

/-- The label is a step of the endpoint of `z`, with this event. -/
inductive Label.Does (s : Sys) (z : Side) : Label → Event → Prop
  | backend (now : Int) (beyond : ℕ → UInt8) :
      Does s z (.backend z now beyond) (.backend now beyond)
  | receive {now : Int} {i : ℕ} {pkt : Packet} (hpkt : (s.net z)[i]? = some pkt) :
      Does s z (.receive z now i) (.receive now (s.addr z.other) pkt)
  | writeCall (data : List UInt8) : Does s z (.writeCall z data) (.writeCall data)
  | write : Does s z (.write z) .write
  | read (length : Int) (flags : CmuReadMode) : Does s z (.read z length flags) (.read length flags)
  | close : Does s z (.close z) .close

/-- Every successful step is what an endpoint in its loop does, or changes the packets in
    flight only, of which there are no others than before. -/
theorem Sys.step_does {s t : Sys} {l : Label} (hloop : ∀ z, (s.ep z).InLoop)
    (hstep : s.step l = some (.ok t)) :
    (∃ z ev e packets, ∃ u : Sys, l.Does s z ev ∧ u.ep = s.ep ∧ (s.ep z).LoopAct ev e packets ∧
      t = u.put z (e, packets) ∧ ∀ y, ∀ p ∈ u.net y, p ∈ s.net y) ∨
    t.ep = s.ep ∧ ∀ y, ∀ p ∈ t.net y, p ∈ s.net y := by
  have hsame : ∀ y, ∀ p ∈ s.net y, p ∈ s.net y := fun _ _ hp => hp
  cases l with
  | backend z now beyond =>
    obtain ⟨r, hr, hret⟩ := Option.map_eq_some_iff.mp hstep
    obtain ⟨⟨e, packets⟩, rfl, rfl⟩ := ok_of_map_ok hret
    exact Or.inl ⟨z, _, e, packets, s, .backend now beyond, rfl, (hloop z).backend hr, rfl, hsame⟩
  | receive z now i =>
    simp only [Sys.step] at hstep
    split at hstep
    · rename_i pkt hpkt
      obtain ⟨r, hr, hret⟩ := Option.map_eq_some_iff.mp hstep
      obtain ⟨⟨e, packets⟩, rfl, rfl⟩ := ok_of_map_ok hret
      exact Or.inl ⟨z, _, e, packets, s.takePacket z i, .receive hpkt, rfl, (hloop z).receive hr,
        rfl, fun _ _ => Sys.mem_net_takePacket s z i⟩
    · cases hstep
  | writeCall z data =>
    obtain ⟨e, he, hret⟩ := Option.map_eq_some_iff.mp hstep
    obtain rfl := Except.ok.inj hret
    obtain ⟨⟨_, hdying, hpending, hlen, _⟩, rfl⟩ := appWriteCall_eq_some he
    exact Or.inl ⟨z, _, _, _, s, .writeCall data, rfl, .writeCall hdying hpending hlen, rfl, hsame⟩
  | write z =>
    obtain ⟨r, hr, hret⟩ := Option.map_eq_some_iff.mp hstep
    obtain ⟨e, rfl, rfl⟩ := ok_of_map_ok hret
    obtain ⟨hpending, hpc, rest, sb, hwrite, rfl⟩ := appWrite_ok hr
    exact Or.inl ⟨z, _, _, _, s, .write, rfl, .write hpending hpc hwrite, rfl, hsame⟩
  | read z length flags =>
    obtain ⟨r, hr, hret⟩ := Option.map_eq_some_iff.mp hstep
    obtain ⟨e, rfl, rfl⟩ := ok_of_map_ok hret
    obtain ⟨count, data, rb, hread, rfl⟩ := appRead_ok hr
    exact Or.inl ⟨z, _, _, _, s, .read length flags, rfl, .read hread, rfl, hsame⟩
  | close z =>
    obtain ⟨e, he, hret⟩ := Option.map_eq_some_iff.mp hstep
    obtain rfl := Except.ok.inj hret
    obtain ⟨⟨_, _, hpending, _⟩, rfl⟩ := appClose_eq_some he
    exact Or.inl ⟨z, _, _, _, s, .close, rfl, .close hpending, rfl, hsame⟩
  | lose z i =>
    simp only [Sys.step] at hstep
    split at hstep
    · obtain rfl := Except.ok.inj (Option.some.inj hstep)
      exact Or.inr ⟨rfl, fun _ _ => Sys.mem_net_takePacket s z i⟩
    · cases hstep
  | duplicate z i =>
    simp only [Sys.step] at hstep
    split at hstep
    · rename_i pkt hpkt
      obtain rfl := Except.ok.inj (Option.some.inj hstep)
      exact Or.inr ⟨rfl, fun _ _ => Sys.mem_net_duplicate hpkt⟩
    · cases hstep

section Frames

variable {cfg : Config} {x : Side} {data : List UInt8} {s : Sys} {e e' : Endpoint}
  {packets : List Packet}

/-- `handle_message` leaves the flags of the socket alone. -/
theorem handleMessage_frame {sock sock' : CmuSocket} {p : Packet} {now : Int}
    (h : handleMessage sock p now = .ok (sock', packets)) :
    sock'.initialized = sock.initialized ∧ sock'.dying = sock.dying := by
  unfold handleMessage at h
  obtain ⟨_, _, h⟩ := ok_of_bind_ok h
  obtain ⟨_, _, h⟩ := ok_of_bind_ok h
  split at h
  · obtain ⟨rfl, _⟩ := Prod.mk.inj (Except.ok.inj h)
    exact ⟨rfl, rfl⟩
  · obtain ⟨sock₁, hack, h⟩ := ok_of_bind_ok h
    have hflags : sock₁.initialized = sock.initialized ∧ sock₁.dying = sock.dying := by
      rcases handleAck_eq_ok hack with ⟨_, rfl⟩ | ⟨sb, _, rfl⟩
      · exact ⟨rfl, rfl⟩
      · exact ⟨rfl, rfl⟩
    dsimp only at h
    split at h
    · obtain ⟨rb, _, h⟩ := ok_of_bind_ok h
      obtain ⟨rfl, _⟩ := Prod.mk.inj (Except.ok.inj h)
      exact hflags
    · obtain ⟨rfl, _⟩ := Prod.mk.inj (Except.ok.inj h)
      exact hflags

/-- Only `cmu_close` sets `dying`, and only a new `cmu_write` passes data. -/
theorem Endpoint.LoopAct.frame {ev : Event} (h : e.LoopAct ev e' packets) :
    e'.sock.initialized = e.sock.initialized ∧
      (ev ≠ .close → e'.sock.dying = e.sock.dying) ∧
      ((∀ data, ev ≠ .writeCall data) → e'.passed = e.passed) := by
  cases h with
  | advance _ _ _ _ _ => exact ⟨rfl, fun _ => rfl, fun _ => rfl⟩
  | transmit _ _ => exact ⟨rfl, fun _ => rfl, fun _ => rfl⟩
  | receive _ hmsg =>
    obtain ⟨hinit, hdying⟩ := handleMessage_frame hmsg
    exact ⟨hinit, fun _ => hdying, fun _ => rfl⟩
  | writeCall _ _ _ => exact ⟨rfl, fun _ => rfl, fun hnot => absurd rfl (hnot _)⟩
  | write _ _ _ => exact ⟨rfl, fun _ => rfl, fun _ => rfl⟩
  | read _ => exact ⟨rfl, fun _ => rfl, fun _ => rfl⟩
  | close _ => exact ⟨rfl, fun hnot => absurd rfl hnot, fun _ => rfl⟩

theorem Sys.Open.put (h : s.Open cfg x data) {t : Sys} {z : Side} {ev : Event} (hep : t.ep = s.ep)
    (hact : (s.ep z).LoopAct ev e packets) (hclose : ev = .close → z = x)
    (hcall : ∀ data, ev ≠ .writeCall data) : (t.put z (e, packets)).Open cfg x data := by
  obtain ⟨hinit, hdying, hpassed⟩ := hact.frame
  have hz : ((t.put z (e, packets)).ep z) = e := Sys.ep_put_self ..
  have hother : ((t.put z (e, packets)).ep z.other) = s.ep z.other := by
    rw [Sys.ep_put_other, hep]
  constructor
  -- the two flags come from the endpoint that has moved, and that of `z.other` is as before
  case initialized =>
    refine Side.forall_of z ?_ ?_
    · rw [hz, hinit]
      exact h.initialized z
    · rw [hother]
      exact h.initialized z.other
  case dying =>
    by_cases heq : z = x
    · rw [← heq, hother, heq]
      exact h.dying
    · obtain rfl := Side.eq_other heq
      rw [hz, hdying fun hev => heq (hclose hev)]
      exact h.dying
  -- nobody has passed anything
  case passed =>
    have hall : ∀ y, ((t.put z (e, packets)).ep y).passed = (s.ep y).passed := by
      refine Side.forall_of z ?_ ?_
      · rw [hz, hpassed hcall]
      · rw [hother]
    rw [hall]
    exact h.passed
  case firstLap =>
    refine Side.forall_of z ?_ ?_
    · rw [hz, hpassed hcall]
      exact h.firstLap z
    · rw [hother]
      exact h.firstLap z.other
  case room =>
    refine Side.forall_of z ?_ ?_
    · rw [hz, hpassed hcall]
      exact h.room z
    · rw [hother]
      exact h.room z.other

theorem Sys.Open.step (h : s.Open cfg x data) (hloop : ∀ z, (s.ep z).InLoop) {t : Sys} {l : Label}
    (hl : l.Serves x) (hstep : s.step l = some (.ok t)) : t.Open cfg x data := by
  rcases Sys.step_does hloop hstep with
    ⟨z, ev, e, packets, u, hdoes, hep, hact, rfl, _⟩ | ⟨hep, _⟩
  · apply h.put hep hact
    · rintro rfl
      cases hdoes
      cases hl
      rfl
    · rintro data rfl
      cases hdoes
      cases hl
  · exact ⟨by rw [hep]; exact h.initialized, by rw [hep]; exact h.dying,
      by rw [hep]; exact h.passed, by rw [hep]; exact h.firstLap, by rw [hep]; exact h.room⟩

end Frames

/-! ## The transfer -/

/-- How far the bytes of one side have got, and the window that the side knows. -/
@[ext] structure Transfer where
  acked : ℕ
  sent : ℕ
  written : ℕ
  next : ℕ
  read : ℕ
  window : ℕ

def Sys.transfer (s : Sys) (x : Side) (out : Side → SendStream UInt8) (inn : Side → Reassembly) :
    Transfer where
  acked := (out x).acked
  sent := (out x).sent
  written := (out x).written.length
  next := (inn x.other).next
  read := (inn x.other).read
  window := (s.ep x).sock.window.rcvdAdvertisedWindow.toNat

/-- The bytes of `x` can go on. -/
structure Sys.Carries (cfg : Config) (x : Side) (data : List UInt8) (s : Sys)
    (out : Side → SendStream UInt8) (inn : Side → Reassembly) : Prop where
  invariant : s.Invariant cfg out inn
  isOpen : s.Open cfg x data
  delivers : ∀ z, s.Delivers z

/-- Serving steps, through states in which no sequence number has wrapped around. -/
abbrev Sys.Reaches (cfg : Config) (x : Side) : Sys → Sys → Prop :=
  (systemFrom cfg.established).Reaches Sys.NoWrap (Label.Serves x)

section Steps

variable {cfg : Config} {x : Side} {data : List UInt8} {s : Sys}
  {out : Side → SendStream UInt8} {inn : Side → Reassembly}

theorem Sys.Carries.noWrap (h : s.Carries cfg x data out inn) : s.NoWrap := by
  have hside : ∀ z, (s.ep z).sock.sendBuf.NoWrap := by
    intro z
    have hep := h.invariant.endpoint z
    have hacked := hep.sock.sendBuf.acked
    have hcap := hep.sock.sendBuf.capacity
    have hsend := h.invariant.sendCapacity z
    have hle := (out z).acked_le_written
    have hroom := h.isOpen.room z
    have hpassed := congrArg List.length hep.passed
    rw [List.length_append] at hpassed
    unfold SendBuffer.NoWrap
    omega
  exact ⟨hside .client, hside .server⟩

/-- What is written and what is left to write are the bytes that were passed. -/
theorem Sys.Carries.length (h : s.Carries cfg x data out inn) :
    (out x).written.length + (s.ep x).pending.length = data.length := by
  have hpassed := congrArg List.length (h.invariant.endpoint x).passed
  rw [h.isOpen.passed, List.length_append] at hpassed
  exact hpassed.symm

theorem Sys.Carries.inLoop (h : s.Carries cfg x data out inn) (z : Side) : (s.ep z).InLoop :=
  ⟨(h.invariant.endpoint z).notEntry, (h.invariant.endpoint z).notHandshake⟩

/-- What is written lies before the end of the ring. -/
theorem Sys.Carries.written_lt (h : s.Carries cfg x data out inn) (z : Side) :
    (out z).written.length < (cfg.sendCapacity z).toNat := by
  refine lt_of_le_of_lt ?_ (h.isOpen.firstLap z)
  rw [(h.invariant.endpoint z).passed, List.length_append]
  exact Nat.le_add_right _ _

/-- No process has died. -/
theorem Sys.Carries.lives (h : s.Carries cfg x data out inn) (z : Side) :
    (s.ep z).pc ≠ .crashed := by
  intro hpc
  have hstrayed := (h.invariant.endpoint z).crashed hpc
  rw [(h.delivers z).inBounds] at hstrayed
  exact absurd hstrayed (by decide)

/-- A serving step that is enabled. -/
theorem Sys.Carries.step (h : s.Carries cfg x data out inn) {l : Label} (hl : l.Serves x)
    {r : Except Fault Sys} (hstep : s.step l = some r) :
    ∃ t out' inn', r = .ok t ∧ Sys.Moves cfg s out inn l t out' inn' ∧
      t.Carries cfg x data out' inn' ∧ Sys.Reaches cfg x s t := by
  obtain ⟨t, out', inn', rfl, hm⟩ := h.invariant.step h.noWrap hstep
  have ht : t.Carries cfg x data out' inn' :=
    ⟨hm.invariant h.invariant, h.isOpen.step h.inLoop hl hstep,
      (hm.delivers_iff h.invariant h.delivers).mpr (h.invariant.endsBeforeRing h.written_lt l)⟩
  exact ⟨t, out', inn', rfl, hm, ht, .single hl hstep ht.noWrap⟩

/-! ## Within an iteration -/

/-- The backend thread of `z` is elsewhere. -/
def Sys.setPc (s : Sys) (z : Side) (pc : BackendPc) : Sys :=
  { s with ep := Function.update s.ep z { s.ep z with pc := pc } }

@[simp] theorem Sys.ep_setPc_self (z : Side) (pc : BackendPc) :
    (s.setPc z pc).ep z = { s.ep z with pc := pc } :=
  Function.update_self ..

@[simp] theorem Sys.ep_setPc_other (z : Side) (pc : BackendPc) :
    (s.setPc z pc).ep z.other = s.ep z.other :=
  Function.update_of_ne (Side.other_ne z) ..

theorem Sys.setPc_other (pc : BackendPc) : (s.setPc x.other pc).ep x = s.ep x := by
  have hep := Sys.ep_setPc_other (s := s) x.other pc
  rwa [Side.other_other] at hep

@[simp] theorem Sys.setPc_setPc (z : Side) (pc pc' : BackendPc) :
    (s.setPc z pc).setPc z pc' = s.setPc z pc' := by
  simp only [Sys.setPc, Function.update_self, Function.update_idem]

theorem Sys.setPc_of_eq {z : Side} {pc : BackendPc} (h : (s.ep z).pc = pc) : s.setPc z pc = s := by
  subst h
  simp only [Sys.setPc, Function.update_eq_self]

theorem Sys.put_setPc (z : Side) (pc : BackendPc) :
    s.put z ({ s.ep z with pc := pc }, []) = s.setPc z pc := by
  simp only [Sys.put, Sys.setPc, List.append_nil, Function.update_eq_self]

@[simp] theorem Sys.transfer_setPc (z : Side) (pc : BackendPc) :
    (s.setPc z pc).transfer x out inn = s.transfer x out inn := by
  have hsock : ∀ y, ((s.setPc z pc).ep y).sock = (s.ep y).sock := by
    refine Side.forall_of z ?_ ?_
    · rw [Sys.ep_setPc_self]
    · rw [Sys.ep_setPc_other]
  simp only [Sys.transfer, hsock]

/-- A step of a backend thread that looks at no packet and sends none. -/
theorem Sys.Carries.advance (h : s.Carries cfg x data out inn) (z : Side) (pc : BackendPc)
    (hstep : backendSilent (s.ep z) 0 (fun _ => 0) = some (.ok ({ s.ep z with pc := pc }, [])))
    (hpc : (s.ep z).pc ≠ .transmit) :
    (s.setPc z pc).Carries cfg x data out inn ∧ Sys.Reaches cfg x s (s.setPc z pc) := by
  obtain ⟨t, out', inn', ht, hm, hcar, hreach⟩ := h.step (.backend z 0 _) (Sys.step_backend hstep)
  have hsame : out' = out ∧ inn' = inn := by
    cases hm with
    | idle _ _ _ => exact ⟨Function.update_eq_self .., Function.update_eq_self ..⟩
    | transmit hpc' _ _ _ _ _ _ => exact absurd hpc' hpc
  obtain ⟨rfl, rfl⟩ := hsame
  rw [← Except.ok.inj ht, Sys.put_setPc] at hcar hreach
  exact ⟨hcar, hreach⟩

/-- The thread does not find the exit test true. -/
def Endpoint.Stays (e : Endpoint) : Prop :=
  ∀ death, e.pc = .exitTest death ∨ death = e.sock.dying → exitTest e.sock death = false

/-- What is unacknowledged keeps a thread in its loop. -/
theorem Sys.Carries.stays_of_lt (h : s.Carries cfg x data out inn) {z : Side}
    (hlt : (out z).acked < (out z).written.length) : (s.ep z).Stays := by
  rintro death -
  rw [Bool.eq_false_iff]
  intro hexit
  have hall := ((exitTest_iff (h.invariant.endpoint z).sock (h.noWrap.sendBuf z) death).mp hexit).2
  omega

/-- So does an open socket. -/
theorem Sys.Carries.stays_of_open (h : s.Carries cfg x data out inn) {z : Side}
    (hopen : (s.ep z).sock.dying = false) : (s.ep z).Stays := by
  rintro death hdeath
  have hfalse : death = false := by
    rcases hdeath with hpc | rfl
    · cases death with
      | false => rfl
      | true => exact absurd ((h.invariant.endpoint _).leaving (Or.inl hpc)) (by simp [hopen])
    · exact hopen
  rw [hfalse, exitTest, Bool.false_and]

/-- A thread that stays gets to `check_for_data`. -/
theorem Sys.Carries.look (h : s.Carries cfg x data out inn) {z : Side} (hstay : (s.ep z).Stays)
    (hpc : (s.ep z).pc ≠ .transmit) (hleft : (s.ep z).pc ≠ .exited) :
    (s.setPc z .checkData).Carries cfg x data out inn ∧
      Sys.Reaches cfg x s (s.setPc z .checkData) := by
  -- from the exit test on, with whichever `death` was read
  have htest : ∀ {t : Sys} {death : Bool}, t.Carries cfg x data out inn → t.ep z = (s.setPc z
      (.exitTest death)).ep z → exitTest (s.ep z).sock death = false →
      (t.setPc z .checkData).Carries cfg x data out inn ∧
        Sys.Reaches cfg x t (t.setPc z .checkData) := by
    intro t death ht hep hexit
    rw [Sys.ep_setPc_self] at hep
    refine ht.advance z _ ?_ (by simp [hep])
    simp [backendSilent, hep, hexit]
  -- the thread is behind its handshake
  cases hcase : (s.ep z).pc with
  | entry => exact absurd hcase (h.inLoop z).notEntry
  | handshake packet => exact absurd hcase ((h.inLoop z).notHandshake packet)
  -- from the top of the loop it reads `dying` first
  | loopTop =>
    obtain ⟨hcar, hreach⟩ := h.advance z (.exitTest (s.ep z).sock.dying)
      (by simp [backendSilent, hcase]) hpc
    obtain ⟨hcar', hreach'⟩ := htest hcar rfl (hstay _ (Or.inr rfl))
    rw [Sys.setPc_setPc] at hcar' hreach'
    exact ⟨hcar', hreach.trans hreach'⟩
  | exitTest death =>
    refine htest h ?_ (hstay death (Or.inl hcase))
    rw [Sys.setPc_of_eq hcase]
  | checkData =>
    rw [Sys.setPc_of_eq hcase]
    exact ⟨h, .refl s⟩
  | transmit => exact absurd hcase hpc
  | exited => exact absurd hcase hleft
  | crashed => exact absurd hcase (h.lives z)

/-- Without a packet it gets to the sending part. -/
theorem Sys.Carries.sending (h : s.Carries cfg x data out inn) {z : Side}
    (hstay : (s.ep z).Stays) (hleft : (s.ep z).pc ≠ .exited) :
    (s.setPc z .transmit).Carries cfg x data out inn ∧
      Sys.Reaches cfg x s (s.setPc z .transmit) := by
  by_cases hpc : (s.ep z).pc = .transmit
  · rw [Sys.setPc_of_eq hpc]
    exact ⟨h, .refl s⟩
  · obtain ⟨hcar, hreach⟩ := h.look hstay hpc hleft
    obtain ⟨hcar', hreach'⟩ := hcar.advance z .transmit
      (by simp [backendSilent, checkForData, pure, Except.pure]) (by simp)
    rw [Sys.setPc_setPc] at hcar' hreach'
    exact ⟨hcar', hreach.trans hreach'⟩

/-- The sending part of an iteration, which the process survives. -/
theorem Sys.Carries.sent (h : s.Carries cfg x data out inn) (z : Side) (now : Int)
    (beyond : ℕ → UInt8) :
    ∃ sent, CmuTcp.transmit (s.ep z).sock now beyond = .ok sent ∧
      sent.Transmits (s.ep z).sock (cfg.isn z).toNat (out z) now (freshCount (s.ep z).sock now) ∧
      sent.pc = .loopTop := by
  have hsendBuf := (h.invariant.endpoint z).sock.sendBuf
  obtain ⟨sent, n, hsent, htransmits⟩ :=
    transmit_spec hsendBuf (h.noWrap.sendBuf z) now beyond
  have hcap := h.invariant.sendCapacity z
  have hwritten := h.written_lt z
  have hle := (out z).sent_le_written
  have hfresh := (freshSendLen_le hsendBuf).1
  have hcount : freshCount (s.ep z).sock now ≤ (freshSendLen (s.ep z).sock).toNat := by
    unfold freshCount
    split
    · exact Nat.zero_le _
    · exact le_refl _
  -- everything that is sent lies before the end of the ring
  have hin := (htransmits.lap (by omega)).mpr (by omega)
  have hnone := htransmits.fault hin
  obtain rfl := htransmits.all hnone
  exact ⟨sent, hsent, htransmits, if_pos hnone⟩

/-- The sending part of an iteration of `z`. -/
theorem Sys.Carries.transmit (h : s.Carries cfg x data out inn) {z : Side}
    (hpc : (s.ep z).pc = .transmit) (now : Int) (beyond : ℕ → UInt8) {sent : Sent}
    (hsent : CmuTcp.transmit (s.ep z).sock now beyond = .ok sent) :
    ∃ t out', t.Carries cfg x data out' inn ∧ Sys.Reaches cfg x s t ∧
      (t.ep z).pc = .loopTop ∧ (t.ep z).sock.window = (s.ep z).sock.window ∧
      t.ep z.other = s.ep z.other ∧ t.net z = s.net z ∧
      t.net z.other = s.net z.other ++ sent.packets ∧
      ∃ ht, out' = Function.update out z ((out z).dump (freshCount (s.ep z).sock now) ht) := by
  obtain ⟨sent', hsent', _, hlives⟩ := h.sent z now beyond
  obtain rfl := Except.ok.inj (hsent.symm.trans hsent')
  -- a process that does not die comes to the end of the sending part
  have hstep : backendSilent (s.ep z) now beyond = some (.ok ({ s.ep z with
      sock := { (s.ep z).sock with sendBuf := sent.sendBuf }
      pc := .loopTop
      strayed := (s.ep z).strayed || !sent.inBounds }, sent.packets)) := by
    simp only [backendSilent, hpc, transmitStep, hsent, bind, Except.bind, pure, Except.pure,
      hlives]
  -- the step is one of the moves of a connection
  obtain ⟨t, out', inn', ht, hm, hcar, hreach⟩ :=
    h.step (.backend z now beyond) (Sys.step_backend hstep)
  have hmove : inn' = inn ∧ ∃ ht, out' =
      Function.update out z ((out z).dump (freshCount (s.ep z).sock now) ht) := by
    -- it is not the one that ends in a crash, so all fresh bytes have gone out
    have htop : (t.ep z).pc ≠ .crashed := hcar.lives z
    cases hm with
    | idle hl _ _ => exact absurd hpc hl
    | transmit _ _ hall _ _ _ _ =>
      rw [Sys.ep_put_self] at htop
      obtain rfl := hall htop
      exact ⟨Function.update_eq_self .., _, rfl⟩
  obtain ⟨rfl, hout⟩ := hmove
  obtain rfl := Except.ok.inj ht
  refine ⟨_, out', hcar, hreach, ?_, ?_, Sys.ep_put_other .., Sys.net_put_self ..,
    Sys.net_put_other .., hout⟩
  · rw [Sys.ep_put_self]
  · rw [Sys.ep_put_self]

/-- The backend thread of `z` receives a packet in flight to it. -/
theorem Sys.Carries.receive (h : s.Carries cfg x data out inn) {z : Side}
    (hpc : (s.ep z).pc = .checkData) {p : Packet} (hp : p ∈ s.net z) :
    ∃ t out' inn' replies a, ∃ ha : a ≤ (out z).sent, t.Carries cfg x data out' inn' ∧
      Sys.Reaches cfg x s t ∧ (t.ep z).pc = .transmit ∧ t.ep z.other = s.ep z.other ∧
      t.net z.other = s.net z.other ++ replies ∧ Replies p (t.ep z).sock replies ∧
      p.header.ackNum.toNat = (cfg.isn z).toNat + a + 1 ∧
      out' = Function.update out z ((out z).ack a ha) ∧
      TakesData p (cfg.isn z.other).toNat (s.ep z).sock.recvBuf (inn z) (t.ep z).sock.recvBuf
        (inn' z) ∧ inn' z.other = inn z.other ∧
      (t.ep z).sock.window.rcvdAdvertisedWindow = p.header.advertisedWindow := by
  -- the packet is one of those in flight
  obtain ⟨i, hi⟩ := List.getElem?_of_mem hp
  have hstep : s.step (.receive z 0 i) =
      some ((checkForData { s.ep z with sock := (s.ep z).sock.heardFrom (s.addr z.other) }
        (some p) 0).map ((s.takePacket z i).put z)) := by
    simp only [Sys.step, hi, backendReceive, hpc, Option.map_some]
  obtain ⟨t, out', inn', ht, hm, hcar, hreach⟩ := h.step (.receive z 0 i) hstep
  -- `handle_message` is followed by the sending part
  have htransmit : (t.ep z).pc = .transmit := by
    obtain ⟨⟨e, replies⟩, hcheck, rfl⟩ := ok_of_map_ok ht
    obtain ⟨⟨sock, sent⟩, _, hret⟩ := ok_of_bind_ok hcheck
    obtain ⟨rfl, rfl⟩ := Prod.mk.inj (Except.ok.inj hret)
    rw [Sys.ep_put_self]
  -- the move says what became of the ack and of the data
  cases hm with
  | idle hl _ _ => exact hl.elim
  | @receive _ _ _ p' e replies a ha r hp' hc hack htakes hreplies hwindow _ =>
    obtain rfl := Option.some.inj (hp'.symm.trans hi)
    refine ⟨_, _, _, replies, a, ha, hcar, hreach, htransmit, Sys.ep_put_other .., ?_, ?_, hack,
      rfl, ?_, Function.update_of_ne (Side.other_ne z) .., ?_⟩
    · simp only [Sys.net_put_other, Sys.takePacket, Function.update_of_ne (Side.other_ne z)]
    · rw [Sys.ep_put_self]
      exact hreplies
    · rw [Sys.ep_put_self, Function.update_self]
      exact htakes
    · rw [Sys.ep_put_self]
      exact hwindow

/-- A thread that stays gets to `check_for_data` from wherever it is. -/
theorem Sys.Carries.ready (h : s.Carries cfg x data out inn) {z : Side}
    (hstay : ∀ {t : Sys} {out' : Side → SendStream UInt8}, t.Carries cfg x data out' inn →
      (out' z).acked = (out z).acked → (t.ep z).Stays ∧ (t.ep z).pc ≠ .exited) :
    ∃ t out', t.Carries cfg x data out' inn ∧ Sys.Reaches cfg x s t ∧
      (t.ep z).pc = .checkData ∧ (t.ep z).sock.window = (s.ep z).sock.window ∧
      (out' z).acked = (out z).acked ∧ (out z).sent ≤ (out' z).sent ∧
      t.ep z.other = s.ep z.other ∧ out' z.other = out z.other ∧ t.net z = s.net z ∧
      ∀ p ∈ s.net z.other, p ∈ t.net z.other := by
  obtain ⟨hloop, hleft⟩ := hstay h rfl
  -- a thread in the sending part goes round the loop once
  by_cases hpc : (s.ep z).pc = .transmit
  · obtain ⟨sent, hsent, _⟩ := h.sent z 0 fun _ => 0
    obtain ⟨t, out', hcar, hreach, htop, hwindow, hep, hnet, hnet', _, rfl⟩ :=
      h.transmit hpc _ _ hsent
    obtain ⟨hloop', _⟩ := hstay hcar (by rw [Function.update_self]; rfl)
    obtain ⟨hcar', hreach'⟩ := hcar.look hloop' (by simp [htop]) (by simp [htop])
    refine ⟨_, _, hcar', hreach.trans hreach', by simp, by simpa using hwindow,
      by rw [Function.update_self]; rfl, ?_, by simpa using hep,
      Function.update_of_ne (Side.other_ne z) .., hnet, fun p hp => ?_⟩
    · rw [Function.update_self]
      exact Nat.le_add_right _ _
    · show p ∈ t.net z.other
      rw [hnet']
      exact List.mem_append_left _ hp
  -- from anywhere else it gets there directly
  · obtain ⟨hcar, hreach⟩ := h.look hloop hpc hleft
    exact ⟨_, out, hcar, hreach, by simp, by simp, rfl, le_refl _, by simp, rfl, rfl,
      fun p hp => hp⟩

/-- That of the peer does, because its socket is open. -/
theorem Sys.Carries.peer_stays (h : s.Carries cfg x data out inn) :
    (s.ep x.other).Stays ∧ (s.ep x.other).pc ≠ .exited := by
  refine ⟨h.stays_of_open h.isOpen.dying, fun hexited => ?_⟩
  have hdying := (h.invariant.endpoint x.other).leaving (Or.inr hexited)
  rw [h.isOpen.dying] at hdying
  exact absurd hdying (by decide)

/-- That of `x` does while something that was passed is not acknowledged. -/
theorem Sys.Carries.stays_of_rest (h : s.Carries cfg x data out inn)
    (hrest : (out x).acked < data.length) : (s.ep x).Stays ∧ (s.ep x).pc ≠ .exited := by
  have hep := h.invariant.endpoint x
  have hlength := h.length
  constructor
  · cases hdying : (s.ep x).sock.dying with
    | false => exact h.stays_of_open hdying
    | true =>
      rw [hep.dying hdying, List.length_nil] at hlength
      exact h.stays_of_lt (by omega)
  · intro hexited
    have hacked := hep.exited hexited
    rw [hep.dying (hep.leaving (Or.inr hexited)), List.length_nil] at hlength
    omega

/-- The process of a thread that has not left is running. -/
theorem Sys.Carries.ended_eq_false (h : s.Carries cfg x data out inn) {z : Side}
    (hleft : (s.ep z).pc ≠ .exited) : (s.ep z).pc.ended = false := by
  have hlives := h.lives z
  cases hpc : (s.ep z).pc with
  | exited => exact absurd hpc hleft
  | crashed => exact absurd hpc hlives
  | _ => rfl

/-- A call of `cmu_read` for as many bytes as there are empties the buffer. -/
theorem cmuRead_all {sock : CmuSocket} {peerIsn : ℕ} {r : Reassembly}
    (h : sock.recvBuf.Refines peerIsn r) :
    ∃ count bytes rb, cmuRead sock (recvBufferMaxRead sock.recvBuf).toNat .noWait =
      .ok (count, bytes, { sock with recvBuf := rb }) ∧ recvBufferMaxRead rb = 0 := by
  have hmax := h.recvBufferMaxRead
  have hlt := r.read_lt_next
  have hlength : ((recvBufferMaxRead sock.recvBuf).toNat : ℤ).toNat.toUInt32 =
      recvBufferMaxRead sock.recvBuf := by
    rw [Int.toNat_natCast]
    exact UInt32.ofNat_toNat
  unfold cmuRead
  rw [if_neg (Int.not_lt.mpr (Int.natCast_nonneg _))]
  simp only [cmuReadAvailable, hlength]
  by_cases hpos : recvBufferMaxRead sock.recvBuf > 0
  · obtain ⟨rb, hread, href, _⟩ := h.recvBufferRead
      (show r.read + (recvBufferMaxRead sock.recvBuf).toNat < r.next by omega)
    rw [if_pos hpos, ite_self]
    refine ⟨_, _, rb, by simp only [hread, bind, Except.bind, pure, Except.pure]; rfl, ?_⟩
    apply UInt32.toNat_inj.mp
    rw [href.recvBufferMaxRead, UInt32.toNat_zero]
    show r.next - (r.read + (recvBufferMaxRead sock.recvBuf).toNat) - 1 = 0
    omega
  · rw [if_neg hpos]
    exact ⟨0, [], sock.recvBuf, rfl, UInt32.le_zero_iff.mp (UInt32.not_lt.mp hpos)⟩

/-- The application of the peer reads everything. -/
theorem Sys.Carries.read (h : s.Carries cfg x data out inn)
    (hleft : (s.ep x.other).pc ≠ .exited) :
    ∃ t inn' rb bytes, t.Carries cfg x data out inn' ∧ Sys.Reaches cfg x s t ∧
      t.ep x.other = { s.ep x.other with
        sock := { (s.ep x.other).sock with recvBuf := rb }
        delivered := (s.ep x.other).delivered ++ bytes } ∧
      t.ep x = s.ep x ∧ t.net x = s.net x ∧ (inn' x.other).next = (inn x.other).next ∧
      recvBufferMaxRead rb = 0 := by
  -- it asks for as many bytes as there are
  obtain ⟨count, bytes, rb, hread, hempty⟩ :=
    cmuRead_all (h.invariant.endpoint x.other).sock.recvBuf
  have happ : appRead (s.ep x.other) (recvBufferMaxRead (s.ep x.other).sock.recvBuf).toNat
      .noWait = some (.ok { s.ep x.other with
        sock := { (s.ep x.other).sock with recvBuf := rb }
        delivered := (s.ep x.other).delivered ++ bytes }) := by
    have hinit := h.isOpen.initialized x.other
    unfold appRead
    rw [if_neg (by simp [hinit, h.ended_eq_false hleft]), hread]
    rfl
  have hstep : s.step (.read x.other (recvBufferMaxRead (s.ep x.other).sock.recvBuf).toNat
      .noWait) = some (.ok (s.put x.other ({ s.ep x.other with
        sock := { (s.ep x.other).sock with recvBuf := rb }
        delivered := (s.ep x.other).delivered ++ bytes }, []))) := by
    simp only [Sys.step, happ, Option.map_some]
    rfl
  -- a read is a move that takes them from the reassembly
  obtain ⟨t, out', inn', ht, hm, hcar, hreach⟩ := h.step (.read _ _) hstep
  have hmove : out' = out ∧ (inn' x.other).next = (inn x.other).next := by
    cases hm with
    | idle hl _ _ => exact hl.elim
    | read _ _ _ => exact ⟨Function.update_eq_self .., by rw [Function.update_self]; rfl⟩
  obtain ⟨rfl, hnext⟩ := hmove
  obtain rfl := Except.ok.inj ht
  refine ⟨_, inn', rb, bytes, hcar, hreach, Sys.ep_put_self .., (s.put_other x _).1, ?_, hnext,
    hempty⟩
  rw [(s.put_other x _).2, List.append_nil]

end Steps

/-! ## What each of them does to the transfer -/

/-- The threads of `x` and of its peer are at `p` and `q`, and the transfer is at `c`. -/
def Sys.At (cfg : Config) (x : Side) (data : List UInt8) (s : Sys) (p q : BackendPc)
    (c : Transfer) : Prop :=
  ∃ out inn, s.Carries cfg x data out inn ∧ (s.ep x).pc = p ∧ (s.ep x.other).pc = q ∧
    s.transfer x out inn = c

section Transfers

variable {cfg : Config} {x : Side} {data : List UInt8} {s : Sys} {p q : BackendPc} {c : Transfer}

/-- The numbers are in order. -/
theorem Sys.At.bounds (h : s.At cfg x data p q c) :
    c.acked ≤ c.sent ∧ c.sent ≤ c.written ∧ c.written ≤ data.length ∧ c.acked < c.next ∧
      c.next ≤ c.sent + 1 ∧ c.read < c.next ∧
      c.next ≤ c.read + (cfg.recvCapacity x.other).toNat := by
  obtain ⟨out, inn, hcar, _, _, rfl⟩ := h
  have hinv := hcar.invariant
  have hlength := hcar.length
  have hnext := (inn x.other).next_le
  rw [hinv.recvCapacity x.other] at hnext
  refine ⟨(out x).acked_le_sent, (out x).sent_le_written, ?_, hinv.acked_lt x, (hinv.within x).next,
    (inn x.other).read_lt_next, hnext⟩
  show (out x).written.length ≤ data.length
  omega

/-- The thread of the peer goes on to the next packet. -/
theorem Sys.At.peerReady (h : s.At cfg x data p q c) :
    ∃ t, Sys.Reaches cfg x s t ∧ t.At cfg x data p .checkData c ∧ ∀ a ∈ s.net x, a ∈ t.net x := by
  obtain ⟨out, inn, hcar, hp, _, rfl⟩ := h
  obtain ⟨t, out', hcar', hreach, hready, _, _, _, hep, hout, _, hnet⟩ :=
    hcar.ready (z := x.other) fun ht _ => ht.peer_stays
  rw [Side.other_other] at hep hout hnet
  refine ⟨t, hreach, ⟨out', inn, hcar', by rw [hep, hp], hready, ?_⟩, hnet⟩
  simp only [Sys.transfer, hout, hep]

/-- The thread of `x` gets to the sending part without a packet. -/
theorem Sys.At.skip (h : s.At cfg x data .checkData q c) :
    ∃ t, Sys.Reaches cfg x s t ∧ t.At cfg x data .transmit q c := by
  obtain ⟨out, inn, hcar, hp, hq, rfl⟩ := h
  obtain ⟨hcar', hreach⟩ := hcar.advance x .transmit
    (by simp [backendSilent, hp, checkForData, pure, Except.pure]) (by simp [hp])
  exact ⟨_, hreach, out, inn, hcar', by simp, by simp [hq], by simp⟩

/-- On a timeout `x` sends again from the first unacknowledged byte on, and goes on to the
    next packet. -/
theorem Sys.At.resend (h : s.At cfg x data .transmit q c) (hlt : c.acked < c.sent) :
    ∃ t pkt, Sys.Reaches cfg x s t ∧ t.At cfg x data .checkData q c ∧ pkt ∈ t.net x.other ∧
      pkt.Carries (cfg.isn x).toNat (c.acked + 1)
        (max 1 (min (min (c.sent - c.acked) c.window) 1375)) := by
  obtain ⟨out, inn, hcar, hp, hq, rfl⟩ := h
  have hsock := (hcar.invariant.endpoint x).sock
  have hw := hcar.noWrap.sendBuf x
  have hlen := resendLen_toNat hsock.sendBuf
  obtain ⟨sent, hresend, _, _, _, _, first, rest, hpackets, hcarries⟩ :=
    resendUnacknowledged_spec hsock.sendBuf (hsock.sendBuf.indicesFit hw)
      (hsock.sendBuf.sent_lt hw) (fun _ => 0) hlt
  have hunacked : getUnacknowledgedCount (s.ep x).sock.sendBuf > 0 := by
    rw [gt_iff_lt, UInt32.lt_iff_toNat_lt, hsock.sendBuf.getUnacknowledgedCount,
      UInt32.toNat_zero]
    exact Nat.sub_pos_of_lt hlt
  have hdue : resendDue (s.ep x).sock
      (defaultTimeout + 1 + (s.ep x).sock.sendBuf.lastByteAckedTs) = true := by
    rw [resendDue, Bool.and_eq_true_iff, decide_eq_true_eq, decide_eq_true_eq]
    exact ⟨by omega, hunacked⟩
  obtain ⟨t, out', hcar', hreach, hloop, hwindow, hep, hnet, hnet', _, hout⟩ :=
    hcar.transmit hp (defaultTimeout + 1 + (s.ep x).sock.sendBuf.lastByteAckedTs) (fun _ => 0)
      (by rw [CmuTcp.transmit, if_pos hdue]; exact hresend)
  -- nothing fresh is sent
  have hsame : out' = out := by
    have hzero : freshCount (s.ep x).sock
        (defaultTimeout + 1 + (s.ep x).sock.sendBuf.lastByteAckedTs) = 0 := if_pos hdue
    simp only [hout, hzero, SendStream.dump_zero, Function.update_eq_self]
  rw [hsame] at hcar'
  have hle := (out x).sent_le_written
  obtain ⟨hcar'', hreach'⟩ := hcar'.look (hcar'.stays_of_lt (show (out x).acked <
    (out x).written.length from lt_of_lt_of_le hlt hle)) (by simp [hloop]) (by simp [hloop])
  refine ⟨_, first, hreach.trans hreach', ⟨out, inn, hcar'', by simp, by simp [hep, hq], ?_⟩,
    ?_, ?_⟩
  · rw [Sys.transfer_setPc]
    simp only [Sys.transfer, hwindow]
  · show first ∈ t.net x.other
    rw [hnet', hpackets]
    exact List.mem_append_right _ (List.mem_cons_self ..)
  · rw [hlen] at hcarries
    exact hcarries

/-- Data that is not acceptable changes nothing. -/
theorem TakesData.eq_of_not_accepts {peerIsn k n : ℕ} {pkt : Packet} {rb rb' : RecvBuffer}
    {r r' : Reassembly} (h : TakesData pkt peerIsn rb r rb' r') (hcar : pkt.Carries peerIsn k n)
    (hnot : ¬ r.Accepts k (k + n - 1)) : r' = r := by
  cases h with
  | @accept rb' k' n' hcar' hacc _ _ =>
    obtain rfl : n' = n := hcar'.len.symm.trans hcar.len
    obtain rfl : k' = k := Nat.add_left_cancel (hcar'.seq.symm.trans hcar.seq)
    exact absurd hacc hnot
  | refuse _ _ => rfl

/-- The peer receives data: it takes what it expects next if it fits, and nothing that it has
    or that is too long, and it says what it has and what it has room for. -/
theorem Sys.At.deliver (h : s.At cfg x data p .checkData c)
    (hcap : (cfg.recvCapacity x.other).toNat ≤ 65535) {pkt : Packet} {k n : ℕ}
    (hpkt : pkt ∈ s.net x.other) (hcarries : pkt.Carries (cfg.isn x).toNat k n) :
    ∃ t m q, Sys.Reaches cfg x s t ∧ t.At cfg x data p .transmit { c with next := m } ∧
      q ∈ t.net x ∧ q.header.ackNum.toNat = (cfg.isn x).toNat + m ∧
      q.header.advertisedWindow.toNat = c.read + (cfg.recvCapacity x.other).toNat - m ∧
      (k = c.next → k + n - 1 < c.read + (cfg.recvCapacity x.other).toNat → k + n ≤ m) ∧
      (k ≤ c.read ∨ c.read + (cfg.recvCapacity x.other).toNat ≤ k + n - 1 → m = c.next) := by
  obtain ⟨out, inn, hcar, hp, hq, rfl⟩ := h
  obtain ⟨t, out', inn', replies, a, ha, hcar', hreach, htransmit, hep, hnet, hreplies, _, rfl,
    htakes, _, _⟩ := hcar.receive hq hpkt
  rw [Side.other_other] at hep hnet htakes
  -- data is answered by one pure ACK
  obtain ⟨q, rfl⟩ := hreplies.single hcarries.len_ne_zero
  obtain ⟨hsent, _⟩ := hreplies.sent q (by simp)
  -- its window is the room that is left after the data
  have hsock := (hcar'.invariant.endpoint x.other).sock
  have hnext := hsock.nextSeq
  have hmax := hsock.recvBuf.recvBufferMaxReceive
  have hcapacity := hcar.invariant.recvCapacity x.other
  have hread := htakes.read
  have hlt := (inn' x.other).read_lt_next
  rw [Side.other_other] at hnext
  rw [htakes.capacity, hcapacity, hread] at hmax
  refine ⟨t, (inn' x.other).next, q, hreach, ⟨_, inn', hcar', by rw [hep, hp], htransmit, ?_⟩, ?_,
    ?_, ?_, ?_, ?_⟩
  · simp only [Sys.transfer, hep, hread, Function.update_of_ne (Side.other_ne x).symm]
  · rw [hnet]
    exact List.mem_append_right _ (List.mem_singleton_self q)
  · rw [hsent.ack, hnext]
  · rw [hsent.window, UInt32.toNat_toUInt16, hmax]
    exact Nat.mod_eq_of_lt (by omega)
  -- what it expects next, and has room for, it takes
  · intro hk hfits
    exact htakes.lt_next hcarries hk (by rw [hcapacity]; exact hfits)
  -- what it has read, or has no room for, it does not
  · intro hnot
    have hsame : inn' x.other = inn x.other := by
      apply htakes.eq_of_not_accepts hcarries
      rintro ⟨_, hlo, _, hhi⟩
      rw [hcapacity] at hhi
      rcases hnot with hle | hle
      · exact absurd hlo (Nat.not_lt.mpr hle)
      · exact absurd hhi (Nat.not_lt.mpr hle)
    rw [hsame]
    rfl

/-- The answer comes back: `x` takes its ack and its window. -/
theorem Sys.At.answer (h : s.At cfg x data .checkData q c) {pkt : Packet} {m : ℕ}
    (hpkt : pkt ∈ s.net x) (hack : pkt.header.ackNum.toNat = (cfg.isn x).toNat + m) :
    ∃ t, Sys.Reaches cfg x s t ∧ t.At cfg x data .transmit q
      { c with acked := max c.acked (m - 1), window := pkt.header.advertisedWindow.toNat } := by
  obtain ⟨out, inn, hcar, hp, hq, rfl⟩ := h
  obtain ⟨t, out', inn', replies, a, ha, hcar', hreach, htransmit, hep, _, _, hack', rfl, _,
    hother, hwindow⟩ := hcar.receive hp hpkt
  refine ⟨t, hreach, _, inn', hcar', htransmit, by rw [hep, hq], ?_⟩
  have ha' : a = m - 1 := by omega
  simp only [Sys.transfer, Function.update_self, hwindow, hother, SendStream.ack, ha']

/-- The application of the peer reads everything. -/
theorem Sys.At.read (h : s.At cfg x data p q c) (hq : q ≠ .exited) :
    ∃ t, Sys.Reaches cfg x s t ∧ t.At cfg x data p q { c with read := c.next - 1 } ∧
      ∀ a ∈ s.net x, a ∈ t.net x := by
  obtain ⟨out, inn, hcar, hp, hpc, rfl⟩ := h
  obtain ⟨t, inn', rb, bytes, hcar', hreach, hep, hother, hnet, hnext, hempty⟩ :=
    hcar.read (hpc ▸ hq)
  -- the buffer is empty, so everything in order is read
  have hmax := (hcar'.invariant.endpoint x.other).sock.recvBuf.recvBufferMaxRead
  have hlt := (inn' x.other).read_lt_next
  rw [hep, hempty, UInt32.toNat_zero] at hmax
  refine ⟨t, hreach, ⟨out, inn', hcar', by rw [hother, hp], by rw [hep]; exact hpc, ?_⟩,
    fun a ha => hnet ▸ ha⟩
  simp only [Sys.transfer, hother, Transfer.mk.injEq, true_and, and_true]
  exact ⟨hnext, by omega⟩

/-- With an empty ring `cmu_write` goes on. -/
theorem Sys.At.write (h : s.At cfg x data .transmit q c)
    (hsend : 2 ≤ (cfg.sendCapacity x).toNat) (hall : c.acked = c.written)
    (hrest : c.written < data.length) :
    ∃ t m n, Sys.Reaches cfg x s t ∧
      t.At cfg x data .transmit q { c with sent := m, written := n } ∧ c.sent ≤ m ∧
      c.written < n := by
  obtain ⟨out, inn, hcar, hp, hq, rfl⟩ := h
  have href := hcar.invariant.endpoint x
  have hw := hcar.noWrap.sendBuf x
  have hlength := hcar.length
  have hpending : 0 < (s.ep x).pending.length := by
    have hlt : (out x).written.length < data.length := hrest
    omega
  obtain ⟨n, sb, hn, hmin, hwrite, _, _, _⟩ := cmuWriteIteration_refines href.sock.sendBuf
    (href.sock.sendBuf.indicesFit hw) (lt_trans href.pending (by decide))
  -- one cell of the ring stays unused
  have hroom : 0 < n := by
    have hfull : (out x).acked = (out x).written.length := hall
    have hcap := hcar.invariant.sendCapacity x
    have hmax : (out x).maxWrite = (out x).acked + (out x).capacity - 1 - (out x).written.length :=
      rfl
    omega
  have happ : appWrite (s.ep x) = some (.ok { s.ep x with
      sock := { (s.ep x).sock with sendBuf := sb }, pending := (s.ep x).pending.drop n }) := by
    have hne : (s.ep x).pending ≠ [] := List.length_pos_iff.mp hpending
    unfold appWrite
    rw [if_neg (by simp [hne, hp, BackendPc.ended]), hwrite]
    rfl
  have hstep : s.step (.write x) = some (.ok (s.put x ({ s.ep x with
      sock := { (s.ep x).sock with sendBuf := sb }
      pending := (s.ep x).pending.drop n }, []))) := by
    simp only [Sys.step, happ, Option.map_some]
    rfl
  obtain ⟨t, out', inn', ht, hm, hcar', hreach⟩ := hcar.step .write hstep
  have hmove : inn' = inn ∧ (out' x).acked = (out x).acked ∧ (out x).sent ≤ (out' x).sent := by
    cases hm with
    | idle hl _ _ => exact hl.elim
    | write hc hacked _ _ =>
      refine ⟨Function.update_eq_self .., ?_⟩
      rw [Function.update_self]
      exact ⟨hacked, hc.sent⟩
  obtain ⟨rfl, hacked, hsent⟩ := hmove
  obtain rfl := Except.ok.inj ht
  have hlength' := hcar'.length
  rw [Sys.ep_put_self, List.length_drop] at hlength'
  refine ⟨_, (out' x).sent, (out' x).written.length, hreach, ⟨out', inn', hcar', ?_, ?_, ?_⟩, hsent,
    ?_⟩
  · rw [Sys.ep_put_self]
    exact hp
  · rw [Sys.ep_put_other]
    exact hq
  · simp only [Sys.transfer, Sys.ep_put_self, hacked]
  · show (out x).written.length < (out' x).written.length
    omega

/-- With nothing unacknowledged and an open window fresh data is sent. -/
theorem Sys.At.fresh (h : s.At cfg x data .transmit q c) (hall : c.acked = c.sent)
    (hlt : c.sent < c.written) (hwindow : 0 < c.window) :
    ∃ t m, Sys.Reaches cfg x s t ∧ t.At cfg x data .transmit q { c with sent := m } ∧
      c.sent < m := by
  obtain ⟨out, inn, hcar, hp, hq, rfl⟩ := h
  have hsock := (hcar.invariant.endpoint x).sock
  -- with nothing unacknowledged no timeout is due, so fresh data is sent
  have hnone : (out x).acked = (out x).sent := hall
  have hdue : ¬ resendDue (s.ep x).sock 0 = true := fun hdue =>
    absurd (acked_lt_sent_of_resendDue hsock.sendBuf hdue) (by omega)
  obtain ⟨sent, hsent, _⟩ := hcar.sent x 0 fun _ => 0
  obtain ⟨t, out', hcar', hreach, hloop, hsame, hep, _, _, ht, rfl⟩ := hcar.transmit hp _ _ hsent
  -- there is some, and the window lets some of it out
  have hfresh : 0 < freshCount (s.ep x).sock 0 := by
    have hlen := freshSendLen_toNat (s.ep x).sock
    rw [hsock.sendBuf.sendBufferMaxNewDump, hsock.sendBuf.getUnacknowledgedCount] at hlen
    have hnew : (out x).sent < (out x).written.length := hlt
    have hopen : 0 < (s.ep x).sock.window.rcvdAdvertisedWindow.toNat := hwindow
    rw [freshCount, if_neg hdue]
    omega
  -- it is unacknowledged now, so the thread stays in its loop
  have hlt' : (out x).acked < (out x).written.length := hnone ▸ hlt
  obtain ⟨hcar'', hreach'⟩ := hcar'.look (hcar'.stays_of_lt (z := x) (by
    rw [Function.update_self]
    exact hlt')) (by simp [hloop]) (by simp [hloop])
  obtain ⟨u, hreach'', hat⟩ := Sys.At.skip (s := t.setPc x .checkData) (c := { s.transfer x out inn
    with sent := (out x).sent + freshCount (s.ep x).sock 0 }) (q := q)
    ⟨_, inn, hcar'', by simp, by simp [hep, hq], by
      rw [Sys.transfer_setPc]
      simp only [Sys.transfer, Function.update_self, hsame, SendStream.dump]⟩
  exact ⟨u, _, (hreach.trans hreach').trans hreach'', hat, Nat.lt_add_of_pos_right hfresh⟩

end Transfers

end CmuTcp
