import CmuTcp.Connection.Local

/-!
# Stalls

When nothing is in flight, only the backend threads can put a packet on the network: a
retransmission if something is unacknowledged, fresh data if the peer's last window lets
it through.  There is no third way: a receiver whose window opens again does not say so.

And there is one way in which fresh data is not sent although it fits the window: the
process dies in the first copy of `multiple_send`.  That copy starts in the cell behind the
last byte acknowledged when everything sent is acknowledged, so it starts after the wrap
exactly if that byte is in the last cell of the ring.

This module says exactly which states go on by themselves.  First comes what the two send
functions do with a given send buffer, whatever its indices are; then the indices, which
every step leaves inside the ring; then the steps of a backend thread from its place in the
loop to the packets; and last the runs.  No sequence number is kept from wrapping, so the
result holds of every run.
-/

namespace CmuTcp

open FaultSystem

/-! ## Steps of the backend threads alone -/

/-- A step of a backend thread that receives no packet. -/
def Label.IsBackend : Label → Prop
  | .backend .. => True
  | _ => False

/-- Perform labels one after another. -/
def Sys.exec (s : Sys) (ls : List Label) : Option (Except Fault Sys) :=
  FaultSystem.exec (systemFrom s) (fun _ => True) s ls

/-- The rest of the current iteration of the loop of `x`, or one step of its handshake,
    puts a packet on the network: at some time, at most four steps. -/
def Sys.IterationSends (s : Sys) (x : Side) : Prop :=
  ∃ now beyond n t, n ≤ 4 ∧
    s.exec (List.replicate n (.backend x now beyond)) = some (.ok t) ∧ t.net x.other ≠ []

theorem exec_systemFrom (s t u : Sys) (ls : List Label) :
    FaultSystem.exec (systemFrom s) (fun _ => True) u ls =
      FaultSystem.exec (systemFrom t) (fun _ => True) u ls := by
  induction ls generalizing u with
  | nil => rfl
  | cons l ls ih =>
    simp only [FaultSystem.exec, systemFrom, if_true]
    split
    · exact ih _
    · rfl

theorem Sys.exec_cons {s s' : Sys} {l : Label} (h : s.step l = some (.ok s'))
    (ls : List Label) : s.exec (l :: ls) = s'.exec ls := by
  have hstep : (systemFrom s).step s l = some (.ok s') := h
  rw [Sys.exec, FaultSystem.exec, hstep]
  simp only [if_true]
  exact exec_systemFrom s s' s' ls

/-! ## What an endpoint sends on its own -/

/-- Something is unacknowledged, or something is fresh and the window is open. -/
def CmuSocket.HasToSend (sock : CmuSocket) : Prop :=
  0 < getUnacknowledgedCount sock.sendBuf ∨
    0 < sendBufferMaxNewDump sock.sendBuf ∧ 0 < sock.window.rcvdAdvertisedWindow

/-- The backend thread will come to the sending part of the current iteration. -/
def Endpoint.StaysInLoop (e : Endpoint) : Prop :=
  match e.pc with
  | .loopTop => exitTest e.sock e.sock.dying = false
  | .exitTest death => exitTest e.sock death = false
  | .checkData => True
  | .transmit => True
  | _ => False

/-- An iteration of the loop sends something without any help: there is something to send,
    and if all of it is fresh, the last byte acknowledged is not in the last cell. -/
def Endpoint.CanSend (e : Endpoint) : Prop :=
  e.StaysInLoop ∧ e.sock.HasToSend ∧
    (e.sock.sendBuf.lastByteAckedIndex = e.sock.sendBuf.capacity - 1 →
      0 < getUnacknowledgedCount e.sock.sendBuf)

/-- The first copy that `multiple_send` makes does not fault. -/
def CmuSocket.FirstCopyStays (sock : CmuSocket) : Prop :=
  let startIndex := (sock.sendBuf.lastByteSentIndex + 1) % sock.sendBuf.capacity
  let len := (chunkLen (freshSendLen sock)).toUInt32
  startIndex + len - 1 > sock.sendBuf.lastByteAckedIndex ∨
    sock.sendBuf.capacity - startIndex ≤ len

/-- At a suitable time the sending part of an iteration sends a packet. -/
def CmuSocket.Emits (sock : CmuSocket) : Prop :=
  sock.HasToSend ∧ (0 < getUnacknowledgedCount sock.sendBuf ∨ sock.FirstCopyStays)

/-- And the backend thread will come to it. -/
def Endpoint.Emits (e : Endpoint) : Prop :=
  e.StaysInLoop ∧ e.sock.Emits

instance (sock : CmuSocket) : Decidable sock.HasToSend :=
  inferInstanceAs (Decidable (_ ∨ _ ∧ _))

instance (e : Endpoint) : Decidable e.StaysInLoop :=
  match h : e.pc with
  | .loopTop =>
    decidable_of_iff (exitTest e.sock e.sock.dying = false) (by rw [Endpoint.StaysInLoop, h])
  | .exitTest death =>
    decidable_of_iff (exitTest e.sock death = false) (by rw [Endpoint.StaysInLoop, h])
  | .checkData => isTrue (by rw [Endpoint.StaysInLoop, h]; trivial)
  | .transmit => isTrue (by rw [Endpoint.StaysInLoop, h]; trivial)
  | .entry => isFalse (by rw [Endpoint.StaysInLoop, h]; exact id)
  | .handshake _ => isFalse (by rw [Endpoint.StaysInLoop, h]; exact id)
  | .exited => isFalse (by rw [Endpoint.StaysInLoop, h]; exact id)
  | .crashed => isFalse (by rw [Endpoint.StaysInLoop, h]; exact id)

instance (e : Endpoint) : Decidable e.CanSend :=
  inferInstanceAs (Decidable (_ ∧ _ ∧ (_ → _)))

/-- A retransmission sends at least one packet. -/
theorem resendUnacknowledged_packets (sock : CmuSocket) (beyond : ℕ → UInt8)
    (h : 0 < getUnacknowledgedCount sock.sendBuf) :
    ∃ r, resendUnacknowledged sock beyond = .ok r ∧ r.packets ≠ [] := by
  have hassert : getUnacknowledgedCount sock.sendBuf > 0 := h
  unfold resendUnacknowledged
  rw [cAssert_of hassert]
  by_cases hzero : resendLen sock = 0
  · -- the probe
    obtain ⟨p, hp, _⟩ := probe_packet sock beyond
    refine ⟨_, by simp only [bind, Except.bind, pure, Except.pure, if_pos hzero]; rfl, ?_⟩
    simp [hp]
  · -- the first iteration of the loop
    have hpos : resendLen sock > 0 := UInt32.pos_iff_ne_zero.mpr hzero
    obtain ⟨fuel, hfuel⟩ := Nat.exists_eq_add_of_lt (toNat_pos_of_ne_zero hzero)
    rw [Nat.zero_add] at hfuel
    obtain ⟨p, _, _, _, _, heq⟩ := resendLoop_succ sock beyond
      ((sock.sendBuf.lastByteAckedIndex + 1) % sock.sendBuf.capacity)
      (sock.sendBuf.lastByteAckedSeqnum + 1) fuel 0 hpos
    refine ⟨_, by simp only [bind, Except.bind, pure, Except.pure, if_neg hzero]; rfl, ?_⟩
    rw [hfuel, heq]
    exact List.cons_ne_nil _ _

/-- The copy succeeds exactly if its last index, not reduced, is behind the last byte
    acknowledged, or its first part has at most as many bytes as the whole. -/
theorem safeMemcpyFromSendbuf_ok_iff (sb : SendBuffer) (beyond : ℕ → UInt8)
    (startIndex len : UInt32) :
    (∃ copy, safeMemcpyFromSendbuf sb beyond startIndex len = .ok copy) ↔
      startIndex + len - 1 > sb.lastByteAckedIndex ∨ sb.capacity - startIndex ≤ len := by
  unfold safeMemcpyFromSendbuf
  dsimp only
  split
  · rename_i hbehind
    exact iff_of_true ⟨_, rfl⟩ (Or.inl hbehind)
  · rename_i hbehind
    split
    · rename_i htail
      exact iff_of_true ⟨_, rfl⟩ (Or.inr htail)
    · rename_i htail
      exact iff_of_false (fun ⟨_, hcopy⟩ => absurd hcopy (by simp)) (not_or.mpr ⟨hbehind, htail⟩)

/-- Fresh data is sent if there is some that fits the window and its first copy succeeds. -/
theorem multipleSend_packets {sock : CmuSocket} (hpos : 0 < freshSendLen sock)
    (hstays : sock.FirstCopyStays) (beyond : ℕ → UInt8) :
    (multipleSend sock beyond).packets ≠ [] := by
  unfold multipleSend
  obtain ⟨fuel, hfuel⟩ := Nat.exists_eq_add_of_lt (target_pos_iff.mp hpos)
  rw [Nat.zero_add] at hfuel
  obtain ⟨copy, hcopy⟩ := (safeMemcpyFromSendbuf_ok_iff sock.sendBuf beyond _ _).mpr hstays
  rcases multipleSendLoop_succ sock beyond fuel sock.sendBuf hpos with
    ⟨f, hf, _⟩ | ⟨_, p, _, _, _, _, _, heq⟩
  · exact absurd (hf.symm.trans hcopy) (by simp)
  · rw [hfuel, heq]
    exact List.cons_ne_nil _ _

/-- And otherwise nothing is sent, and nothing counts as sent. -/
theorem multipleSend_nothing {sock : CmuSocket}
    (h : 0 < freshSendLen sock → ¬ sock.FirstCopyStays) (beyond : ℕ → UInt8) :
    (multipleSend sock beyond).sendBuf = sock.sendBuf ∧
      (multipleSend sock beyond).packets = [] := by
  unfold multipleSend
  by_cases hpos : freshSendLen sock > 0
  · obtain ⟨fuel, hfuel⟩ := Nat.exists_eq_add_of_lt (target_pos_iff.mp hpos)
    rw [Nat.zero_add] at hfuel
    rcases multipleSendLoop_succ sock beyond fuel sock.sendBuf hpos with
      ⟨f, _, heq⟩ | ⟨copy, p, hcopy, _⟩
    · rw [hfuel, heq]
      exact ⟨rfl, rfl⟩
    · exact absurd ((safeMemcpyFromSendbuf_ok_iff sock.sendBuf beyond _ _).mp ⟨copy, hcopy⟩)
        (h hpos)
  · have hzero : freshSendLen sock = 0 := by
      by_contra hne
      exact hpos (UInt32.pos_iff_ne_zero.mpr hne)
    rw [hzero]
    exact ⟨rfl, rfl⟩

theorem freshSendLen_pos {sock : CmuSocket} (h : 0 < freshSendLen sock) :
    0 < sendBufferMaxNewDump sock.sendBuf ∧ 0 < sock.window.rcvdAdvertisedWindow := by
  rw [UInt32.lt_iff_toNat_lt, freshSendLen_toNat, UInt32.toNat_zero] at h
  rw [UInt32.lt_iff_toNat_lt, UInt16.lt_iff_toNat_lt, UInt32.toNat_zero, UInt16.toNat_zero]
  omega

theorem freshSendLen_pos_of {sock : CmuSocket} (hfresh : 0 < sendBufferMaxNewDump sock.sendBuf)
    (hwindow : 0 < sock.window.rcvdAdvertisedWindow)
    (hnone : ¬ 0 < getUnacknowledgedCount sock.sendBuf) : 0 < freshSendLen sock := by
  rw [UInt32.lt_iff_toNat_lt, UInt32.toNat_zero] at hfresh hnone
  rw [UInt16.lt_iff_toNat_lt, UInt16.toNat_zero] at hwindow
  rw [UInt32.lt_iff_toNat_lt, freshSendLen_toNat, UInt32.toNat_zero]
  omega

/-- The sending part of an iteration fails no assert.  It sends something at a suitable time
    if the socket emits, and leaves the buffer and sends nothing if it does not. -/
theorem transmit_cases (sock : CmuSocket) (now : Int) (beyond : ℕ → UInt8) :
    ∃ r, transmit sock now beyond = .ok r ∧
      (¬ sock.Emits → r.sendBuf = sock.sendBuf ∧ r.packets = []) ∧
      (sock.Emits → defaultTimeout < now - sock.sendBuf.lastByteAckedTs → r.packets ≠ []) := by
  unfold transmit
  by_cases hdue : resendDue sock now = true
  · have hunacked : 0 < getUnacknowledgedCount sock.sendBuf := by
      simpa using (Bool.and_eq_true_iff.mp hdue).2
    obtain ⟨r, hr, hne⟩ := resendUnacknowledged_packets sock beyond hunacked
    rw [if_pos hdue]
    exact ⟨r, hr, fun hnot => absurd ⟨Or.inl hunacked, Or.inl hunacked⟩ hnot, fun _ _ => hne⟩
  · rw [if_neg hdue]
    refine ⟨_, rfl, fun hnot => ?_, fun hemits htime => ?_⟩
    · refine multipleSend_nothing (fun hpos hstays => hnot ⟨?_, Or.inr hstays⟩) beyond
      exact Or.inr (freshSendLen_pos hpos)
    · -- the timeout has elapsed, so nothing is unacknowledged
      have hnone : ¬ 0 < getUnacknowledgedCount sock.sendBuf := by
        intro hpos
        apply hdue
        rw [resendDue, Bool.and_eq_true_iff, decide_eq_true_eq, decide_eq_true_eq]
        exact ⟨htime, hpos⟩
      obtain ⟨hfresh, hwindow⟩ := hemits.1.resolve_left hnone
      exact multipleSend_packets (freshSendLen_pos_of hfresh hwindow hnone)
        (hemits.2.resolve_left hnone) beyond

/-! ## The steps of a backend thread -/

/-- The endpoint does not send anything on its own: it is in its loop and cannot, or it
    waits in the handshake of the server, which only answers. -/
inductive Endpoint.Quiet (e : Endpoint) : Prop
  | loop (hloop : e.InLoop) (hcan : ¬ e.Emits)
  | blocked {packet : Option Packet} (hpc : e.pc = .handshake packet)
      (htype : e.sock.type = .tcpListener)

/-- A quiet endpoint sends nothing, and stays quiet. -/
theorem Endpoint.Quiet.backend {e : Endpoint} (h : e.Quiet) {now : Int}
    {beyond : ℕ → UInt8} {r : Except Fault (Endpoint × List Packet)}
    (hstep : backendSilent e now beyond = some r) : ∃ e', r = .ok (e', []) ∧ e'.Quiet := by
  cases h with
  | blocked hpc htype => simp only [backendSilent, hpc, htype, reduceCtorEq] at hstep
  | loop hloop hcan =>
    rcases backendSilent_cases hloop.notEntry hloop.notHandshake hstep with
      ⟨hpc, rfl⟩ | ⟨pc, hadvances, rfl⟩
    · have hnot : ¬ e.sock.Emits := fun hemits => hcan ⟨by simp [StaysInLoop, hpc], hemits⟩
      obtain ⟨sent, hsent, hnone, _⟩ := transmit_cases e.sock now beyond
      obtain ⟨hsb, hpackets⟩ := hnone hnot
      simp only [transmitStep, hsent, bind, Except.bind, pure, Except.pure, hsb, hpackets]
      obtain ⟨hentry, hhandshake, _⟩ := sent.pc_ne
      exact ⟨_, rfl, .loop ⟨hentry, hhandshake⟩ fun hcan' => hnot hcan'.2⟩
    · obtain ⟨hentry, hhandshake, _⟩ := hadvances.pc_ne
      refine ⟨_, rfl, .loop ⟨hentry, hhandshake⟩ fun hcan' => hcan ⟨?_, hcan'.2⟩⟩
      -- a thread that stays in its loop after the step did so before
      have hstays := hcan'.1
      cases hadvances with
      | loopTop hpc =>
        simp only [StaysInLoop, hpc] at hstays ⊢
        exact hstays
      | exits _ _ => exact absurd hstays (by simp [StaysInLoop])
      | stays hpc hexit => simpa [StaysInLoop, hpc] using hexit
      | looks hpc => simp [StaysInLoop, hpc]

/-- How many steps the thread takes before the sending part of an iteration. -/
def BackendPc.stepsToTransmit : BackendPc → ℕ
  | .loopTop => 3
  | .exitTest _ => 2
  | .checkData => 1
  | _ => 0

/-- An endpoint that emits gets to the sending part of the iteration. -/
theorem Endpoint.Emits.advance {e : Endpoint} (h : e.Emits) (now : Int)
    (beyond : ℕ → UInt8) : e.pc = .transmit ∨
      ∃ pc, backendSilent e now beyond = some (.ok ({ e with pc := pc }, [])) ∧
        ({ e with pc := pc } : Endpoint).Emits ∧
        pc.stepsToTransmit + 1 = e.pc.stepsToTransmit := by
  obtain ⟨hstays, hhas⟩ := h
  unfold StaysInLoop at hstays
  split at hstays
  case h_1 hpc =>
    refine Or.inr ⟨.exitTest e.sock.dying, ?_, ⟨hstays, hhas⟩, by rw [hpc]; rfl⟩
    simp only [backendSilent, hpc]
  case h_2 death hpc =>
    refine Or.inr ⟨.checkData, ?_, ⟨trivial, hhas⟩, by rw [hpc]; rfl⟩
    simp only [backendSilent, hpc, hstays, Bool.false_eq_true, if_false]
  case h_3 hpc =>
    refine Or.inr ⟨.transmit, ?_, ⟨trivial, hhas⟩, by rw [hpc]; rfl⟩
    simp only [backendSilent, hpc, checkForData]
    rfl
  case h_4 hpc => exact Or.inl hpc
  case h_5 => exact hstays.elim

/-! ## The system -/

/-- A step of a backend thread, as a step of the system. -/
theorem Sys.step_backend {s : Sys} {x : Side} {now : Int} {beyond : ℕ → UInt8}
    {r : Endpoint × List Packet} (h : backendSilent (s.ep x) now beyond = some (.ok r)) :
    s.step (.backend x now beyond) = some (.ok (s.put x r)) := by
  simp only [Sys.step, h]
  rfl

/-- An endpoint that emits does so within four steps. -/
theorem Sys.iterationSends_of_emits {s : Sys} {x : Side} (h : (s.ep x).Emits) :
    s.IterationSends x := by
  -- the buffer does not change on the way, so neither does the time of the timeout
  have hsteps : ∀ (k : ℕ) (s : Sys) (now : Int), (s.ep x).Emits →
      (s.ep x).pc.stepsToTransmit = k →
      defaultTimeout < now - (s.ep x).sock.sendBuf.lastByteAckedTs →
      ∃ t, s.exec (List.replicate (k + 1) (.backend x now fun _ => 0)) = some (.ok t) ∧
        t.net x.other ≠ [] := by
    intro k
    induction k with
    | zero =>
      intro s now hcan hk htime
      have hpc : (s.ep x).pc = .transmit := by
        rcases hcan.advance now (fun _ => 0) with hpc | ⟨pc, _, _, hrank⟩
        · exact hpc
        · omega
      obtain ⟨sent, hsent, _, hsome⟩ := transmit_cases (s.ep x).sock now fun _ => 0
      have hstep : backendSilent (s.ep x) now (fun _ => 0) = some (.ok ({ s.ep x with
          sock := { (s.ep x).sock with sendBuf := sent.sendBuf }
          pc := sent.pc
          strayed := (s.ep x).strayed || !sent.inBounds }, sent.packets)) := by
        simp only [backendSilent, hpc, transmitStep, hsent]
        rfl
      refine ⟨_, Sys.exec_cons (Sys.step_backend hstep) [], ?_⟩
      rw [Sys.net_put_other]
      exact fun hnil => hsome hcan.2 htime (List.append_eq_nil_iff.mp hnil).2
    | succ k ih =>
      intro s now hcan hk htime
      rcases hcan.advance now (fun _ => 0) with hpc | ⟨pc, hstep, hcan', hrank⟩
      · rw [hpc] at hk
        exact absurd hk (by simp [BackendPc.stepsToTransmit])
      · obtain ⟨t, hexec, hnet⟩ := ih (s.put x ({ s.ep x with pc := pc }, [])) now
          (by rw [Sys.ep_put_self]; exact hcan')
          (by rw [Sys.ep_put_self]; show pc.stepsToTransmit = k; omega)
          (by rw [Sys.ep_put_self]; exact htime)
        refine ⟨t, ?_, hnet⟩
        rw [List.replicate_succ, Sys.exec_cons (Sys.step_backend hstep)]
        exact hexec
  obtain ⟨t, hexec, hnet⟩ := hsteps (s.ep x).pc.stepsToTransmit s
    (defaultTimeout + 1 + (s.ep x).sock.sendBuf.lastByteAckedTs) h rfl (by omega)
  refine ⟨_, _, _, t, ?_, hexec, hnet⟩
  unfold BackendPc.stepsToTransmit
  split
  · exact le_refl _
  · exact (by decide)
  · exact (by decide)
  · exact (by decide)

/-- Nothing is in flight, and no endpoint sends anything on its own. -/
structure Sys.Silent (s : Sys) : Prop where
  quiet : ∀ x, (s.ep x).Quiet
  net : ∀ x, s.net x = []

theorem Sys.Silent.step {s s' : Sys} (h : s.Silent) {l : Label} (hl : l.IsBackend)
    (hstep : s.step l = some (.ok s')) : s'.Silent := by
  cases l with
  | backend x now beyond =>
    simp only [Sys.step, Option.map_eq_some_iff] at hstep
    obtain ⟨r, hr, hmap⟩ := hstep
    obtain ⟨e, rfl, hquiet⟩ := (h.quiet x).backend hr
    obtain rfl := Except.ok.inj hmap
    refine ⟨Side.forall_of x ?_ ?_, Side.forall_of x ?_ ?_⟩
    · simpa using hquiet
    · simpa using h.quiet x.other
    · simpa using h.net x
    · simpa using h.net x.other
  | _ => exact hl.elim

/-- It stays silent, whatever the two backend threads do. -/
theorem Sys.Silent.exec {s t : Sys} (h : s.Silent) {ls : List Label}
    (hls : ∀ l ∈ ls, l.IsBackend) (hexec : s.exec ls = some (.ok t)) : t.Silent := by
  induction ls generalizing s with
  | nil =>
    obtain rfl := Except.ok.inj (Option.some.inj hexec)
    exact h
  | cons l ls ih =>
    cases hstep : s.step l with
    | none =>
      have hM : (systemFrom s).step s l = none := hstep
      rw [Sys.exec, FaultSystem.exec, hM] at hexec
      exact absurd hexec (by simp)
    | some r =>
      cases r with
      | error f =>
        have hM : (systemFrom s).step s l = some (.error f) := hstep
        rw [Sys.exec, FaultSystem.exec, hM] at hexec
        exact absurd hexec (by simp)
      | ok s' =>
        rw [Sys.exec_cons hstep] at hexec
        exact ih (h.step (hls l (by simp)) hstep) (fun l' hl' => hls l' (by simp [hl'])) hexec

theorem Sys.Silent.not_iterationSends {s : Sys} (h : s.Silent) : ¬ ∃ x, s.IterationSends x := by
  rintro ⟨x, now, beyond, n, t, _, hexec, hne⟩
  apply hne
  refine (h.exec (fun l hl => ?_) hexec).net x.other
  rw [List.eq_of_mem_replicate hl]
  trivial

/-- With nothing in flight, an iteration sends something exactly if an endpoint emits. -/
theorem Sys.iterationSends_iff {s : Sys} (hloop : ∀ x, (s.ep x).InLoop)
    (hnet : ∀ x, s.net x = []) : (∃ x, s.IterationSends x) ↔ ∃ x, (s.ep x).Emits := by
  constructor
  · intro hsends
    by_contra hnone
    have hsilent : s.Silent := ⟨fun y => .loop (hloop y) fun hcan => hnone ⟨y, hcan⟩, hnet⟩
    exact hsilent.not_iterationSends hsends
  · rintro ⟨x, hcan⟩
    exact ⟨x, Sys.iterationSends_of_emits hcan⟩

/-! ## The indices -/

/-- The indices point to cells of the ring; the index of the next byte written starts at `1`,
    also in a ring of one cell. -/
structure SendBuffer.InRing (sb : SendBuffer) : Prop where
  acked : sb.lastByteAckedIndex < sb.capacity
  sent : sb.lastByteSentIndex < sb.capacity
  next : sb.nextByteWrittenIndex ≤ sb.capacity

section Indices

variable {sb sb' : SendBuffer}

/-- An index is reduced modulo the capacity. -/
theorem SendBuffer.InRing.mod_lt (h : sb.InRing) (i : UInt32) :
    i % sb.capacity < sb.capacity := by
  have hacked := UInt32.lt_iff_toNat_lt.mp h.acked
  rw [UInt32.lt_iff_toNat_lt, UInt32.toNat_mod]
  exact Nat.mod_lt _ (by omega)

theorem dumpIndex_inRing (h : sb.InRing) (start len : UInt32) :
    (dumpIndex sb start len).InRing := by
  unfold dumpIndex
  dsimp only
  split
  · exact ⟨h.acked, h.mod_lt _, h.next⟩
  · exact h

theorem multipleSendLoop_inRing {sock : CmuSocket} {beyond : ℕ → UInt8} {fuel : ℕ}
    {target : UInt32} (h : sb.InRing) :
    (multipleSendLoop sock beyond fuel sb target).sendBuf.InRing := by
  induction fuel generalizing sb target with
  | zero => exact h
  | succ fuel ih =>
    by_cases hpos : target > 0
    · rcases multipleSendLoop_succ sock beyond fuel sb hpos with
        ⟨f, _, heq⟩ | ⟨copy, p, _, _, _, _, _, heq⟩
      · rw [heq]
        exact h
      · rw [heq]
        exact ih (dumpIndex_inRing h _ _)
    · simp only [multipleSendLoop, if_neg hpos]
      exact h

theorem sendBufferWrite_inRing {buf : List UInt8} {len : UInt32} (h : sb.InRing)
    (hwrite : sendBufferWrite sb buf len = .ok sb') : sb'.InRing := by
  obtain ⟨_, _, hwrite⟩ := ok_of_bind_ok hwrite
  split at hwrite
  · obtain rfl := Except.ok.inj hwrite
    exact h
  · obtain ⟨buffer, _, hret⟩ := ok_of_bind_ok hwrite
    obtain rfl := Except.ok.inj hret
    exact ⟨h.acked, h.sent, UInt32.le_of_lt (h.mod_lt _)⟩

theorem seqnumToIndexSend_inRing {seqnum idx : UInt32} (h : sb.InRing)
    (hidx : seqnumToIndexSend sb seqnum = .ok idx) : idx < sb.capacity := by
  obtain ⟨_, _, hidx⟩ := ok_of_bind_ok hidx
  obtain ⟨_, _, hret⟩ := ok_of_bind_ok hidx
  obtain rfl := Except.ok.inj hret
  exact h.mod_lt _

theorem handleAck_inRing {sock sock' : CmuSocket} {acknum : UInt32} {now : Int}
    (h : sock.sendBuf.InRing) (hack : handleAck sock acknum now = .ok sock') :
    sock'.sendBuf.InRing := by
  rcases handleAck_eq_ok hack with ⟨_, rfl⟩ | ⟨sb, hupdate, rfl⟩
  · exact h
  · rcases sendBufferUpdateAck_eq_ok hupdate with ⟨_, idx, hidx, rfl⟩ | ⟨_, rfl⟩
    · have hlt := seqnumToIndexSend_inRing h hidx
      exact ⟨hlt, h.sent, h.next⟩
    · exact h

/-- What a step does to the indices. -/
theorem Endpoint.LoopAct.inRing {e e' : Endpoint} {ev : Event} {packets : List Packet}
    (hact : e.LoopAct ev e' packets) (h : e.sock.sendBuf.InRing) : e'.sock.sendBuf.InRing := by
  cases hact with
  | advance _ _ _ _ _ => exact h
  | transmit _ hsent =>
    -- the resend leaves the ring alone, the fresh send moves the sent index inside it
    unfold CmuTcp.transmit at hsent
    split at hsent
    · exact (resendUnacknowledged_sendBuf hsent).symm ▸ h
    · obtain rfl := Except.ok.inj hsent
      exact multipleSendLoop_inRing h
  | @receive now source pkt _ _ _ hmsg =>
    -- a message moves the ring only by its ack
    rcases handleMessage_ok hmsg with ⟨_, rfl⟩ | ⟨_, hhandles⟩
    · exact h
    · obtain ⟨sock₁, hack, hsame, _⟩ := hhandles.ack
      have hring : (e.sock.heardFrom source).sendBuf.InRing := h
      exact hsame.symm ▸ handleAck_inRing hring hack
  | writeCall _ _ _ => exact h
  | write _ _ hwrite =>
    obtain ⟨sb, hsock, hsb⟩ := cmuWriteIteration_ok hwrite
    obtain rfl := congrArg CmuSocket.sendBuf hsock
    rcases hsb with hsame | ⟨len, hsb⟩
    · exact hsame.symm ▸ h
    · exact sendBufferWrite_inRing h hsb
  | read _ => exact h
  | close _ => exact h

/-- With everything sent acknowledged, the fresh bytes start behind the last byte acknowledged,
    and leave a cell of the ring free. -/
theorem SendBuffer.InRing.fresh (h : sb.InRing) (hnone : ¬ 0 < getUnacknowledgedCount sb) :
    sb.lastByteSentIndex = sb.lastByteAckedIndex ∧
      (sendBufferMaxNewDump sb).toNat < sb.capacity.toNat := by
  obtain ⟨hacked, hsent, hnext⟩ := h
  rw [UInt32.lt_iff_toNat_lt] at hacked hsent hnone
  rw [UInt32.le_iff_toNat_le] at hnext
  have hcap := sb.capacity.toNat_lt
  -- nothing is in flight, so that sent and acked are the same cell
  have hsame : sb.lastByteSentIndex = sb.lastByteAckedIndex := by
    apply UInt32.toNat_inj.mp
    unfold getUnacknowledgedCount getLastByteSentSeqnum at hnone
    split at hnone
    · rename_i hle
      rw [ge_iff_le, UInt32.le_iff_toNat_le] at hle
      rw [UInt32.add_sub_cancel] at hnone
      simp only [UInt32.toNat_sub, UInt32.toNat_zero] at hnone
      omega
    · rename_i hgt
      rw [ge_iff_le, UInt32.le_iff_toNat_le] at hgt
      rw [UInt32.add_sub_cancel] at hnone
      simp only [UInt32.toNat_sub, UInt32.toNat_add, UInt32.toNat_zero, UInt32.toNat_one] at hnone
      omega
  -- what is left is the distance from the acked cell to the next free one
  refine ⟨hsame, ?_⟩
  have hsentSeq : getLastByteSentSeqnum sb = sb.lastByteAckedSeqnum := by
    rw [getLastByteSentSeqnum, hsame, if_pos (UInt32.le_refl _), UInt32.sub_self, UInt32.zero_add]
  rw [sendBufferMaxNewDump, hsentSeq]
  unfold getNextByteWrittenSeqnum
  split
  · rename_i hgt
    rw [gt_iff_lt, UInt32.lt_iff_toNat_lt] at hgt
    rw [UInt32.add_sub_cancel]
    simp only [UInt32.toNat_sub, UInt32.toNat_one]
    omega
  · rename_i hle
    rw [gt_iff_lt, UInt32.lt_iff_toNat_lt] at hle
    rw [UInt32.add_sub_cancel]
    simp only [UInt32.toNat_sub, UInt32.toNat_add, UInt32.toNat_one]
    omega

/-- So the next copy faults if the last byte acknowledged is in the last cell of the ring, and
    nowhere else. -/
theorem firstCopyStays_iff {sock : CmuSocket} (h : sock.sendBuf.InRing)
    (hnone : ¬ 0 < getUnacknowledgedCount sock.sendBuf) (hpos : 0 < freshSendLen sock) :
    sock.FirstCopyStays ↔ sock.sendBuf.lastByteAckedIndex ≠ sock.sendBuf.capacity - 1 := by
  obtain ⟨hsame, hfresh⟩ := h.fresh hnone
  have hacked := UInt32.lt_iff_toNat_lt.mp h.acked
  have hcap := sock.sendBuf.capacity.toNat_lt
  have hpos' := UInt32.lt_iff_toNat_lt.mp hpos
  have hlen := freshSendLen_toNat sock
  have hchunk := toNat_chunkLen (freshSendLen sock)
  rw [UInt32.toNat_zero] at hpos'
  rw [CmuSocket.FirstCopyStays, hsame, ne_eq, ← UInt32.toNat_inj, gt_iff_lt,
    UInt32.lt_iff_toNat_lt, UInt32.le_iff_toNat_le]
  simp only [UInt32.toNat_sub, UInt32.toNat_add, UInt32.toNat_mod, UInt32.toNat_one]
  by_cases hlast : sock.sendBuf.lastByteAckedIndex.toNat + 1 = sock.sendBuf.capacity.toNat
  · rw [hlast, Nat.mod_eq_of_lt hcap, Nat.mod_self]
    omega
  · rw [Nat.mod_eq_of_lt (show _ + 1 < 2 ^ 32 by omega),
      Nat.mod_eq_of_lt (show _ + 1 < sock.sendBuf.capacity.toNat by omega)]
    omega

/-- Before any ack the next copy starts in the second cell. -/
theorem firstCopyStays_of_zero {sock : CmuSocket} (hacked : sock.sendBuf.lastByteAckedIndex = 0)
    (hnone : ¬ 0 < getUnacknowledgedCount sock.sendBuf) (hpos : 0 < freshSendLen sock) :
    sock.FirstCopyStays := by
  have hsame : sock.sendBuf.lastByteSentIndex = 0 := by
    rw [getUnacknowledgedCount, getLastByteSentSeqnum, hacked,
      if_pos (UInt32.le_iff_toNat_le.mpr (Nat.zero_le _)), UInt32.add_sub_cancel,
      UInt32.sub_zero] at hnone
    by_contra hne
    exact hnone (UInt32.pos_iff_ne_zero.mpr hne)
  have hlen := UInt32.lt_iff_toNat_lt.mp hpos
  have hchunk := toNat_chunkLen (freshSendLen sock)
  have hcap := sock.sendBuf.capacity.toNat_lt
  rw [UInt32.toNat_zero] at hlen
  rw [CmuSocket.FirstCopyStays, hsame, hacked, gt_iff_lt, UInt32.lt_iff_toNat_lt,
    UInt32.le_iff_toNat_le]
  simp only [UInt32.toNat_sub, UInt32.toNat_add, UInt32.toNat_mod, UInt32.toNat_one,
    UInt32.toNat_zero]
  by_cases hone : sock.sendBuf.capacity.toNat = 1
  · rw [hone]
    omega
  · have hmod : (0 + 1) % 2 ^ 32 % sock.sendBuf.capacity.toNat = 1 := Nat.one_mod_eq_one.mpr hone
    omega

theorem Endpoint.emits_iff {e : Endpoint} (h : e.sock.sendBuf.InRing) : e.Emits ↔ e.CanSend := by
  have hcond (hhas : e.sock.HasToSend) :
      (0 < getUnacknowledgedCount e.sock.sendBuf ∨ e.sock.FirstCopyStays) ↔
        (e.sock.sendBuf.lastByteAckedIndex = e.sock.sendBuf.capacity - 1 →
          0 < getUnacknowledgedCount e.sock.sendBuf) := by
    by_cases hunacked : 0 < getUnacknowledgedCount e.sock.sendBuf
    · exact iff_of_true (Or.inl hunacked) fun _ => hunacked
    · obtain ⟨hfresh, hwindow⟩ := hhas.resolve_left hunacked
      have hstays := firstCopyStays_iff h hunacked (freshSendLen_pos_of hfresh hwindow hunacked)
      exact ⟨fun hor heq => absurd heq (hstays.mp (hor.resolve_left hunacked)),
        fun hlast => Or.inr (hstays.mpr fun heq => hunacked (hlast heq))⟩
  exact and_congr_right fun _ => and_congr_right hcond

end Indices

/-! ## Runs -/

section Runs

variable {cfg : Config} {tr : List (Sys × Label)} {s : Sys}

/-- The indices of both send rings stay inside them. -/
theorem inRing_of_run (hcap : ∀ x, 0 < cfg.sendCapacity x)
    (h : Run (systemFrom cfg.established) (fun _ => True) tr s) (x : Side) :
    (s.ep x).sock.sendBuf.InRing := by
  have hall : ∀ x, (s.ep x).InLoop ∧ (s.ep x).sock.sendBuf.InRing := by
    apply h.invariant (I := fun s => ∀ x, (s.ep x).InLoop ∧ (s.ep x).sock.sendBuf.InRing)
    · rintro s rfl _ x
      have hpos := UInt32.lt_iff_toNat_lt.mp (hcap x)
      refine ⟨⟨by simp [Config.established], by simp [Config.established]⟩, hcap x, hcap x, ?_⟩
      rw [UInt32.le_iff_toNat_le]
      exact hpos
    · intro s l s' hs _ _ hstep
      refine (Sys.step_local hstep).forall_ep (P := fun e => e.InLoop ∧ e.sock.sendBuf.InRing) hs ?_
      intro e ev e' packets he hact
      have hloop := he.1.act hact
      exact ⟨hloop.inLoop he.1, hloop.inRing he.2⟩
  exact (hall x).2

/-- **When a connection goes on by itself**: with nothing in flight, an iteration of one
    of the backend threads sends a packet if and only if an endpoint has something
    unacknowledged, or something fresh and an open window while the last byte acknowledged is
    not in the last cell of its ring.  If not, nothing will ever be sent without a call of an
    application. -/
theorem no_stall_iff (hcap : ∀ x, 0 < cfg.sendCapacity x)
    (h : Run (systemFrom cfg.established) (fun _ => True) tr s) (hnet : ∀ x, s.net x = []) :
    ((∃ x, s.IterationSends x) ↔ ∃ x, (s.ep x).CanSend) ∧
    ((¬ ∃ x, (s.ep x).CanSend) → ∀ ls, (∀ l ∈ ls, l.IsBackend) →
      ∀ t, s.exec ls = some (.ok t) → ∀ x, t.net x = []) := by
  have hiff : (∃ x, (s.ep x).Emits) ↔ ∃ x, (s.ep x).CanSend :=
    exists_congr fun x => Endpoint.emits_iff (inRing_of_run hcap h x)
  refine ⟨(Sys.iterationSends_iff (inLoop_of_run h) hnet).trans hiff,
    fun hnone ls hls t hexec => ?_⟩
  have hsilent : s.Silent :=
    ⟨fun x => .loop (inLoop_of_run h x) fun hcan => hnone (hiff.mp ⟨x, hcan⟩), hnet⟩
  exact (hsilent.exec hls hexec).net

/-- The client fills the server's ring, learns that the window is closed, and has one
    byte more to send when the server's application reads. -/
def closedWindowLabels : List Label :=
  [.writeCall .client [1, 2, 3], .write .client] ++ silentIteration .client (fun _ => 0) ++
    receivingIteration .server 0 ++ receivingIteration .client 0 ++
    [.writeCall .client [4], .write .client, .read .server 3 .noFlag]

/-- A byte that is not acknowledged yet is sent again. -/
theorem no_stall_iff_lost : ∃ tr s,
    Run (systemFrom (smallConfig 4).established) (fun _ => True) tr s ∧
    (∀ x, s.net x = []) ∧ ∃ x, s.IterationSends x := by
  have hinit : Run (systemFrom (smallConfig 4).established) (fun _ => True) []
      (smallConfig 4).established := .init rfl trivial
  have hrun := hinit.exec ([.writeCall .client [7], .write .client] ++
    silentIteration .client (fun _ => 0) ++ [.lose .server 0]) rfl
  have hcap : ∀ x, 0 < (smallConfig 4).sendCapacity x := fun _ => show (0 : UInt32) < 4 by decide
  exact ⟨_, _, hrun, Side.forall_of .client rfl rfl,
    (no_stall_iff hcap hrun (Side.forall_of .client rfl rfl)).1.mpr ⟨.client, by decide⟩⟩

/-- The client's last byte is never sent, although the server has room for it. -/
theorem window_update_missing : ∃ tr s,
    Run (systemFrom (smallConfig 4).established) (fun _ => True) tr s ∧
    (∀ x, s.net x = []) ∧ sendBufferMaxNewDump (s.ep .client).sock.sendBuf = 1 ∧
    recvBufferMaxReceive (s.ep .server).sock.recvBuf = 3 ∧ ¬ ∃ x, s.IterationSends x := by
  have hinit : Run (systemFrom (smallConfig 4).established) (fun _ => True) []
      (smallConfig 4).established := .init rfl trivial
  have hrun := hinit.exec closedWindowLabels rfl
  have hnone := mt (Sys.iterationSends_iff (inLoop_of_run hrun)
    (Side.forall_of .client rfl rfl)).mp
  refine ⟨_, _, hrun, Side.forall_of .client rfl rfl, rfl, rfl, hnone ?_⟩
  rintro ⟨x, hemits⟩
  have hcap : ∀ x, 0 < (smallConfig 4).sendCapacity x := fun _ => show (0 : UInt32) < 4 by decide
  have hcan := (Endpoint.emits_iff (inRing_of_run hcap hrun x)).mp hemits
  revert hcan
  cases x <;> decide

end Runs

end CmuTcp
