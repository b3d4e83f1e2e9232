import CmuTcp.Connection.Stall
import CmuTcp.Handshake.Agreement

/-!
# When the Handshake Gets Stuck

The client repeats its SYN on a timer, but its ACK is sent once and the server only
answers.  So once the client is `ESTABLISHED` the handshake needs its data: a lost ACK is
made up for by the next packet of a client that has something to send, and by nothing
else.

1. A client that is not established has a SYN to repeat, from the time on that the server
   has seen one (`Sys.SynKept`), so a timeout sends it.
2. An established client sends what it has to send.  None of its bytes is acknowledged before
   the server is established, so no copy starts after the wrap of its ring and kills it.
3. A half-open server sends only when a packet arrives.

Main result: `handshake_live_iff`, with the run that is stuck.
-/

namespace CmuTcp

open FaultSystem

/-! ## The SYN that the client keeps -/

/-- Before the client has a SYN to repeat, the server has not seen any. -/
structure Sys.SynKept (s : Sys) : Prop where
  first : (s.ep .client).pc = .entry → s.net .server = [] ∧ (s.ep .server).initCalls = []
  kept : (s.ep .client).pc ≠ .handshake none

section Steps

variable {cfg : Config} {s s' : Sys} {l : Label}

/-- Applications do nothing with an unopened endpoint. -/
theorem Endpoint.Unopened.backend_or_receive {e e' : Endpoint} {x : Side} {ev : Event}
    {packets : List Packet} (h : e.Unopened cfg x) (hact : e.act ev = some (.ok (e', packets))) :
    (∃ now beyond, CmuTcp.backendSilent e now beyond = some (.ok (e', packets))) ∨
    ∃ now source pkt, ev = .receive now source pkt ∧
      backendReceive e now source pkt = some (.ok (e', packets)) := by
  cases ev with
  | backend now beyond => exact Or.inl ⟨now, beyond, hact⟩
  | receive now source pkt => exact Or.inr ⟨now, source, pkt, rfl, hact⟩
  | writeCall data =>
    obtain ⟨_, he, _⟩ := Option.map_eq_some_iff.mp hact
    exact absurd (appWriteCall_appStep he) h.not_appStep
  | write =>
    obtain ⟨_, he, _⟩ := Option.map_eq_some_iff.mp hact
    exact absurd (appWrite_appStep he) h.not_appStep
  | read length flags =>
    obtain ⟨_, he, _⟩ := Option.map_eq_some_iff.mp hact
    exact absurd (appRead_appStep he) h.not_appStep
  | close =>
    obtain ⟨_, he, _⟩ := Option.map_eq_some_iff.mp hact
    exact absurd (appClose_appStep he) h.not_appStep

/-- A step of the unopened client leaves a SYN to repeat, or opens the client. -/
theorem Endpoint.Unopened.keepsSyn {e e' : Endpoint} {ev : Event} {packets : List Packet}
    (h : e.Unopened cfg .client) (hkept : e.pc ≠ .handshake none)
    (hact : e.act ev = some (.ok (e', packets))) :
    e'.pc ≠ .entry ∧ e'.pc ≠ .handshake none := by
  have htype : e.sock.type = .tcpInitiator := h.type
  rcases h.backend_or_receive hact with ⟨now, beyond, hsilent⟩ | ⟨now, source, pkt, _, hreceive⟩
  · rcases h.pc with ⟨hpc, _⟩ | ⟨packet, hpc, _, _⟩
    · -- `create_packet` does not refuse the SYN
      obtain ⟨syn, hsyn⟩ : ∃ syn, createPacket e.sock.myPort e.sock.conn.sinPort
          e.sock.window.lastAckReceived 0 headerLen headerLen synFlagMask cp1WindowSize [] 0 =
            some syn := ⟨_, rfl⟩
      simp only [CmuTcp.backendSilent, hpc, enterHandshake, htype, initHandshakeClient,
        cAssert_of, hsyn, bind, Except.bind, pure, Except.pure, Option.some.injEq, Except.ok.injEq,
        Prod.mk.injEq] at hsilent
      rw [← hsilent.1]
      exact ⟨by simp, by simp⟩
    -- a timeout sends the kept SYN and keeps it
    · simp only [CmuTcp.backendSilent, hpc, htype, clientIteration, initHandshakeClientIteration,
        bind, Except.bind, pure, Except.pure, Option.some.injEq, Except.ok.injEq,
        Prod.mk.injEq] at hsilent
      rw [← hsilent.1]
      exact ⟨by simp, hpc ▸ hkept⟩
  · rcases h.pc with ⟨hpc, _⟩ | ⟨packet, hpc, _, _⟩
    · simp only [backendReceive, hpc] at hreceive
      exact absurd hreceive (by simp)
    -- a packet leaves the kept SYN alone
    · simp only [backendReceive, hpc, CmuSocket.heardFrom, htype, clientIteration] at hreceive
      obtain ⟨_, _, hret⟩ := ok_of_bind_ok (Option.some.inj hreceive)
      obtain ⟨rfl, _⟩ := Prod.mk.inj (Except.ok.inj hret)
      exact ⟨by simp, by simp⟩

theorem Sys.SynKept.step (h : s.SynKept) (hs : s.Staged cfg)
    (hstep : s.step l = some (.ok s')) : s'.SynKept := by
  -- a step that moves no endpoint cannot put a packet on an empty network
  cases Sys.step_local hstep with
  | net hep hnet =>
    refine ⟨fun hpc => ?_, hep ▸ h.kept⟩
    obtain ⟨hnil, hcalls⟩ := h.first (hep ▸ hpc)
    exact ⟨List.eq_nil_iff_forall_not_mem.mpr fun p hp => by simpa [hnil] using hnet .server p hp,
      hep ▸ hcalls⟩
  | @act x ev t e packets hep hnet hfrom hact =>
    -- the client keeps its SYN from its first step on
    cases x with
    | client =>
      have hpc : e.pc ≠ .entry ∧ e.pc ≠ .handshake none := by
        rcases hs.client_cases with hc | hc
        · exact hc.keepsSyn h.kept hact
        · have hloop : (s.ep .client).InLoop := ⟨hc.notEntry, hc.notHandshake⟩
          have hloop' := (hloop.act hact).inLoop hloop
          exact ⟨hloop'.notEntry, hloop'.notHandshake none⟩
      have hep' : (t.put .client (e, packets)).ep .client = e := Sys.ep_put_self ..
      exact ⟨fun hentry => absurd (hep' ▸ hentry) hpc.1, by rw [hep']; exact hpc.2⟩
    -- the server has not opened before the client's first SYN arrives
    | server =>
      have hep' : (t.put .server (e, packets)).ep .client = s.ep .client :=
        (Sys.ep_put_other t .server _).trans (by rw [hep]; rfl)
      refine ⟨fun hpc => ?_, hep' ▸ h.kept⟩
      obtain ⟨hnil, hcalls⟩ := h.first (hep' ▸ hpc)
      have hd : (s.ep .server).Unopened cfg .server := by
        cases hs with
        | opening _ hd _ _ => exact hd
        | halfOpen _ hd _ _ => exact absurd (hd.initCalls.symm.trans hcalls) (by simp)
        | clientOpen _ hd _ _ _ _ => exact absurd (hd.initCalls.symm.trans hcalls) (by simp)
        | bothOpen _ hd _ _ => exact absurd (hd.initCalls.symm.trans hcalls) (by simp)
      rw [Sys.net_put_self, Sys.ep_put_self]
      refine ⟨List.eq_nil_iff_forall_not_mem.mpr fun p hp => ?_, ?_⟩
      · simpa [hnil] using hnet .server p hp
      · -- nothing can arrive
        rcases hd.backend_or_receive hact with ⟨now, beyond, hsilent⟩ | ⟨now, source, pkt, hev, _⟩
        · obtain ⟨e'', packets', hr, hd', _⟩ := hd.backendSilent hsilent
          obtain ⟨rfl, rfl⟩ := Prod.mk.inj (Except.ok.inj hr)
          exact hd'.initCalls
        · simpa [hnil] using (hfrom now source pkt hev).1

theorem synKept_of_run {tr : List (Sys × Label)} (hisn : (cfg.isn .server).toNat < 2 ^ 31)
    (h : Run (systemFrom cfg.created) (fun _ => True) tr s) : s.SynKept := by
  have hboth : s.Staged cfg ∧ s.SynKept := by
    apply h.invariant (I := fun t => t.Staged cfg ∧ t.SynKept)
    · rintro s rfl _
      exact ⟨cfg.created_staged, fun _ => ⟨rfl, rfl⟩, by simp [Config.created]⟩
    · intro s l s' hs _ _ hstep
      exact ⟨((hs.1.step hisn hstep).next s' rfl).1, hs.2.step hs.1 hstep⟩
  exact hboth.2

end Steps

/-! ## Who sends -/

section Stuck

variable {cfg : Config} {s : Sys}

/-- A client that is not established repeats its SYN. -/
theorem Sys.Staged.client_repeats (h : s.Staged cfg) (hkept : s.SynKept)
    (hsyn : (s.ep .server).initCalls ≠ [])
    (hclient : (s.ep .client).sock.state ≠ .established) : s.IterationSends .client := by
  have hc := h.client_cases.resolve_right fun hc => hclient hc.state
  have htype : (s.ep .client).sock.type = .tcpInitiator := hc.type
  rcases hc.pc with ⟨hpc, _⟩ | ⟨packet, hpc, _, _⟩
  · exact absurd (hkept.first hpc).2 hsyn
  · cases packet with
    | none => exact absurd hpc hkept.kept
    | some syn =>
      obtain ⟨e, hstep⟩ : ∃ e, backendSilent (s.ep .client) 0 (fun _ => 0) =
          some (.ok (e, [syn])) := by
        simp only [backendSilent, hpc, htype, clientIteration, initHandshakeClientIteration, bind,
          Except.bind, pure, Except.pure]
        exact ⟨_, rfl⟩
      refine ⟨0, fun _ => 0, 1, _, by decide, Sys.exec_cons (Sys.step_backend hstep) [], ?_⟩
      rw [Sys.net_put_other]
      simp

/-- A server that waits for the ACK is quiet, and so is an established client that has
    nothing to send. -/
theorem Sys.Staged.silent (h : s.Staged cfg) (hnet : ∀ x, s.net x = [])
    (hopen : ∃ x, (s.ep x).sock.state ≠ .established)
    (hclient : (s.ep .client).sock.state = .established)
    (hsay : ¬ ((s.ep .client).StaysInLoop ∧ (s.ep .client).sock.HasToSend)) : s.Silent := by
  have hc := h.open_of_established .client hclient
  have hquiet : (s.ep .client).Quiet :=
    .loop ⟨hc.notEntry, hc.notHandshake⟩ fun hemits => hsay ⟨hemits.1, hemits.2.1⟩
  refine ⟨Side.forall_of .client hquiet ?_, hnet⟩
  cases h with
  | opening hc _ _ _ => exact absurd hclient hc.state_ne
  | halfOpen hc _ _ _ => exact absurd hclient hc.state_ne
  | clientOpen _ hd _ _ _ _ =>
    obtain ⟨packet, hpc, _⟩ := hd.pc
    exact .blocked hpc hd.type
  | bothOpen hc hd _ _ =>
    obtain ⟨x, hx⟩ := hopen
    cases x with
    | client => exact absurd hclient hx
    | server => exact absurd hd.state hx

/-- The server has acknowledged nothing before it is established, so no copy of the client
    starts after the wrap of its ring: what the client has to send it sends. -/
theorem Sys.Staged.client_emits (h : s.Staged cfg)
    (hopen : ∃ x, (s.ep x).sock.state ≠ .established)
    (hclient : (s.ep .client).sock.state = .established)
    (hsay : (s.ep .client).sock.HasToSend) : (s.ep .client).sock.Emits := by
  refine ⟨hsay, or_iff_not_imp_left.mpr fun hnone => ?_⟩
  obtain ⟨hfresh, hwindow⟩ := hsay.resolve_left hnone
  refine firstCopyStays_of_zero ?_ hnone (freshSendLen_pos_of hfresh hwindow hnone)
  cases h with
  | opening hc _ _ _ => exact hc.acked
  | halfOpen hc _ _ _ => exact hc.acked
  | clientOpen _ _ _ hacked _ _ => exact hacked
  | bothOpen _ hd _ _ =>
    obtain ⟨x, hx⟩ := hopen
    cases x with
    | client => exact absurd hclient hx
    | server => exact absurd hd.state hx

theorem Sys.Staged.iterationSends_iff (h : s.Staged cfg) (hkept : s.SynKept)
    (hsyn : (s.ep .server).initCalls ≠ []) (hopen : ∃ x, (s.ep x).sock.state ≠ .established)
    (hnet : ∀ x, s.net x = []) : (∃ x, s.IterationSends x) ↔
      (s.ep .client).sock.state ≠ .established ∨
        (s.ep .client).StaysInLoop ∧ (s.ep .client).sock.HasToSend := by
  constructor
  · intro hsends
    by_contra hnone
    obtain ⟨hclient, hsay⟩ := not_or.mp hnone
    exact (h.silent hnet hopen (not_not.mp hclient) hsay).not_iterationSends hsends
  · intro hor
    by_cases hclient : (s.ep .client).sock.state = .established
    · obtain ⟨hstays, hsay⟩ := hor.resolve_left (not_not.mpr hclient)
      exact ⟨.client, Sys.iterationSends_of_emits ⟨hstays, h.client_emits hopen hclient hsay⟩⟩
    · exact ⟨.client, h.client_repeats hkept hsyn hclient⟩

/-! ## Runs -/

variable {tr : List (Sys × Label)}

/-- **When the handshake goes on**: the server has received the SYN, an end is not
    `ESTABLISHED`, and nothing is in flight.  Then a step of a backend thread sends a
    packet if and only if the client is not `ESTABLISHED` or has something to send.
    If not, nothing will ever be sent without a new call of an application. -/
theorem handshake_live_iff (hisn : ∀ x, (cfg.isn x).toNat < 2 ^ 31)
    (h : Run (systemFrom cfg.created) (fun _ => True) tr s)
    (hsyn : (s.ep .server).initCalls ≠ []) (hopen : ∃ x, (s.ep x).sock.state ≠ .established)
    (hnet : ∀ x, s.net x = []) :
    ((∃ x, s.IterationSends x) ↔ (s.ep .client).sock.state ≠ .established ∨
      (s.ep .client).StaysInLoop ∧ (s.ep .client).sock.HasToSend) ∧
    (¬ ((s.ep .client).sock.state ≠ .established ∨
        (s.ep .client).StaysInLoop ∧ (s.ep .client).sock.HasToSend) →
      ∀ ls, (∀ l ∈ ls, l.IsBackend) → ∀ t, s.exec ls = some (.ok t) → ∀ x, t.net x = []) := by
  have hstaged := Sys.Staged.of_run (hisn .server) h
  refine ⟨hstaged.iterationSends_iff (synKept_of_run (hisn .server) h) hsyn hopen hnet, ?_⟩
  intro hnone ls hls t hexec
  obtain ⟨hclient, hsay⟩ := not_or.mp hnone
  exact ((hstaged.silent hnet hopen (not_not.mp hclient) hsay).exec hls hexec).net

/-- The SYN-ACK arrives, and the ACK of the client is lost. -/
def lostAckLabels : List Label :=
  [.backend .client 0 (fun _ => 0), .backend .server 0 (fun _ => 0), .receive .server 0 0,
    .receive .client 0 0, .lose .server 0]

/-- The ACK is lost, and the client has data: the handshake goes on. -/
theorem handshake_live_iff_data : ∃ tr s,
    Run (systemFrom (smallConfig 4).created) (fun _ => True) tr s ∧
    (s.ep .server).sock.state = .synRcvd ∧ (∀ x, s.net x = []) ∧ ∃ x, s.IterationSends x := by
  have hinit : Run (systemFrom (smallConfig 4).created) (fun _ => True) []
      (smallConfig 4).created := .init rfl trivial
  have hrun := hinit.exec (lostAckLabels ++ [.writeCall .client [7], .write .client]) rfl
  refine ⟨_, _, hrun, rfl, Side.forall_of .client rfl rfl, ?_⟩
  refine (handshake_live_iff (fun x => ?_) hrun (by decide) ⟨.server, by decide⟩
    (Side.forall_of .client rfl rfl)).1.mpr (Or.inr (by decide))
  cases x <;> decide

/-- The ACK is lost, and the client has no data: both ends wait for ever. -/
theorem handshake_stuck : ∃ tr s,
    Run (systemFrom (smallConfig 4).created) (fun _ => True) tr s ∧
    (s.ep .server).initCalls ≠ [] ∧ (s.ep .server).sock.state = .synRcvd ∧
    (∀ x, s.net x = []) ∧ ¬ ∃ x, s.IterationSends x := by
  have hinit : Run (systemFrom (smallConfig 4).created) (fun _ => True) []
      (smallConfig 4).created := .init rfl trivial
  have hrun := hinit.exec lostAckLabels rfl
  have hsilent := (Sys.Staged.of_run (by decide) hrun).silent (Side.forall_of .client rfl rfl)
    ⟨.server, by decide⟩ rfl (by decide)
  exact ⟨_, _, hrun, by decide, rfl, Side.forall_of .client rfl rfl, hsilent.not_iterationSends⟩

end Stuck

end CmuTcp
