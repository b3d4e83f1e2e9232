import CmuTcp.Handshake.Stages

/-!
# What the Handshake Agrees on, and What Aborts It

Two theorems about every run from two sockets just created, into the loops of both
backends and whatever the applications do.  The two ends agree on their initial sequence
numbers and on what is acknowledged.  And the asserts that look at handshake packets hold,
except where a SYN or a SYN-ACK that was sent again reaches an endpoint in its loop.

Both are read off the stage that the run is in.  For the agreement, a stage says of each
endpoint in which phase it is, and a phase has the numbers (`Sys.Staged.agrees`).  For the
aborts, a step from a stage fails only if it delivers a SYN, and one that does cannot help
failing.

Main results: `handshake_agreement`, `handshake_aborts_iff`.
-/

namespace CmuTcp

open FaultSystem

variable {cfg : Config} {tr : List (Sys × Label)} {s : Sys}

/-! ## Agreement -/

/-- What the two ends have agreed on. -/
structure Sys.Agrees (s : Sys) (cfg : Config) : Prop where
  clientFirst : (s.ep .server).sock.state = .established →
    (s.ep .client).sock.state = .established
  -- one call of `recv_buffer_initialize`, with the sequence number of the peer
  initialized : ∀ x, (s.ep x).sock.state = .established → (s.ep x).initCalls = [cfg.isn x.other]
  -- until an ack of data is handled
  lastAck : ∀ x, (s.ep x).sock.state = .established →
    (∀ a ∈ (s.ep x).acksHandled, a ≤ cfg.isn x + 1) →
    (s.ep x).sock.window.lastAckReceived = cfg.isn x + 1

theorem Sys.Staged.client_cases (h : s.Staged cfg) :
    (s.ep .client).Unopened cfg .client ∨ (s.ep .client).Open cfg .client := by
  cases h with
  | opening hc _ _ _ => exact Or.inl hc
  | halfOpen hc _ _ _ => exact Or.inl hc
  | clientOpen hc _ _ _ _ _ => exact Or.inr hc
  | bothOpen hc _ _ _ => exact Or.inr hc

/-- An established endpoint is open. -/
theorem Sys.Staged.open_of_established (h : s.Staged cfg) (x : Side)
    (hest : (s.ep x).sock.state = .established) : (s.ep x).Open cfg x := by
  cases x with
  | client => exact h.client_cases.resolve_left fun hc => hc.state_ne hest
  | server =>
    cases h with
    | opening _ hd _ _ => exact absurd hest hd.state_ne
    | halfOpen _ hd _ _ => exact absurd (hd.state.symm.trans hest) (by decide)
    | clientOpen _ hd _ _ _ _ => exact absurd (hd.state.symm.trans hest) (by decide)
    | bothOpen _ hd _ _ => exact hd

theorem Sys.Staged.agrees (h : s.Staged cfg) : s.Agrees cfg where
  clientFirst hest := by
    have hopen := h.open_of_established .server hest
    cases h with
    | opening _ hd _ _ => exact absurd hest hd.state_ne
    | halfOpen _ hd _ _ => exact absurd (hd.state.symm.trans hest) (by decide)
    | clientOpen hc _ _ _ _ _ => exact hc.state
    | bothOpen hc _ _ _ => exact hc.state
  initialized x hest := (h.open_of_established x hest).initCalls
  lastAck x hest := (h.open_of_established x hest).lastAck

/-- **Handshake agreement**: in every state of a run the ends agree, and a step that
    initializes a receive buffer or enters `ESTABLISHED` leaves the sequence numbers that
    belong to the two initial ones. -/
theorem handshake_agreement (hisn : ∀ x, (cfg.isn x).toNat < 2 ^ 31)
    (h : Run (systemFrom cfg.created) (fun _ => True) tr s) :
    s.Agrees cfg ∧ ∀ l s', s.step l = some (.ok s') →
      ∀ x, (s.ep x).Enters (s'.ep x) cfg x := by
  have hstaged := Sys.Staged.of_run (hisn .server) h
  exact ⟨hstaged.agrees, fun l s' hstep => ((hstaged.step (hisn .server) hstep).next s' rfl).2⟩

/-- The ACK of the client is lost, and its first data packet completes the handshake. -/
theorem handshake_agreement_on_data : ∃ tr s,
    Run (systemFrom (smallConfig 4).created) (fun _ => True) tr s ∧
    (s.ep .server).sock.state = .established ∧ s.Agrees (smallConfig 4) := by
  have hinit : Run (systemFrom (smallConfig 4).created) (fun _ => True) []
      (smallConfig 4).created := .init rfl trivial
  have hrun := hinit.exec ([.backend .client 0 (fun _ => 0), .backend .server 0 (fun _ => 0),
    .receive .server 0 0, .receive .client 0 0, .lose .server 0,
    .writeCall .client [7], .write .client] ++
    silentIteration .client (fun _ => 0) ++ [.receive .server 0 0]) rfl
  refine ⟨_, _, hrun, rfl, (handshake_agreement (fun x => ?_) hrun).1⟩
  cases x <;> decide

/-! ## Aborts -/

/-- **When an endpoint aborts**: in every state of a run, a step violates an assert of
    `init_handshake_client`, `init_handshake_server`, `recv_buffer_initialize` or
    `handle_message` if and only if it delivers a SYN or a SYN-ACK to an endpoint that is
    in its loop. -/
theorem handshake_aborts_iff (hisn : ∀ x, (cfg.isn x).toNat < 2 ^ 31)
    (h : Run (systemFrom cfg.created) (fun _ => True) tr s) (l : Label) :
    (∃ f, s.step l = some (.error f) ∧ f.ofHandshake = true) ↔ l.DeliversSyn s := by
  constructor
  · rintro ⟨f, hstep, hsite⟩
    exact ((Sys.Staged.of_run (hisn .server) h).step (hisn .server) hstep).fault f rfl hsite
  · intro hl
    cases l with
    | receive x now i =>
      obtain ⟨hpc, p, hp, hsyn⟩ := hl
      have hp' : (s.net x)[i]? = some p := hp
      obtain ⟨f, hf, hsite⟩ := backendReceive_syn hpc hsyn now (s.addr x.other)
      exact ⟨f, by simp only [Sys.step, hp', hf]; rfl, hsite⟩
    | _ => exact hl.elim

/-- The client is in its loop, and the SYN-ACK has been sent twice because the client's
    timeout was shorter than the way there and back. -/
theorem secondSynAck_run : ∃ tr s, Run (systemFrom (smallConfig 4).created) (fun _ => True) tr s ∧
    (s.ep .client).pc = .checkData ∧
    s.step (.receive .client 0 0) = some (.error (.assertion .handleMessageSyn)) := by
  have hinit : Run (systemFrom (smallConfig 4).created) (fun _ => True) []
      (smallConfig 4).created := .init rfl trivial
  have hrun := hinit.exec ([.backend .client 0 (fun _ => 0), .backend .client 0 (fun _ => 0),
    .backend .server 0 (fun _ => 0), .receive .server 0 0, .receive .server 0 0,
    .receive .client 0 0, .backend .client 0 (fun _ => 0),
    .backend .client 0 (fun _ => 0)] : List Label) rfl
  exact ⟨_, _, hrun, rfl, rfl⟩

theorem handshake_aborts_iff_secondSynAck : ∃ tr s,
    Run (systemFrom (smallConfig 4).created) (fun _ => True) tr s ∧
    (Label.receive .client 0 0).DeliversSyn s := by
  obtain ⟨tr, s, hrun, _, hstep⟩ := secondSynAck_run
  refine ⟨tr, s, hrun, (handshake_aborts_iff (fun x => ?_) hrun _).mp ⟨_, hstep, rfl⟩⟩
  cases x <;> decide

/-- A retransmitted SYN-ACK aborts the client. -/
theorem handshake_aborted : ∃ tr s l,
    Run (systemFrom (smallConfig 4).created) (fun _ => True) tr s ∧
    ∃ f, s.step l = some (.error f) ∧ f.ofHandshake = true := by
  obtain ⟨tr, s, hrun, _, hstep⟩ := secondSynAck_run
  exact ⟨tr, s, _, hrun, _, hstep, rfl⟩

end CmuTcp
