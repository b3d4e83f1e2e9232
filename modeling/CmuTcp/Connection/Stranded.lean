import CmuTcp.Connection.Local
import CmuTcp.Connection.Moves

/-!
# Leaving Strands the Peer

A backend thread that leaves its loop does so when its own bytes are acknowledged, and then
nobody answers its peer any more.  What the peer can still come to regard as acknowledged is
what the packets on their way to it say; if that is not everything, the peer sends the rest
again and again, and its `cmu_close` never returns.

1. A thread that has left takes no step, so nothing new flies to its peer
   (`Sys.step_exited`), and loss and duplication add no ack number.
2. Hence a bound on the acks that the peer has taken, or that are on their way to it, stays a
   bound (`Sys.AcksUpTo`, `Sys.Moves.acked_le`), in every continuation.
3. A thread leaves only with everything acknowledged, which the bound excludes.

Main result: `exit_strands_peer`, and a run in which both sides close and one does not get out.
-/

namespace CmuTcp

open FaultSystem

/-! ## A thread that has left -/

section Exited

variable {s s' : Sys} {x : Side}

/-- An endpoint that is put back does not bring a thread back, and what flies to the other
    side comes from the thread that has left. -/
theorem Sys.put_exited {z : Side} {r : Endpoint × List Packet} (hx : (s.ep x).pc = .exited)
    (hr : z = x → r.1.pc = .exited ∧ r.2 = []) :
    ((s.put z r).ep x).pc = .exited ∧ (s.put z r).net x.other = s.net x.other := by
  revert hr
  refine Side.forall_of (P := fun z => (z = x → r.1.pc = .exited ∧ r.2 = []) →
    ((s.put z r).ep x).pc = .exited ∧ (s.put z r).net x.other = s.net x.other) x ?_ ?_ z
  · intro hr
    obtain ⟨hpc, hnone⟩ := hr rfl
    rw [Sys.ep_put_self, Sys.net_put_other, hnone, List.append_nil]
    exact ⟨hpc, rfl⟩
  · intro _
    rw [(s.put_other x r).1, Sys.net_put_self]
    exact ⟨hx, rfl⟩

/-- The thread takes no step, and the application can only pass data or close. -/
theorem Endpoint.act_exited {e e' : Endpoint} {ev : Event} {packets : List Packet}
    (he : e.pc = .exited) (hact : e.act ev = some (.ok (e', packets))) :
    e'.pc = .exited ∧ packets = [] := by
  cases ev with
  | backend now beyond => simp [Endpoint.act, backendSilent, he] at hact
  | receive now source pkt => simp [Endpoint.act, backendReceive, he] at hact
  | writeCall data =>
    obtain ⟨t, ht, hret⟩ := Option.map_eq_some_iff.mp hact
    obtain ⟨rfl, rfl⟩ := Prod.mk.inj (Except.ok.inj hret)
    obtain ⟨_, rfl⟩ := appWriteCall_eq_some ht
    exact ⟨he, rfl⟩
  | write => simp [Endpoint.act, appWrite, he, BackendPc.ended] at hact
  | read length flags => simp [Endpoint.act, appRead, he, BackendPc.ended] at hact
  | close =>
    obtain ⟨t, ht, hret⟩ := Option.map_eq_some_iff.mp hact
    obtain ⟨rfl, rfl⟩ := Prod.mk.inj (Except.ok.inj hret)
    obtain ⟨_, rfl⟩ := appClose_eq_some ht
    exact ⟨he, rfl⟩

/-- Nothing new flies to its peer. -/
theorem Sys.step_exited {l : Label} (hx : (s.ep x).pc = .exited)
    (hstep : s.step l = some (.ok s')) :
    (s'.ep x).pc = .exited ∧ ∀ p ∈ s'.net x.other, p ∈ s.net x.other := by
  cases Sys.step_local hstep with
  | @act z ev t e packets hep hnet _ hact =>
    have hx' : (t.ep x).pc = .exited := by rwa [hep]
    obtain ⟨hpc, hsame⟩ := Sys.put_exited (z := z) (r := (e, packets)) hx' (by
      rintro rfl
      exact Endpoint.act_exited hx hact)
    exact ⟨hpc, fun p hp => hnet _ p (hsame ▸ hp)⟩
  | net hep hnet => exact ⟨by rwa [hep], hnet _⟩

end Exited

/-! ## What its peer can learn -/

/-- No ack that `x` has taken, or that is on its way to it, is beyond `n`. -/
structure Sys.AcksUpTo (s : Sys) (x : Side) (n : ℕ) : Prop where
  taken : (s.ep x).sock.sendBuf.lastByteAckedSeqnum.toNat + 1 ≤ n
  inFlight : ∀ p ∈ s.net x, p.header.ackNum.toNat ≤ n

section Moves

variable {cfg : Config} {s s' : Sys} {out out' : Side → SendStream UInt8}
  {inn inn' : Side → Reassembly} {l : Label}

/-- What is acknowledged comes from the packets in flight, and what is written stays. -/
theorem Sys.Moves.acked_le (hm : Sys.Moves cfg s out inn l s' out' inn') (y : Side) {n : ℕ}
    (hacked : (cfg.isn y).toNat + (out y).acked + 1 ≤ n)
    (hflight : ∀ p ∈ s.net y, p.header.ackNum.toNat ≤ n) :
    (cfg.isn y).toNat + (out' y).acked + 1 ≤ n ∧
      (out y).written.length ≤ (out' y).written.length := by
  -- a side other than `y` leaves the streams of `y` alone
  have hupdate : ∀ {z : Side} {o : SendStream UInt8},
      (z = y → (cfg.isn z).toNat + o.acked + 1 ≤ n ∧ (out z).written <+: o.written) →
      (cfg.isn y).toNat + (Function.update out z o y).acked + 1 ≤ n ∧
        (out y).written.length ≤ (Function.update out z o y).written.length := by
    intro z o ho
    by_cases hz : z = y
    · obtain ⟨hle, hpre⟩ := ho hz
      subst hz
      rw [Function.update_self]
      exact ⟨hle, hpre.length_le⟩
    · rw [Function.update_of_ne (Ne.symm hz)]
      exact ⟨hacked, le_refl _⟩
  -- only an arriving ack moves the acked position, and its number is at most `n`
  cases hm with
  | idle _ _ hc => exact hupdate (by rintro rfl; exact ⟨hacked, hc.written⟩)
  | write hc ho _ _ =>
    apply hupdate
    rintro rfl
    rw [ho]
    exact ⟨hacked, hc.written⟩
  | read hc _ _ => exact hupdate (by rintro rfl; exact ⟨hacked, hc.written⟩)
  | receive hp hc hack _ _ _ _ =>
    apply hupdate
    rintro rfl
    refine ⟨?_, hc.written⟩
    have hle := hflight _ (List.mem_of_getElem? hp)
    show _ + max _ _ + 1 ≤ n
    omega
  | transmit _ _ _ hc _ _ _ => exact hupdate (by rintro rfl; exact ⟨hacked, hc.written⟩)
  | lose => exact ⟨hacked, le_refl _⟩
  | duplicate _ => exact ⟨hacked, le_refl _⟩

end Moves

/-! ## Every continuation -/

section Runs

variable {cfg : Config} {tr tr' : List (Sys × Label)} {s t : Sys}

/-- **Leaving strands the peer**: once the backend thread of `x` has left its loop, no run
    whatsoever makes its peer regard more as acknowledged than it does or than the packets in
    flight to it say; and if the peer has written more than that, its thread never leaves. -/
theorem exit_strands_peer (hcfg : cfg.Valid)
    (h : Run (systemFrom cfg.established) Sys.NoWrap tr s) {x : Side}
    (hx : (s.ep x).pc = .exited) {n : ℕ} (hacks : s.AcksUpTo x.other n)
    (h' : Run (systemFrom s) Sys.NoWrap tr' t) :
    t.AcksUpTo x.other n ∧
      (n < (getNextByteWrittenSeqnum (s.ep x.other).sock.sendBuf).toNat →
        (t.ep x.other).pc ≠ .exited) := by
  obtain ⟨out, inn, hinv⟩ := Sys.Invariant.of_run hcfg h
  have hwritten := (hinv.endpoint x.other).sock.sendBuf.getNextByteWrittenSeqnum
    (h.kept.sendBuf x.other)
  have hall : ∃ out' inn', t.Invariant cfg out' inn' ∧ (t.ep x).pc = .exited ∧
      t.AcksUpTo x.other n ∧ (out x.other).written.length ≤ (out' x.other).written.length := by
    refine h'.invariant (I := fun t => ∃ out' inn', t.Invariant cfg out' inn' ∧
      (t.ep x).pc = .exited ∧ t.AcksUpTo x.other n ∧
      (out x.other).written.length ≤ (out' x.other).written.length) ?_ ?_
    · rintro _ rfl _
      exact ⟨out, inn, hinv, hx, hacks, le_refl _⟩
    · rintro t l t' ⟨out', inn', hinv', hpc, hup, hle⟩ hw _ hstep
      obtain ⟨u, out'', inn'', hu, hm⟩ := hinv'.step hw hstep
      obtain rfl := Except.ok.inj hu
      obtain ⟨hpc', hnet⟩ := Sys.step_exited hpc hstep
      have hinv'' := hm.invariant hinv'
      have hbefore := (hinv'.endpoint x.other).sock.sendBuf.acked
      have hafter := (hinv''.endpoint x.other).sock.sendBuf.acked
      have htaken := hup.taken
      obtain ⟨hacked, hgrows⟩ := hm.acked_le x.other (show _ ≤ n by omega) hup.inFlight
      exact ⟨out'', inn'', hinv'', hpc', ⟨by omega, fun p hp => hup.inFlight p (hnet p hp)⟩,
        le_trans hle hgrows⟩
  obtain ⟨out', inn', hinv', _, hup, hle⟩ := hall
  refine ⟨hup, fun hn hexited => ?_⟩
  -- a thread leaves only with everything acknowledged
  have hleft := (hinv'.endpoint x.other).exited hexited
  have hacked := (hinv'.endpoint x.other).sock.sendBuf.acked
  have htaken := hup.taken
  omega

/-- Both sides close, the client has all that the server wrote, and the last ACK is lost. -/
def strandingLabels : List Label :=
  [.writeCall .server [7], .write .server] ++ silentIteration .server (fun _ => 0) ++
    receivingIteration .client 0 ++
    [.close .client, .backend .client 0 (fun _ => 0), .backend .client 0 (fun _ => 0),
      .lose .server 0, .close .server]

theorem exit_strands_peer_lost : ∃ tr s,
    Run (systemFrom (smallConfig 4).established) Sys.NoWrap tr s ∧
    (s.ep .client).pc = .exited ∧ recvBufferMaxRead (s.ep .client).sock.recvBuf = 1 ∧
    ∀ tr' t, Run (systemFrom s) Sys.NoWrap tr' t → (t.ep .server).pc ≠ .exited := by
  have hinit : Run (systemFrom (smallConfig 4).established) Sys.NoWrap []
      (smallConfig 4).established := .init rfl (by decide)
  have hrun := hinit.exec strandingLabels rfl
  refine ⟨_, _, hrun, rfl, rfl, fun tr' t h' => ?_⟩
  exact (exit_strands_peer (x := .client) (n := 501) (smallConfig_valid (by decide)) hrun rfl
    ⟨by decide, fun p hp => (List.not_mem_nil (show p ∈ ([] : List Packet) from hp)).elim⟩
    h').2 (by decide)

end Runs

end CmuTcp
