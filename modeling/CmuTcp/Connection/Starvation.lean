import CmuTcp.Connection.Completion

/-!
# Starvation

A receiver whose window opens again does not say so.  With nothing in flight, a side that
waits for a window gets one only if its peer has something to send.  Otherwise it waits for
ever, whatever the threads and the network do and the applications read: so the condition
under which delivery stays possible is exact.

1. An endpoint that has nothing to send puts nothing on the network in any step but the
   handling of a packet (`Endpoint.LoopAct.silent`), and a starving one goes on starving.
2. If nothing is in flight and neither side has anything to send, no step changes that but a
   new `cmu_write` (`Sys.Starves.step`), so it is so in every continuation.
3. Together with the continuation that completes when the side does not starve, or its peer
   has something to send, this is `completion_iff`.
-/

namespace CmuTcp

open FaultSystem

/-! ## Endpoints that have nothing to send -/

section Endpoints

variable {e e' : Endpoint} {packets : List Packet} {ev : Event} {isn peerIsn : ℕ}
  {out : SendStream UInt8} {inn : Reassembly}

theorem Endpoint.Starved.not_hasToSend (h : e.Starved) : ¬ e.sock.HasToSend := by
  rintro (hunacked | ⟨_, hwindow⟩)
  · rw [h.unacked] at hunacked
    exact absurd hunacked (by decide)
  · rw [h.window] at hwindow
    exact absurd hwindow (by decide)

/-- Without a packet that arrives and without a new `cmu_write`, such an endpoint sends
    nothing and keeps its window; and it keeps its send buffer, too, unless the `cmu_write` in
    progress goes on. -/
theorem Endpoint.LoopAct.silent (h : e.LoopAct ev e' packets) (hsay : ¬ e.sock.HasToSend)
    (hreceive : ∀ now source pkt, ev ≠ .receive now source pkt)
    (hcall : ∀ data, ev ≠ .writeCall data) :
    packets = [] ∧ e'.sock.window = e.sock.window ∧
      (e'.sock.sendBuf = e.sock.sendBuf ∧ e'.pending = e.pending ∨
        e.pending ≠ [] ∧ cmuWriteIteration e.sock e.pending =
          .ok (e'.pending, { e.sock with sendBuf := e'.sock.sendBuf })) := by
  cases h with
  | advance _ _ _ _ _ => exact ⟨rfl, rfl, Or.inl ⟨rfl, rfl⟩⟩
  | @transmit now beyond sent _ hsent =>
    obtain ⟨r, hr, hnone, _⟩ := transmit_cases e.sock now beyond
    obtain rfl := Except.ok.inj (hsent.symm.trans hr)
    obtain ⟨hsame, hpackets⟩ := hnone fun hemits => hsay hemits.1
    exact ⟨hpackets, rfl, Or.inl ⟨hsame, rfl⟩⟩
  | receive _ _ => exact absurd rfl (hreceive _ _ _)
  | writeCall _ _ _ => exact absurd rfl (hcall _)
  | write hpending _ hwrite => exact ⟨rfl, rfl, Or.inr ⟨hpending, hwrite⟩⟩
  | read _ => exact ⟨rfl, rfl, Or.inl ⟨rfl, rfl⟩⟩
  | close _ => exact ⟨rfl, rfl, Or.inl ⟨rfl, rfl⟩⟩

/-- A starving endpoint goes on starving: what `cmu_write` takes only gets into the ring. -/
theorem Endpoint.Starved.act (h : e.Starved) (href : e.Refines isn peerIsn out inn)
    (hw : e.sock.sendBuf.NoWrap) (hact : e.LoopAct ev e' packets)
    (hreceive : ∀ now source pkt, ev ≠ .receive now source pkt)
    (hcall : ∀ data, ev ≠ .writeCall data) : e'.Starved ∧ packets = [] := by
  -- one silent step changes nothing, except that `cmu_write` may move bytes to the ring
  obtain ⟨hnone, hwindow, ⟨hsame, hpending⟩ | ⟨hpending, hwrite⟩⟩ :=
    hact.silent h.not_hasToSend hreceive hcall
  · exact ⟨⟨by rw [hsame, h.unacked], by rw [hwindow, h.window],
      by rw [hsame, hpending]; exact h.rest⟩, hnone⟩
  · obtain ⟨n, sb, hn, hmin, hwrite', hsb, _, _⟩ := cmuWriteIteration_refines href.sock.sendBuf
      (href.sock.sendBuf.indicesFit hw) (lt_trans href.pending (by decide))
    rw [hwrite] at hwrite'
    obtain ⟨hrest, hsock⟩ := Prod.mk.inj (Except.ok.inj hwrite')
    have hsendBuf : e'.sock.sendBuf = sb := congrArg CmuSocket.sendBuf hsock
    have hunacked := href.sock.sendBuf.getUnacknowledgedCount
    have hunacked' := hsb.getUnacknowledgedCount
    have hfresh := hsb.sendBufferMaxNewDump
    rw [h.unacked] at hunacked
    have hwritten : (out.write (e.pending.take n) hn).written = out.written ++ e.pending.take n :=
      rfl
    have hsent : (out.write (e.pending.take n) hn).sent = out.sent := rfl
    rw [hwritten, hsent, List.length_append, List.length_take] at hfresh
    refine ⟨⟨?_, by rw [hwindow, h.window], ?_⟩, hnone⟩
    · rw [hsendBuf]
      apply UInt32.toNat_inj.mp
      rw [hunacked', hunacked]
      rfl
    · rw [hsendBuf, hrest]
      -- a full ring took no byte, and then the application still holds them
      have hle := out.sent_le_written
      have hpos := List.length_pos_iff.mpr hpending
      by_cases hzero : n = 0
      · rw [hzero, List.drop_zero]
        exact Or.inr hpending
      · left
        intro hnil
        rw [hnil, UInt32.toNat_zero] at hfresh
        omega

/-- So its thread does not leave. -/
theorem Endpoint.Starved.pc_ne (h : e.Starved) (href : e.Refines isn peerIsn out inn) :
    e.pc ≠ .exited := by
  intro hexited
  have hpending := href.dying (href.leaving (Or.inr hexited))
  have hacked := href.exited hexited
  have hfresh := href.sock.sendBuf.sendBufferMaxNewDump
  have hsent := out.acked_le_sent
  rcases h.rest with hrest | hrest
  · apply hrest
    apply UInt32.toNat_inj.mp
    rw [hfresh, UInt32.toNat_zero]
    omega
  · exact hrest hpending

end Endpoints

/-! ## Steps of the system -/

/-- Nothing is in flight, `x` starves, and its peer has nothing to send and no `cmu_write` in
    progress. -/
structure Sys.Starves (x : Side) (s : Sys) : Prop where
  net : ∀ z, s.net z = []
  starved : (s.ep x).Starved
  silent : ¬ (s.ep x.other).sock.HasToSend
  idle : (s.ep x.other).pending = []

section Steps

variable {cfg : Config} {x : Side} {s t : Sys} {out : Side → SendStream UInt8}
  {inn : Side → Reassembly}

/-- A step of one of the endpoints. -/
theorem Sys.Starves.put (h : s.Starves x) (hinv : s.Invariant cfg out inn) (hw : s.NoWrap)
    {u : Sys} {z : Side} {ev : Event} {e : Endpoint} {packets : List Packet} (hep : u.ep = s.ep)
    (hnet : ∀ y, u.net y = []) (hact : (s.ep z).LoopAct ev e packets)
    (hreceive : ∀ now source pkt, ev ≠ .receive now source pkt)
    (hcall : ∀ data, ev ≠ .writeCall data) : (u.put z (e, packets)).Starves x := by
  have hquiet : packets = [] → ∀ y, (u.put z (e, packets)).net y = [] := by
    rintro rfl
    refine Side.forall_of z ?_ ?_
    · rw [Sys.net_put_self, hnet]
    · rw [Sys.net_put_other, hnet]
      rfl
  by_cases hz : z = x
  · subst hz
    obtain ⟨hstarved, hnone⟩ := h.starved.act (hinv.endpoint z) (hw.sendBuf z) hact hreceive hcall
    exact ⟨hquiet hnone, by rwa [Sys.ep_put_self], by rw [Sys.ep_put_other, hep]; exact h.silent,
      by rw [Sys.ep_put_other, hep]; exact h.idle⟩
  · obtain rfl := Side.eq_other hz
    obtain ⟨hnone, hwindow, ⟨hsame, hpending⟩ | ⟨hpending, _⟩⟩ :=
      hact.silent h.silent hreceive hcall
    · refine ⟨hquiet hnone, by rw [(u.put_other x _).1, hep]; exact h.starved, ?_, ?_⟩
      · rw [Sys.ep_put_self, CmuSocket.HasToSend, hsame, hwindow]
        exact h.silent
      · rw [Sys.ep_put_self, hpending, h.idle]
    · exact absurd h.idle hpending

/-- No step but a new `cmu_write` ends it. -/
theorem Sys.Starves.step (h : s.Starves x) (hinv : s.Invariant cfg out inn) (hw : s.NoWrap)
    {l : Label} (hl : ∀ z data, l ≠ .writeCall z data) (hstep : s.step l = some (.ok t)) :
    t.Starves x := by
  have hloop : ∀ z, (s.ep z).InLoop := fun z =>
    ⟨(hinv.endpoint z).notEntry, (hinv.endpoint z).notHandshake⟩
  have hnone : ∀ {u : Sys}, (∀ y, ∀ p ∈ u.net y, p ∈ s.net y) → ∀ y, u.net y = [] := by
    intro u hnet y
    apply List.eq_nil_iff_forall_not_mem.mpr
    intro p hp
    have hmem := hnet y p hp
    rw [h.net] at hmem
    exact List.not_mem_nil hmem
  rcases Sys.step_does hloop hstep with
    ⟨z, ev, e, packets, u, hdoes, hep, hact, rfl, hnet⟩ | ⟨hep, hnet⟩
  · apply h.put hinv hw hep (hnone hnet) hact
    · rintro now source pkt rfl
      cases hdoes with
      | receive hpkt => simp [h.net] at hpkt
    · rintro data rfl
      cases hdoes
      exact absurd rfl (hl _ _)
  · exact ⟨hnone hnet, by rw [hep]; exact h.starved, by rw [hep]; exact h.silent,
      by rw [hep]; exact h.idle⟩

end Steps

/-! ## Every continuation -/

section Runs

variable {cfg : Config} {tr tr' : List (Sys × Label)} {s t : Sys}

/-- It starves in every continuation, and its thread never leaves. -/
theorem Sys.Starves.of_run (hcfg : cfg.Valid)
    (h : Run (systemFrom cfg.established) Sys.NoWrap tr s) {x : Side} (hs : s.Starves x)
    (h' : Run (systemFrom s) Sys.NoWrap tr' t)
    (hlabels : ∀ p ∈ tr', ∀ z data, p.2 ≠ .writeCall z data) :
    t.Starves x ∧ (t.ep x).pc ≠ .exited := by
  obtain ⟨out, inn, hinv, hstarves⟩ : ∃ out inn, t.Invariant cfg out inn ∧ t.Starves x := by
    refine h'.invariant_of_steps (I := fun t => ∃ out inn, t.Invariant cfg out inn ∧ t.Starves x)
      (C := fun _ l => ∀ z data, l ≠ .writeCall z data) ?_ ?_ hlabels
    · rintro _ rfl _
      obtain ⟨out, inn, hinv⟩ := Sys.Invariant.of_run hcfg h
      exact ⟨out, inn, hinv, hs⟩
    · rintro t l t' ⟨out, inn, hinv, hstarves⟩ hw _ hl hstep
      obtain ⟨u, out', inn', hu, hm⟩ := hinv.step hw hstep
      obtain rfl := Except.ok.inj hu
      exact ⟨out', inn', hm.invariant hinv, hstarves.step hinv hw hl hstep⟩
  exact ⟨hstarves, hstarves.starved.pc_ne (hinv.endpoint x)⟩

/-- **When delivery stays possible**: with nothing in flight, and no `cmu_write` of the peer in
    progress, some continuation without a new `cmu_write` lets the thread of `x` leave, so that
    `cmu_close` returns, if and only if `x` does not starve, or its peer has something to
    send; provided that no side has passed as many bytes as its ring has cells. -/
theorem completion_iff (hcfg : cfg.Valid)
    (h : Run (systemFrom cfg.established) Sys.NoWrap tr s) (x : Side)
    (hcap : (cfg.recvCapacity x.other).toNat ≤ 65535)
    (hopen : (s.ep x.other).sock.dying = false) (hnet : ∀ z, s.net z = [])
    (hidle : (s.ep x.other).pending = [])
    (hlap : ∀ z, (s.ep z).passed.length < (cfg.sendCapacity z).toNat)
    (hroom : ∀ z, (cfg.isn z).toNat + (s.ep z).passed.length + (cfg.sendCapacity z).toNat <
      2 ^ 32) :
    (∃ tr' t, Run (systemFrom s) Sys.NoWrap tr' t ∧
      (∀ p ∈ tr', ∀ z data, p.2 ≠ .writeCall z data) ∧ (t.ep x).pc = .exited) ↔
    ((s.ep x).Starved → (s.ep x.other).sock.HasToSend) := by
  constructor
  -- a starved side whose peer stays silent never leaves its loop
  · rintro ⟨tr', t, hrun, hlabels, hexited⟩ hstarved
    by_contra hsilent
    exact (Sys.Starves.of_run hcfg h ⟨hnet, hstarved, hsilent, hidle⟩ hrun hlabels).2 hexited
  -- otherwise the run that carries everything over goes on from `s`
  · intro hfed
    obtain ⟨out, inn, hcar⟩ := carries_of_run hcfg h hopen hlap hroom
    obtain ⟨t, hreach, hdone⟩ := hcar.complete hcfg hcap fun hstarved =>
      Or.inr (hfed hstarved)
    have hinit : Run (systemFrom s) Sys.NoWrap [] s := .init rfl h.kept
    obtain ⟨tr', hrun, hserves⟩ := System.Reaches.run (M := systemFrom s) hreach hinit
    refine ⟨tr', t, hrun, fun p hp z data heq => ?_, hdone.left⟩
    have hlabel := hserves p hp
    rw [heq] at hlabel
    cases hlabel

/-- The send rings are greater than the receive rings. -/
def shortRingConfig : Config := { smallConfig 8 with recvCapacity := fun _ => 4 }

theorem shortRingConfig_valid : shortRingConfig.Valid where
  sendCapacity _ := show 2 ≤ 8 by decide
  recvCapacity _ := show 2 ≤ 4 by decide
  freshNull x _ := by cases x <;> exact ⟨rfl, rfl⟩

/-- The server has room for the client's last byte, and nothing will ever bring it there. -/
theorem completion_iff_closed : ∃ tr s,
    Run (systemFrom shortRingConfig.established) Sys.NoWrap tr s ∧
    recvBufferMaxReceive (s.ep .server).sock.recvBuf = 3 ∧
    ¬ ∃ tr' t, Run (systemFrom s) Sys.NoWrap tr' t ∧
      (∀ p ∈ tr', ∀ z data, p.2 ≠ .writeCall z data) ∧ (t.ep .client).pc = .exited := by
  have hinit : Run (systemFrom shortRingConfig.established) Sys.NoWrap []
      shortRingConfig.established := .init rfl (by decide)
  have hrun := hinit.exec closedWindowLabels rfl
  refine ⟨_, _, hrun, rfl, fun hexits => ?_⟩
  have hfed := (completion_iff shortRingConfig_valid hrun .client (by decide) rfl
    (Side.forall_of .client rfl rfl) rfl (fun z => by cases z <;> decide)
    (fun z => by cases z <;> decide)).mp hexits
  exact absurd (hfed (by decide)) (by decide)

end Runs

end CmuTcp
