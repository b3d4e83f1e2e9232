import CmuTcp.Connection.Moves

/-!
# Delivery

What the application of one side reads is a prefix of what the application of the other
side wrote, and no copy leaves a ring, exactly as long as no sender reaches the end of
its ring: a fresh send that would go past the last cell on the first lap is copied from
outside the ring.  Nothing else can go wrong.

Whether a sender has ever copied from outside its ring is recorded (`strayed`), and the
invariant of a connection says that the bytes are right while it has not.

1. A direction delivers exactly if its sender has not strayed (`Sys.Invariant.delivers_iff`).
   A process that has died in a copy has strayed.
2. A step makes a sender stray exactly if its fresh bytes do not end before the end of the
   ring (`Sys.Moves.delivers_iff`).  Retransmissions need no condition: what they cover has
   been sent before, on the first lap.
3. Both together along a run are `delivery_iff`.
-/

namespace CmuTcp

open FaultSystem CircularBuffer

variable {cfg : Config} {tr : List (Sys × Label)} {s : Sys}

/-- The endpoint `x` has read its send ring only, and its peer's application has read a
    prefix of what the application of `x` wrote. -/
structure Sys.Delivers (s : Sys) (x : Side) : Prop where
  inBounds : (s.ep x).strayed = false
  delivered : (s.ep x.other).delivered <+: (s.ep x).passed

/-- Sending fresh bytes does not reach the end of the ring. -/
def Label.EndsBeforeRing (s : Sys) : Label → Prop
  | .backend x now _ => (s.ep x).pc = .transmit → resendDue (s.ep x).sock now = true ∨
      (s.ep x).sock.sendBuf.lastByteSentIndex.toNat +
        min (sendBufferMaxNewDump (s.ep x).sock.sendBuf).toNat
          ((s.ep x).sock.window.rcvdAdvertisedWindow.toNat -
            (getUnacknowledgedCount (s.ep x).sock.sendBuf).toNat) <
        (s.ep x).sock.sendBuf.capacity.toNat
  | _ => True

instance (s : Sys) : (l : Label) → Decidable (l.EndsBeforeRing s)
  | .backend .. => inferInstanceAs (Decidable (_ → _ ∨ _))
  | .receive .. | .writeCall .. | .write _ | .read .. | .close _ | .lose .. | .duplicate .. =>
    isTrue trivial

section Invariant

variable {out : Side → SendStream UInt8} {inn : Side → Reassembly}

/-- A direction delivers as long as its sender has not strayed. -/
theorem Sys.Invariant.delivers_iff (h : s.Invariant cfg out inn) (x : Side) :
    s.Delivers x ↔ (s.ep x).strayed = false := by
  refine ⟨fun hd => hd.inBounds, fun hx => ⟨hx, ?_⟩⟩
  rw [(h.faithful x hx).delivered, (h.endpoint x).passed]
  exact (List.take_prefix _ _).trans (List.prefix_append _ _)

/-- On the first lap the condition says that the fresh bytes end on it as well. -/
theorem Sys.Invariant.endsBeforeRing_iff (h : s.Invariant cfg out inn)
    {x : Side} (hpc : (s.ep x).pc = .transmit) (hlap : (out x).sent < (out x).capacity)
    (now : Int) (beyond : ℕ → UInt8) :
    (Label.backend x now beyond).EndsBeforeRing s ↔
      (out x).sent + freshCount (s.ep x).sock now < (out x).capacity := by
  have href := (h.endpoint x).sock.sendBuf
  have hsent : (s.ep x).sock.sendBuf.lastByteSentIndex.toNat = (out x).sent := by
    rw [href.sentIndex, Nat.mod_eq_of_lt hlap]
  simp only [Label.EndsBeforeRing, hpc, true_implies, ← freshSendLen_toNat, hsent,
    href.capacity, freshCount]
  by_cases hdue : resendDue (s.ep x).sock now = true
  · simp [hdue, hlap]
  · simp [hdue]

/-- A step keeps both directions delivering exactly if it meets the condition. -/
theorem Sys.Moves.delivers_iff {l : Label} {s' : Sys} {out' : Side → SendStream UInt8}
    {inn' : Side → Reassembly} (hm : Sys.Moves cfg s out inn l s' out' inn')
    (h : s.Invariant cfg out inn) (hd : ∀ x, s.Delivers x) :
    (∀ x, s'.Delivers x) ↔ l.EndsBeforeRing s := by
  have hinv' := hm.invariant h
  simp only [hinv'.delivers_iff]
  have hs : ∀ x, (s.ep x).strayed = false := fun x => (hd x).inBounds
  -- a step that leaves the record of `x` as it is
  have hkept : ∀ (s₁ : Sys) {x : Side} {e : Endpoint} {packets : List Packet},
      s₁.ep = s.ep → e.strayed = (s.ep x).strayed →
      ∀ y, ((s₁.put x (e, packets)).ep y).strayed = false := by
    intro s₁ x e packets hep he
    refine Side.forall_of x ?_ ?_
    · rw [Sys.ep_put_self, he]
      exact hs x
    · rw [Sys.ep_put_other, hep]
      exact hs x.other
  cases hm with
  | @idle _ x e hl hidle _ =>
    refine iff_of_true (hkept s rfl hidle.strayed) ?_
    cases l with
    | backend y now beyond => exact fun hpc => absurd hpc hl
    | _ => trivial
  | write _ _ _ hstrayed => exact iff_of_true (hkept s rfl hstrayed) trivial
  | read _ _ hstrayed => exact iff_of_true (hkept s rfl hstrayed) trivial
  | receive _ _ _ _ _ _ hstrayed => exact iff_of_true (hkept _ rfl hstrayed) trivial
  | lose => exact iff_of_true hs trivial
  | duplicate _ => exact iff_of_true hs trivial
  | @transmit x now beyond e packets n ht hpc hn hsends hc hwindow hedge hlap =>
    have hfirst := (h.faithful x (hs x)).firstLap
    rw [h.endsBeforeRing_iff hpc hfirst]
    constructor
    · intro hall
      have hx := hall x
      rw [Sys.ep_put_self] at hx
      exact ((hlap hfirst).mp hx).2
    · intro hend
      refine Side.forall_of x ?_ ?_
      · rw [Sys.ep_put_self]
        exact (hlap hfirst).mpr ⟨hs x, hend⟩
      · rw [Sys.ep_put_other]
        exact hs x.other

/-- As long as everything written lies before the end of the ring, the fresh bytes do. -/
theorem Sys.Invariant.endsBeforeRing (h : s.Invariant cfg out inn)
    (hlap : ∀ x, (out x).written.length < (cfg.sendCapacity x).toNat) (l : Label) :
    l.EndsBeforeRing s := by
  cases l with
  | backend x now beyond =>
    intro hpc
    have hsent := (out x).sent_le_written
    have hcap := h.sendCapacity x
    have hfirst := hlap x
    refine (h.endsBeforeRing_iff hpc (by omega) now beyond).mpr ?_ hpc
    have hle := (freshSendLen_le (h.endpoint x).sock.sendBuf).1
    unfold freshCount
    split
    · omega
    · omega
  | _ => trivial

/-- What is written stays written, in rings of the same size. -/
theorem Sys.Moves.written_le {l : Label} {s' : Sys} {out' : Side → SendStream UInt8}
    {inn' : Side → Reassembly} (hm : Sys.Moves cfg s out inn l s' out' inn') (x : Side) :
    (out x).written.length ≤ (out' x).written.length := by
  have hupdate : ∀ {y : Side} {o : SendStream UInt8}, (out y).written <+: o.written →
      (out x).written.length ≤ (Function.update out y o x).written.length := by
    intro y o hprefix
    by_cases hx : x = y
    · subst hx
      rw [Function.update_self]
      exact hprefix.length_le
    · rw [Function.update_of_ne hx]
  cases hm with
  | idle _ _ hc => exact hupdate hc.written
  | write hc _ _ _ => exact hupdate hc.written
  | read hc _ _ => exact hupdate hc.written
  | receive _ hc _ _ _ _ _ => exact hupdate hc.written
  | transmit _ _ _ hc _ _ _ => exact hupdate hc.written
  | lose => exact le_refl _
  | duplicate _ => exact le_refl _

end Invariant

/-- While each side has passed fewer bytes than its ring has cells, both directions
    deliver. -/
theorem delivers_of_run (hcfg : cfg.Valid)
    (h : Run (systemFrom cfg.established) Sys.NoWrap tr s)
    (hlap : ∀ x, (s.ep x).passed.length < (cfg.sendCapacity x).toNat) :
    ∃ out inn, s.Invariant cfg out inn ∧ ∀ x, s.Delivers x := by
  obtain ⟨out, inn, hinv, hdelivers⟩ : ∃ out inn, s.Invariant cfg out inn ∧
      ((∀ x, (out x).written.length < (cfg.sendCapacity x).toNat) → ∀ x, s.Delivers x) := by
    refine h.invariant (I := fun t => ∃ out inn, t.Invariant cfg out inn ∧
      ((∀ x, (out x).written.length < (cfg.sendCapacity x).toNat) → ∀ x, t.Delivers x)) ?_ ?_
    · rintro s rfl hw
      obtain ⟨out, inn, hinv⟩ := hcfg.established hw
      exact ⟨out, inn, hinv, fun _ x => (hinv.delivers_iff x).mpr rfl⟩
    · rintro s l s' ⟨out, inn, hinv, hd⟩ hw _ hstep
      obtain ⟨t, out', inn', ht, hm⟩ := hinv.step hw hstep
      obtain rfl := Except.ok.inj ht
      refine ⟨out', inn', hm.invariant hinv, fun hlap' => ?_⟩
      -- what had been written by then was less
      have hlap : ∀ x, (out x).written.length < (cfg.sendCapacity x).toNat :=
        fun x => lt_of_le_of_lt (hm.written_le x) (hlap' x)
      exact (hm.delivers_iff hinv (hd hlap)).mpr (hinv.endsBeforeRing hlap l)
  refine ⟨out, inn, hinv, hdelivers fun x => lt_of_le_of_lt ?_ (hlap x)⟩
  rw [(hinv.endpoint x).passed, List.length_append]
  exact Nat.le_add_right _ _

/-- **When delivery is reliable**: in a run of two established endpoints no step violates
    an assertion or writes outside a ring, a process that has died has died in a copy out of
    its send ring, and all states deliver, in both directions and inside the rings, if and
    only if no fresh send reaches the end of its ring. -/
theorem delivery_iff (hcfg : cfg.Valid)
    (h : Run (systemFrom cfg.established) Sys.NoWrap tr s) :
    (∀ l f, s.step l ≠ some (.error f)) ∧
    (∀ x, (s.ep x).pc = .crashed → (s.ep x).strayed = true) ∧
    ((∀ t ∈ visited tr s, ∀ x, t.Delivers x) ↔ ∀ p ∈ tr, p.2.EndsBeforeRing p.1) := by
  obtain ⟨out, inn, hinv⟩ := Sys.Invariant.of_run hcfg h
  refine ⟨fun l f hfault => ?_, fun x => (hinv.endpoint x).crashed, ?_⟩
  · obtain ⟨s', _, _, hs', _⟩ := hinv.step h.kept hfault
    exact absurd hs' (by simp)
  · refine h.forall_visited_iff (I := fun t => t.NoWrap ∧ ∃ out inn, t.Invariant cfg out inn)
      (P := fun t => ∀ x, t.Delivers x) (C := fun t l => l.EndsBeforeRing t) ?_ ?_ ?_
    · exact fun tr s hrun => ⟨hrun.kept, Sys.Invariant.of_run hcfg hrun⟩
    · rintro s rfl hw x
      obtain ⟨out, inn, hinv⟩ := hcfg.established hw
      exact (hinv.delivers_iff x).mpr rfl
    · rintro s l s' ⟨hw, out, inn, hinv⟩ hd _ hstep
      obtain ⟨t, out', inn', ht, hm⟩ := hinv.step hw hstep
      obtain rfl := Except.ok.inj ht
      exact hm.delivers_iff hinv hd

/-- The client sends two packets, of which the first arrives again behind the second; an ack
    is lost, and the server has a byte for the client. -/
def duplicateLabels : List Label :=
  [.writeCall .client [1, 2, 3], .write .client] ++ silentIteration .client (fun _ => 0) ++
    [.writeCall .client [4, 5], .write .client] ++ silentIteration .client (fun _ => 0) ++
    [.duplicate .server 0] ++ receivingIteration .server 0 ++ receivingIteration .server 0 ++
    receivingIteration .server 0 ++ [.read .server 5 .noFlag, .writeCall .server [9],
    .write .server] ++ silentIteration .server (fun _ => 0) ++ [.lose .client 0] ++
    receivingIteration .client 2 ++ [.read .client 1 .noFlag]

/-- All of it is delivered, in both directions. -/
theorem delivery_iff_duplicate : ∃ tr s,
    Run (systemFrom (smallConfig 8).established) Sys.NoWrap tr s ∧
    (s.ep .server).delivered = [1, 2, 3, 4, 5] ∧ (s.ep .client).delivered = [9] ∧
    ∀ t ∈ visited tr s, ∀ x, t.Delivers x := by
  have hinit : Run (systemFrom (smallConfig 8).established) Sys.NoWrap []
      (smallConfig 8).established := .init rfl (by decide)
  have hrun := hinit.exec duplicateLabels rfl
  exact ⟨_, _, hrun, rfl, rfl,
    (delivery_iff (smallConfig_valid (by decide)) hrun).2.2.mpr (by decide)⟩

/-- A ring of five cells of which one is acknowledged and two are in flight: the next two
    bytes are the last cell and the byte after the ring, and its peer delivers it. -/
def strayingLabels : List Label :=
  [.writeCall .client [1], .write .client] ++ silentIteration .client (fun _ => 0) ++
    [.duplicate .server 0] ++ receivingIteration .server 0 ++ [.read .server 1 .noFlag] ++
    receivingIteration .server 0 ++ [.writeCall .client [2, 3], .write .client] ++
    receivingIteration .client 1 ++ [.writeCall .client [4, 5], .write .client] ++
    silentIteration .client (fun _ => 99) ++ receivingIteration .server 0 ++
    receivingIteration .server 0 ++ [.read .server 4 .noFlag]

/-- The application of the server reads a byte that the client did not write. -/
theorem delivery_strays : ∃ tr s,
    Run (systemFrom (smallConfig 5).established) Sys.NoWrap tr s ∧
    (s.ep .client).strayed = true ∧ (s.ep .client).passed = [1, 2, 3, 4, 5] ∧
    (s.ep .server).delivered = [1, 2, 3, 4, 99] ∧
    ¬ (s.ep .server).delivered <+: (s.ep .client).passed := by
  have hinit : Run (systemFrom (smallConfig 5).established) Sys.NoWrap []
      (smallConfig 5).established := .init rfl (by decide)
  have hrun := hinit.exec strayingLabels rfl
  refine ⟨_, _, hrun, rfl, rfl, rfl, ?_⟩
  show ¬ [1, 2, 3, 4, 99] <+: [1, 2, 3, 4, 5]
  decide

end CmuTcp
