import CmuTcp.Connection.Moves

/-!
# Acknowledgements and Closing

Two theorems about every run of a connection, whatever the network does and whatever the
bytes are.  What a sender regards as acknowledged has arrived in order at its peer, and
what its peer expects has been sent.  So a side that has left its loop has lost nothing.

Both are read off the invariant.  The counters of the stream and of the reassembly are in
order, and under the refinement the four sequence numbers are these counters (`AckSafe`).
A thread leaves its loop only when the exit test finds nothing unacknowledged, and the test
is exact; then the four numbers are one, so the peer expects the byte after the last written.

Neither needs the bytes to be right: a copy out of a ring may have gone wrong before.
-/

namespace CmuTcp

open FaultSystem

variable {cfg : Config} {tr : List (Sys × Label)} {s : Sys}

/-! ## Acknowledgement safety -/

/-- The four sequence numbers of the direction from `x` to its peer are in order, no ack
    in flight to `x` names a byte that `x` has not sent, and the two copies of the ack
    state of `x` agree. -/
structure Sys.AckSafe (s : Sys) (x : Side) : Prop where
  acked_lt_expected : (s.ep x).sock.sendBuf.lastByteAckedSeqnum.toNat <
    (getNextByteExpectedSeqnum (s.ep x.other).sock.recvBuf).toNat
  expected_le_sent : (getNextByteExpectedSeqnum (s.ep x.other).sock.recvBuf).toNat ≤
    (getLastByteSentSeqnum (s.ep x).sock.sendBuf).toNat + 1
  sent_le_written : (getLastByteSentSeqnum (s.ep x).sock.sendBuf).toNat + 1 ≤
    (getNextByteWrittenSeqnum (s.ep x).sock.sendBuf).toNat
  ack_le_sent : ∀ p ∈ s.net x,
    p.header.ackNum.toNat ≤ (getLastByteSentSeqnum (s.ep x).sock.sendBuf).toNat + 1
  lastAck : (s.ep x).sock.window.lastAckReceived =
    (s.ep x).sock.sendBuf.lastByteAckedSeqnum + 1

/-- The order of the sequence numbers is that of the counters of the streams. -/
theorem Sys.Invariant.ackSafe {out : Side → SendStream UInt8} {inn : Side → Reassembly}
    (h : s.Invariant cfg out inn) (hw : s.NoWrap) (x : Side) : s.AckSafe x := by
  have hsock := (h.endpoint x).sock
  have hacked := hsock.sendBuf.acked
  have hlast := hsock.sendBuf.getLastByteSentSeqnum (hw.sendBuf x)
  have hnext := hsock.sendBuf.getNextByteWrittenSeqnum (hw.sendBuf x)
  have hexpected := (h.endpoint x.other).sock.recvBuf.getNextByteExpectedSeqnum
  rw [Side.other_other] at hexpected
  have hlt := h.acked_lt x
  have hwithin := (h.within x).next
  have hsent := (out x).sent_le_written
  -- every part of the chain is a part of the invariant, read in sequence numbers
  constructor
  case acked_lt_expected => omega
  case expected_le_sent => omega
  case sent_le_written => omega
  case ack_le_sent =>
    intro p hp
    have hhonest := h.inFlight x.other
    rw [Side.other_other] at hhonest
    obtain ⟨a, ha, _, hle⟩ := (hhonest p hp).ack
    omega
  case lastAck =>
    have hroom := hsock.sendBuf.noWrap (hw.sendBuf x)
    have hpos := hsock.sendBuf.capacity_pos
    apply UInt32.toNat_inj.mp
    rw [hsock.lastAck, UInt32.toNat_add, hacked, UInt32.toNat_one]
    omega

/-- **Acknowledgement safety**: along every run of two established endpoints the sender
    never regards as acknowledged what has not arrived in order, no ack in flight names an
    unsent byte, and no step violates an assertion. -/
theorem ack_safety (hcfg : cfg.Valid)
    (h : Run (systemFrom cfg.established) Sys.NoWrap tr s) :
    (∀ x, s.AckSafe x) ∧ ∀ l f, s.step l ≠ some (.error f) := by
  obtain ⟨out, inn, hinv⟩ := Sys.Invariant.of_run hcfg h
  refine ⟨hinv.ackSafe h.kept, fun l f hfault => ?_⟩
  obtain ⟨s', _, _, hs', _⟩ := hinv.step h.kept hfault
  exact absurd hs' (by simp)

/-! ## Closing -/

/-- **Closing loses no written byte**: once the backend thread of `x` has left its loop,
    its peer has received in order everything that the application of `x` ever wrote.
    And the exit test is never true while a written byte is unacknowledged. -/
theorem close_loses_nothing (hcfg : cfg.Valid)
    (h : Run (systemFrom cfg.established) Sys.NoWrap tr s) (x : Side) :
    ((s.ep x).pc = .exited →
      getNextByteExpectedSeqnum (s.ep x.other).sock.recvBuf =
        getNextByteWrittenSeqnum (s.ep x).sock.sendBuf ∧
      (getNextByteWrittenSeqnum (s.ep x).sock.sendBuf).toNat =
        (cfg.isn x).toNat + (s.ep x).passed.length + 1) ∧
    ∀ death, exitTest (s.ep x).sock death = true →
      (getNextByteWrittenSeqnum (s.ep x).sock.sendBuf).toNat =
        (s.ep x).sock.sendBuf.lastByteAckedSeqnum.toNat + 1 := by
  obtain ⟨out, inn, hinv⟩ := Sys.Invariant.of_run hcfg h
  have hw : s.NoWrap := h.kept
  have hep := hinv.endpoint x
  have hnext := hep.sock.sendBuf.getNextByteWrittenSeqnum (hw.sendBuf x)
  constructor
  · intro hpc
    have hall := hep.exited hpc
    have hsafe := hinv.ackSafe hw x
    have hacked := hep.sock.sendBuf.acked
    have hlo := hsafe.acked_lt_expected
    have hhi := hsafe.expected_le_sent
    have hsent := hsafe.sent_le_written
    refine ⟨UInt32.toNat_inj.mp (by omega), ?_⟩
    -- a thread that has left has nothing pending
    have hpending := hep.dying (hep.leaving (Or.inr hpc))
    have hpassed := congrArg List.length hep.passed
    rw [hpending, List.append_nil] at hpassed
    omega
  · intro death hexit
    have hall := ((exitTest_iff hep.sock (hw.sendBuf x) death).mp hexit).2
    have hacked := hep.sock.sendBuf.acked
    omega

/-! ## A run -/

/-- The client writes twice and closes at once; the first packet is lost and sent again after
    a timeout, and the ack of both makes the thread leave its loop. -/
def closingLabels : List Label :=
  [.writeCall .client [1, 2, 3], .write .client] ++ silentIteration .client (fun _ => 0) ++
    [.writeCall .client [4, 5], .write .client] ++ silentIteration .client (fun _ => 0) ++
    [.close .client, .lose .server 0] ++ receivingIteration .server 0 ++
    [.backend .client 4000 (fun _ => 0), .backend .client 4000 (fun _ => 0),
    .receive .client 4000 0, .backend .client 4000 (fun _ => 0)] ++
    receivingIteration .server 0 ++ receivingIteration .client 0 ++
    [.backend .client 0 (fun _ => 0), .backend .client 0 (fun _ => 0)]

theorem closing_run : ∃ tr s, Run (systemFrom (smallConfig 8).established) Sys.NoWrap tr s ∧
    (s.ep .client).pc = .exited := by
  have hinit : Run (systemFrom (smallConfig 8).established) Sys.NoWrap []
      (smallConfig 8).established := .init rfl (by decide)
  exact ⟨_, _, hinit.exec closingLabels rfl, rfl⟩

theorem ack_safety_closing : ∃ tr s,
    Run (systemFrom (smallConfig 8).established) Sys.NoWrap tr s ∧
    (s.ep .client).pc = .exited ∧ ∀ x, s.AckSafe x := by
  obtain ⟨tr, s, hrun, hpc⟩ := closing_run
  exact ⟨tr, s, hrun, hpc, (ack_safety (smallConfig_valid (by decide)) hrun).1⟩

theorem close_loses_nothing_closing : ∃ tr s,
    Run (systemFrom (smallConfig 8).established) Sys.NoWrap tr s ∧
    (s.ep .client).pc = .exited ∧
    getNextByteExpectedSeqnum (s.ep .server).sock.recvBuf =
      getNextByteWrittenSeqnum (s.ep .client).sock.sendBuf := by
  obtain ⟨tr, s, hrun, hpc⟩ := closing_run
  exact ⟨tr, s, hrun, hpc,
    ((close_loses_nothing (smallConfig_valid (by decide)) hrun .client).1 hpc).1⟩

end CmuTcp
