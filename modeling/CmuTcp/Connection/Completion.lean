import CmuTcp.Connection.Serving

/-!
# Delivery Stays Possible

From every reachable state in which one side is not stalled and the other does not close,
everything that the application of the one has passed to `cmu_write` can still reach the
other, be read there and be acknowledged, so that `cmu_close` returns.  That is so as long
as no side has passed as many bytes as its ring has cells: a byte behind the end of the ring
is copied from outside the ring, or kills the process.

The argument is the rank rule of the library.

1. In a round the side `x` retransmits, the first of its packets arrives, the peer reads,
   and the same again (`Sys.At.round`).  Whatever `x` knew before, the second answer carries
   the ack of all that has arrived in order and the window of an empty buffer.
2. So a round acknowledges something, or corrects a window that was greater than the peer's
   ring; `Transfer.rank` counts both, and rounds go on until nothing is left.
3. With nothing left, the peer reads the rest and the thread of `x` leaves its loop.
4. A side that waits for a window can do none of this before its peer says something.  It is
   fed by a packet in flight, or by a peer that has something to send itself.

Main result: `completion_possible`, for every side that does not starve, or is fed.
-/

namespace CmuTcp

open FaultSystem

section Transfers

variable {cfg : Config} {x : Side} {data : List UInt8} {s : Sys} {p q : BackendPc} {c : Transfer}

/-! ## Rounds -/

/-- `x` sends its first unacknowledged bytes again, and its peer answers. -/
theorem Sys.At.probe (h : s.At cfg x data .transmit .checkData c)
    (hcap : (cfg.recvCapacity x.other).toNat ≤ 65535) (hlt : c.acked < c.sent) :
    ∃ t m n q, Sys.Reaches cfg x s t ∧ t.At cfg x data .checkData .checkData { c with next := m } ∧
      q ∈ t.net x ∧ q.header.ackNum.toNat = (cfg.isn x).toNat + m ∧
      q.header.advertisedWindow.toNat = c.read + (cfg.recvCapacity x.other).toNat - m ∧
      n = max 1 (min (min (c.sent - c.acked) c.window) 1375) ∧
      (c.acked + 1 = c.next → c.acked + n < c.read + (cfg.recvCapacity x.other).toNat →
        c.acked + 1 + n ≤ m) ∧
      (c.acked + 1 ≤ c.read ∨ c.read + (cfg.recvCapacity x.other).toNat ≤ c.acked + n →
        m = c.next) := by
  obtain ⟨t, pkt, hsend, hat, hpkt, hcarries⟩ := h.resend hlt
  obtain ⟨u, m, q, hdeliver, hat', hq, hack, hwindow, htaken, hrefused⟩ :=
    hat.deliver hcap hpkt hcarries
  obtain ⟨v, hready, hat'', hnet⟩ := hat'.peerReady
  refine ⟨v, m, _, q, (hsend.trans hdeliver).trans hready, hat'', hnet q hq, hack, hwindow, rfl,
    fun hk hfits => htaken hk (by omega), fun hnot => hrefused ?_⟩
  omega

/-- **One round**: the peer reads and `x` probes, twice, and takes the second answer.  That
    the peer has room then is what `x` knows afterwards; and unless `x` thought that the peer
    had more room than its ring has, something is acknowledged. -/
theorem Sys.At.round (h : s.At cfg x data .transmit .checkData c)
    (hrecv : 2 ≤ (cfg.recvCapacity x.other).toNat)
    (hcap : (cfg.recvCapacity x.other).toNat ≤ 65535) (hlt : c.acked < c.sent) :
    ∃ t c', Sys.Reaches cfg x s t ∧ t.At cfg x data .transmit .checkData c' ∧
      c'.window + 1 = (cfg.recvCapacity x.other).toNat ∧ c.acked ≤ c'.acked ∧
      (c.acked = c'.acked → (cfg.recvCapacity x.other).toNat ≤ c.window) := by
  have hbounds := h.bounds
  obtain ⟨s₁, hread, hat₁, _⟩ := h.read (by simp)
  obtain ⟨s₂, m, n, _, hprobe, hat₂, _, _, _, hn, htaken, hrefused⟩ := hat₁.probe hcap hlt
  obtain ⟨s₃, hread', hat₃, _⟩ := hat₂.read (by simp)
  obtain ⟨s₄, hskip, hat₄⟩ := hat₃.skip
  obtain ⟨s₅, m', n', q, hprobe', hat₅, hq, hack, hwindow, hn', _, hrefused'⟩ :=
    hat₄.probe hcap hlt
  obtain ⟨s₆, hanswer, hat₆⟩ := hat₅.answer hq hack
  have hbounds₂ := hat₂.bounds
  dsimp only at hn htaken hrefused hn' hrefused' hwindow hbounds₂
  -- the second probe brings nothing new
  have hsame : m' = m := by
    apply hrefused'
    by_cases hnew : c.acked + 1 = c.next ∧
        c.acked + n < c.next - 1 + (cfg.recvCapacity x.other).toNat
    · have hm := htaken hnew.1 hnew.2
      omega
    · have hm := hrefused (by omega)
      omega
  subst hsame
  refine ⟨s₆, _, ((((hread.trans hprobe).trans hread').trans hskip).trans hprobe').trans hanswer,
    hat₆, ?_, le_max_left _ _, fun hnone => ?_⟩
  · dsimp only
    omega
  · dsimp only at hnone
    by_contra hknows
    by_cases hnew : c.acked + 1 = c.next
    · have hm := htaken hnew (by omega)
      omega
    · omega

/-- Something is written, or sent for the first time, if nothing is unacknowledged. -/
theorem Sys.At.supply (h : s.At cfg x data .transmit q c)
    (hsend : 2 ≤ (cfg.sendCapacity x).toNat) (hrest : c.acked < data.length)
    (hopen : c.acked < c.sent ∨ 0 < c.window) :
    ∃ t m n, Sys.Reaches cfg x s t ∧
      t.At cfg x data .transmit q { c with sent := m, written := n } ∧ c.acked < m := by
  obtain ⟨t, m, n, hreach, hat, hle, hlt⟩ : ∃ t m n, Sys.Reaches cfg x s t ∧
      t.At cfg x data .transmit q { c with sent := m, written := n } ∧ c.sent ≤ m ∧
        c.acked < n := by
    have hbounds := h.bounds
    by_cases hall : c.acked = c.written
    · obtain ⟨t, m, n, hreach, hat, hle, hlt⟩ := h.write hsend hall (by omega)
      exact ⟨t, m, n, hreach, hat, hle, by omega⟩
    · exact ⟨s, c.sent, c.written, .refl s, h, le_refl _, by omega⟩
  have hbounds := hat.bounds
  dsimp only at hbounds
  by_cases hnone : c.acked = m
  · have hwindow : 0 < c.window := by
      by_contra hzero
      have hlt' := hopen.resolve_right hzero
      omega
    obtain ⟨u, m', hreach', hat', hlt'⟩ := hat.fresh hnone (by dsimp only; omega) hwindow
    exact ⟨u, m', n, hreach.trans hreach', hat', by dsimp only at hlt'; omega⟩
  · exact ⟨t, m, n, hreach, hat, by omega⟩

/-- How much is left: two for each byte, and one for a window that is too great. -/
def Transfer.rank (c : Transfer) (length capacity : ℕ) : ℕ :=
  2 * (length - c.acked) + if c.window < capacity then 0 else 1

/-- All of it: rounds acknowledge everything that has been passed. -/
theorem Sys.At.complete (hsend : 2 ≤ (cfg.sendCapacity x).toNat)
    (hrecv : 2 ≤ (cfg.recvCapacity x.other).toNat)
    (hcap : (cfg.recvCapacity x.other).toNat ≤ 65535)
    (h : s.At cfg x data .transmit .checkData c)
    (hopen : c.acked < c.sent ∨ 0 < c.window ∨ c.acked = data.length) :
    ∃ t, Sys.Reaches cfg x s t ∧ ∃ c' : Transfer, t.At cfg x data .transmit .checkData c' ∧
      c'.acked = data.length := by
  -- the rank rule, for states at the start of a round that can make progress
  refine System.Reaches.of_rank (I := fun n s => ∃ c : Transfer,
    s.At cfg x data .transmit .checkData c ∧
    (c.acked < c.sent ∨ 0 < c.window ∨ c.acked = data.length) ∧
    n = c.rank data.length (cfg.recvCapacity x.other).toNat) ?_ ⟨c, h, hopen, rfl⟩
  rintro n s ⟨c, h, hopen, rfl⟩
  by_cases hall : c.acked = data.length
  -- everything is acknowledged
  · exact ⟨s, .refl s, Or.inl ⟨c, h, hall⟩⟩
  · have hbounds := h.bounds
    -- there is something to acknowledge, and a round acknowledges some of it or mends the
    -- window
    obtain ⟨t, m, k, hsupply, hat, hlt⟩ := h.supply hsend (by omega) (by tauto)
    obtain ⟨u, c', hround, hat', hwindow, hle, hnone⟩ := hat.round hrecv hcap hlt
    have hbounds' := hat'.bounds
    refine ⟨u, hsupply.trans hround, Or.inr ⟨_, ?_, c', hat', Or.inr (Or.inl (by omega)), rfl⟩⟩
    dsimp only at hle hnone
    unfold Transfer.rank
    -- the window is that of an empty ring now
    rw [if_pos (show c'.window < _ by omega)]
    split
    -- it was so before, and then the round has made progress
    · rename_i hknows
      have hprogress : c.acked ≠ c'.acked := fun heq => absurd hknows (Nat.not_lt.mpr (hnone heq))
      omega
    · omega

end Transfers

/-! ## Leaving -/

/-- The thread of `x` has left, its peer has received everything, and the application of the
    peer has been given `data`. -/
structure Sys.Completed (cfg : Config) (x : Side) (data : List UInt8) (t : Sys) : Prop where
  left : (t.ep x).pc = .exited
  received : (getNextByteExpectedSeqnum (t.ep x.other).sock.recvBuf).toNat =
    (cfg.isn x).toNat + data.length + 1
  read : recvBufferMaxRead (t.ep x.other).sock.recvBuf = 0
  delivered : (t.ep x.other).delivered = data

section Leaving

variable {cfg : Config} {x : Side} {data : List UInt8} {s : Sys}
  {out : Side → SendStream UInt8} {inn : Side → Reassembly}

/-- At the top of the loop, with nothing left, `x` closes if it has not, and leaves. -/
theorem Sys.Carries.leave_top (h : s.Carries cfg x data out inn) (hpc : (s.ep x).pc = .loopTop)
    (hall : (out x).acked = data.length) :
    ∃ t, Sys.Reaches cfg x s t ∧ (t.ep x).pc = .exited ∧ t.ep x.other = s.ep x.other := by
  have hpending : ∀ {t : Sys} {out inn}, t.Carries cfg x data out inn →
      (out x).acked = data.length →
      (t.ep x).pending = [] ∧ (out x).acked = (out x).written.length := by
    intro t out inn ht hall
    have hlength := ht.length
    have hle := (out x).acked_le_written
    exact ⟨List.eq_nil_of_length_eq_zero (by omega), by omega⟩
  -- with a closed socket it leaves
  have hleave : ∀ {t : Sys} {out inn}, t.Carries cfg x data out inn →
      (out x).acked = data.length → (t.ep x).pc = .loopTop → (t.ep x).sock.dying = true →
      ∃ u, Sys.Reaches cfg x t u ∧ (u.ep x).pc = .exited ∧ u.ep x.other = t.ep x.other := by
    intro t out inn ht hall htop hdying
    obtain ⟨hcar, hreach⟩ := ht.advance x (.exitTest true)
      (by simp [backendSilent, htop, hdying]) (by simp [htop])
    have hexit : exitTest ((t.setPc x (.exitTest true)).ep x).sock true = true :=
      (exitTest_iff (hcar.invariant.endpoint x).sock (hcar.noWrap.sendBuf x) true).mpr
        ⟨rfl, (hpending hcar hall).2⟩
    obtain ⟨_, hreach'⟩ := hcar.advance x .exited
      (by simp only [backendSilent, Sys.ep_setPc_self] at hexit ⊢; simp [hexit]) (by simp)
    rw [Sys.setPc_setPc] at hreach'
    exact ⟨_, hreach.trans hreach', by simp, by simp⟩
  cases hdying : (s.ep x).sock.dying with
  | true => exact hleave h hall hpc hdying
  | false =>
    have happ : appClose (s.ep x) =
        some { s.ep x with sock := { (s.ep x).sock with dying := true } } := by
      unfold appClose
      rw [if_pos ⟨h.isOpen.initialized x, hdying, (hpending h hall).1, h.lives x⟩]
    have hstep : s.step (.close x) = some (.ok (s.put x ({ s.ep x with
        sock := { (s.ep x).sock with dying := true } }, []))) := by
      simp only [Sys.step, happ, Option.map_some]
    obtain ⟨t, out', inn', ht, hm, hcar, hreach⟩ := h.step .close hstep
    have hsame : out' = out := by
      cases hm with
      | idle _ _ _ => exact Function.update_eq_self ..
    obtain rfl := Except.ok.inj ht
    subst hsame
    obtain ⟨u, hreach', hexited, hep⟩ := hleave hcar hall (by rw [Sys.ep_put_self]; exact hpc)
      (by rw [Sys.ep_put_self])
    exact ⟨u, hreach.trans hreach', hexited, by rw [hep, Sys.ep_put_other]⟩

/-- With nothing left, the thread of `x` can leave from wherever it is. -/
theorem Sys.Carries.leave (h : s.Carries cfg x data out inn) (hall : (out x).acked = data.length) :
    ∃ t, Sys.Reaches cfg x s t ∧ (t.ep x).pc = .exited ∧ t.ep x.other = s.ep x.other := by
  -- from the sending part the thread goes round the loop once more
  have hsending : ∀ {t : Sys}, t.Carries cfg x data out inn → (t.ep x).pc = .transmit →
      ∃ u, Sys.Reaches cfg x t u ∧ (u.ep x).pc = .exited ∧ u.ep x.other = t.ep x.other := by
    intro t ht hpc
    obtain ⟨sent, hsent, _⟩ := ht.sent x 0 fun _ => 0
    obtain ⟨u, out', hcar, hreach, htop, _, hep, _, _, _, rfl⟩ := ht.transmit hpc _ _ hsent
    obtain ⟨v, hreach', hexited, hep'⟩ := hcar.leave_top htop (by
      rw [Function.update_self]
      exact hall)
    exact ⟨v, hreach.trans hreach', hexited, hep'.trans hep⟩
  -- from `check_for_data` it goes on to the sending part
  have hlooking : ∀ {t : Sys}, t.Carries cfg x data out inn → (t.ep x).pc = .checkData →
      ∃ u, Sys.Reaches cfg x t u ∧ (u.ep x).pc = .exited ∧ u.ep x.other = t.ep x.other := by
    intro t ht hpc
    obtain ⟨hcar, hreach⟩ := ht.advance x .transmit
      (by simp [backendSilent, hpc, checkForData, pure, Except.pure]) (by simp [hpc])
    obtain ⟨u, hreach', hexited, hep⟩ := hsending hcar (by simp)
    exact ⟨u, hreach.trans hreach', hexited, by rw [hep, Sys.ep_setPc_other]⟩
  -- where the thread is
  cases hpc : (s.ep x).pc with
  | entry => exact absurd hpc (h.inLoop x).notEntry
  | handshake packet => exact absurd hpc ((h.inLoop x).notHandshake packet)
  | loopTop => exact h.leave_top hpc hall
  | exitTest death =>
    -- `death` has been read as set, or as clear, and then the loop goes round once
    by_cases hexit : exitTest (s.ep x).sock death = true
    · obtain ⟨_, hreach⟩ := h.advance x .exited
        (by simp [backendSilent, hpc, hexit]) (by simp [hpc])
      exact ⟨_, hreach, by simp, by simp⟩
    · obtain ⟨hcar, hreach⟩ := h.advance x .checkData
        (by simp [backendSilent, hpc, hexit]) (by simp [hpc])
      obtain ⟨u, hreach', hexited, hep⟩ := hlooking hcar (by simp)
      exact ⟨u, hreach.trans hreach', hexited, by rw [hep, Sys.ep_setPc_other]⟩
  | checkData => exact hlooking h hpc
  | transmit => exact hsending h hpc
  | exited => exact ⟨s, .refl s, hpc, rfl⟩
  | crashed => exact absurd hpc (h.lives x)

/-- With nothing left, the peer can read the rest, and then the thread of `x` leave. -/
theorem Sys.Carries.finish (h : s.Carries cfg x data out inn)
    (hall : (out x).acked = data.length) :
    ∃ t, Sys.Reaches cfg x s t ∧ t.Completed cfg x data := by
  -- the peer gets to `check_for_data`, where its application reads everything
  obtain ⟨s₁, out₁, hcar₁, hready, hpc, _, _, _, _, hout, _⟩ :=
    h.ready (z := x.other) fun ht _ => ht.peer_stays
  rw [Side.other_other] at hout
  have hat : s₁.At cfg x data (s₁.ep x).pc .checkData (s₁.transfer x out₁ inn) :=
    ⟨out₁, inn, hcar₁, rfl, hpc, rfl⟩
  obtain ⟨s₂, hread, hat₂, _⟩ := hat.read (by simp)
  have hbounds := hat₂.bounds
  obtain ⟨out₂, inn₂, hcar₂, _, _, heq⟩ := hat₂
  have hacked : (out₂ x).acked = data.length := by
    have hsame : (out₂ x).acked = (out₁ x).acked := congrArg Transfer.acked heq
    rw [hsame, hout, hall]
  -- then the thread of `x` leaves, which does not concern the peer
  obtain ⟨t, hleave, hexited, hep⟩ := hcar₂.leave hacked
  have hnext : (inn₂ x.other).next = (s₁.transfer x out₁ inn).next := congrArg Transfer.next heq
  have hreads : (inn₂ x.other).read = (s₁.transfer x out₁ inn).next - 1 :=
    congrArg Transfer.read heq
  have hall₁ : (s₁.transfer x out₁ inn).acked = data.length := by
    show (out₁ x).acked = data.length
    rw [hout, hall]
  -- what the peer expects and has to read are numbers of its reassembly
  have hrecv := (hcar₂.invariant.endpoint x.other).sock.recvBuf
  have hexpected := hrecv.getNextByteExpectedSeqnum
  have hmax := hrecv.recvBufferMaxRead
  rw [Side.other_other] at hexpected
  dsimp only at hbounds
  refine ⟨t, (hready.trans hread).trans hleave, hexited, ?_, ?_, ?_⟩
  · rw [hep, hexpected]
    omega
  · rw [hep]
    apply UInt32.toNat_inj.mp
    rw [hmax, UInt32.toNat_zero]
    omega
  · -- what has been read is all that was written, and that is all that was passed
    have hpassed := (hcar₂.invariant.endpoint x).passed
    have hwritten := (out₂ x).acked_le_written
    have hlength := hcar₂.length
    rw [hcar₂.isOpen.passed, List.eq_nil_of_length_eq_zero
      (show (s₂.ep x).pending.length = 0 by omega), List.append_nil] at hpassed
    rw [hep, (hcar₂.invariant.faithful x (hcar₂.delivers x).inBounds).delivered, ← hpassed]
    exact List.take_of_length_le (by omega)

end Leaving

/-! ## Starving -/

/-- Bytes wait for a window, and nothing is unacknowledged that a timeout would send. -/
structure Endpoint.Starved (e : Endpoint) : Prop where
  unacked : getUnacknowledgedCount e.sock.sendBuf = 0
  window : e.sock.window.rcvdAdvertisedWindow = 0
  rest : sendBufferMaxNewDump e.sock.sendBuf ≠ 0 ∨ e.pending ≠ []

instance (e : Endpoint) : Decidable e.Starved :=
  decidable_of_iff (getUnacknowledgedCount e.sock.sendBuf = 0 ∧
    e.sock.window.rcvdAdvertisedWindow = 0 ∧
    (sendBufferMaxNewDump e.sock.sendBuf ≠ 0 ∨ e.pending ≠ []))
    ⟨fun h => ⟨h.1, h.2.1, h.2.2⟩, fun h => ⟨h.unacked, h.window, h.rest⟩⟩

section Starving

variable {cfg : Config} {x : Side} {data : List UInt8} {s : Sys}
  {out : Side → SendStream UInt8} {inn : Side → Reassembly}

/-- The same in the numbers of the transfer. -/
theorem Sys.Carries.starved_iff (h : s.Carries cfg x data out inn) :
    (s.ep x).Starved ↔ (out x).acked = (out x).sent ∧
      (s.ep x).sock.window.rcvdAdvertisedWindow = 0 ∧ (out x).sent < data.length := by
  have hep := h.invariant.endpoint x
  have hunacked := hep.sock.sendBuf.getUnacknowledgedCount
  have hfresh := hep.sock.sendBuf.sendBufferMaxNewDump
  have hacked := (out x).acked_le_sent
  have hsent := (out x).sent_le_written
  have hlength := h.length
  have hpending : (s.ep x).pending ≠ [] ↔ 0 < (s.ep x).pending.length := List.length_pos_iff.symm
  -- a count is zero if the counter that it stands for is
  have hnone : getUnacknowledgedCount (s.ep x).sock.sendBuf = 0 ↔
      (getUnacknowledgedCount (s.ep x).sock.sendBuf).toNat = 0 := by
    rw [← UInt32.toNat_inj, UInt32.toNat_zero]
  have hrest : sendBufferMaxNewDump (s.ep x).sock.sendBuf ≠ 0 ↔
      (sendBufferMaxNewDump (s.ep x).sock.sendBuf).toNat ≠ 0 := by
    rw [Ne, ← UInt32.toNat_inj, UInt32.toNat_zero]
  constructor
  · rintro ⟨h₁, h₂, h₃⟩
    rw [hrest, hpending] at h₃
    rw [hnone] at h₁
    exact ⟨by omega, h₂, by omega⟩
  · rintro ⟨h₁, h₂, h₃⟩
    refine ⟨hnone.mpr (by omega), h₂, ?_⟩
    rw [hrest, hpending]
    omega

/-- A side that does not starve can complete. -/
theorem Sys.Carries.complete_of_fed (hcfg : cfg.Valid)
    (hcap : (cfg.recvCapacity x.other).toNat ≤ 65535) (h : s.Carries cfg x data out inn)
    (hfed : ¬ (s.ep x).Starved) :
    ∃ t, Sys.Reaches cfg x s t ∧ t.Completed cfg x data := by
  by_cases hall : (out x).acked = data.length
  · exact h.finish hall
  -- the thread of `x` gets to the sending part, and that of the peer to `check_for_data`
  · have hsent := (out x).acked_le_sent
    have hwritten := (out x).sent_le_written
    have hlength := h.length
    obtain ⟨s₁, out₁, hcar₁, hready, hlook, hwindow, hacked, hsent₁, _, _, _⟩ :=
      h.ready (z := x) fun ht heq => ht.stays_of_rest (by omega)
    have hwritten₁ := (out₁ x).sent_le_written
    have hlength₁ := hcar₁.length
    obtain ⟨s₂, hskip, hat₂⟩ := Sys.At.skip (q := (s₁.ep x.other).pc)
      (c := s₁.transfer x out₁ inn) ⟨out₁, inn, hcar₁, hlook, rfl, rfl⟩
    obtain ⟨s₃, hpeer, hat₃, _⟩ := hat₂.peerReady
    -- there is something to send again, or the window is open
    have hopen : (s₁.transfer x out₁ inn).acked < (s₁.transfer x out₁ inn).sent ∨
        0 < (s₁.transfer x out₁ inn).window ∨
        (s₁.transfer x out₁ inn).acked = data.length := by
      rw [h.starved_iff] at hfed
      show (out₁ x).acked < (out₁ x).sent ∨
        0 < (s₁.ep x).sock.window.rcvdAdvertisedWindow.toNat ∨ (out₁ x).acked = data.length
      rw [hwindow]
      by_cases hzero : (s.ep x).sock.window.rcvdAdvertisedWindow = 0
      · left
        by_contra hnot
        exact hfed ⟨by omega, hzero, by omega⟩
      · exact Or.inr (Or.inl (UInt16.lt_iff_toNat_lt.mp (UInt16.pos_iff_ne_zero.mpr hzero)))
    -- so the rounds go on to the end, and the rest is read
    obtain ⟨s₄, hcomplete, c, ⟨out₄, inn₄, hcar₄, _, _, rfl⟩, hdone⟩ :=
      hat₃.complete (hcfg.sendCapacity x) (hcfg.recvCapacity x.other) hcap hopen
    obtain ⟨t, hleave, hrest⟩ := hcar₄.finish hdone
    exact ⟨t, (((hready.trans hskip).trans hpeer).trans hcomplete).trans hleave, hrest⟩

/-- A packet with an open window feeds it. -/
theorem Sys.Carries.feed (h : s.Carries cfg x data out inn) (hstarved : (s.ep x).Starved)
    {pkt : Packet} (hpkt : pkt ∈ s.net x) (hwindow : 0 < pkt.header.advertisedWindow) :
    ∃ t out' inn', t.Carries cfg x data out' inn' ∧ Sys.Reaches cfg x s t ∧
      ¬ (t.ep x).Starved := by
  obtain ⟨hall, _, hrest⟩ := h.starved_iff.mp hstarved
  obtain ⟨s₁, out₁, hcar₁, hready, hlook, _, _, _, _, _, hnet, _⟩ :=
    h.ready (z := x) fun ht heq => ht.stays_of_rest (by omega)
  obtain ⟨t, out', inn', _, _, _, hcar, hreceive, _, _, _, _, _, _, _, _, heq⟩ :=
    hcar₁.receive hlook (hnet ▸ hpkt)
  refine ⟨t, out', inn', hcar, hready.trans hreceive, fun hnot => ?_⟩
  rw [← heq, hnot.window] at hwindow
  exact absurd hwindow (by decide)

/-- A side that has something to send gets to send it. -/
theorem Sys.Carries.emits (h : s.Carries cfg x data out inn) {z : Side}
    (hsay : (s.ep z).sock.HasToSend) : (s.ep z).sock.Emits := by
  refine ⟨hsay, or_iff_not_imp_left.mpr fun hnone => ?_⟩
  have href := (h.invariant.endpoint z).sock.sendBuf
  obtain ⟨hfresh, hwindow⟩ := hsay.resolve_left hnone
  have hpos := UInt32.lt_iff_toNat_lt.mp (freshSendLen_pos_of hfresh hwindow hnone)
  have hle := (freshSendLen_le href).1
  have hacked := (out z).acked_le_sent
  have hcap := h.invariant.sendCapacity z
  have hwritten := h.written_lt z
  rw [UInt32.toNat_zero] at hpos
  -- the copy starts behind the last byte acknowledged, on the first lap of the ring
  have hcopy := ((s.ep z).sock.sendBuf.isDump_chunk hpos
    (by omega)).copy href (h.noWrap.sendBuf z) fun _ => 0
  rw [if_pos (by rw [Nat.mod_eq_of_lt (show (out z).acked < (out z).capacity by omega),
    Nat.mod_eq_of_lt (show (out z).sent + 1 < (out z).capacity by omega)]; omega)] at hcopy
  exact (safeMemcpyFromSendbuf_ok_iff _ _ _ _).mp ⟨_, hcopy⟩

/-- A peer that has something to send opens the window, after its application has read. -/
theorem Sys.Carries.speak (hcfg : cfg.Valid) (hcap : (cfg.recvCapacity x.other).toNat ≤ 65535)
    (h : s.Carries cfg x data out inn) (hsay : (s.ep x.other).sock.HasToSend) :
    ∃ t out' inn', t.Carries cfg x data out' inn' ∧ Sys.Reaches cfg x s t ∧
      t.ep x = s.ep x ∧ ∃ pkt ∈ t.net x, 0 < pkt.header.advertisedWindow := by
  obtain ⟨s₁, inn₁, rb, bytes, hcar₁, hread, hep₁, hself₁, _, _, hempty⟩ :=
    h.read h.peer_stays.2
  obtain ⟨hcar₂, hsending⟩ := hcar₁.sending hcar₁.peer_stays.1 hcar₁.peer_stays.2
  have hsock : ((s₁.setPc x.other .transmit).ep x.other).sock = (s₁.ep x.other).sock := by
    rw [Sys.ep_setPc_self]
  have hsay₂ : ((s₁.setPc x.other .transmit).ep x.other).sock.HasToSend := by
    rw [hsock, hep₁]
    exact hsay
  -- at a time when whatever is unacknowledged is due
  obtain ⟨sent, hsent, htransmits, _⟩ := hcar₂.sent x.other
    (defaultTimeout + 1 + ((s₁.setPc x.other .transmit).ep x.other).sock.sendBuf.lastByteAckedTs)
    (fun _ => 0)
  obtain ⟨sent', hsent', _, hsome⟩ := transmit_cases
    ((s₁.setPc x.other .transmit).ep x.other).sock
    (defaultTimeout + 1 + ((s₁.setPc x.other .transmit).ep x.other).sock.sendBuf.lastByteAckedTs)
    (fun _ => 0)
  obtain rfl := Except.ok.inj (hsent.symm.trans hsent')
  obtain ⟨t, out₃, hcar₃, htransmit, _, _, hself₃, _, hnet, _⟩ :=
    hcar₂.transmit (by simp) _ _ hsent
  rw [Side.other_other] at hself₃ hnet
  obtain ⟨pkt, hpkt⟩ := List.exists_mem_of_ne_nil _ (hsome (hcar₂.emits hsay₂) (by omega))
  refine ⟨t, out₃, inn₁, hcar₃, (hread.trans hsending).trans htransmit,
    by rw [hself₃, Sys.setPc_other, hself₁], pkt,
    by rw [hnet]; exact List.mem_append_right _ hpkt, ?_⟩
  -- its application has read everything
  have hrecv := (hcar₁.invariant.endpoint x.other).sock.recvBuf
  have hcapacity := hcar₁.invariant.recvCapacity x.other
  have hbig := hcfg.recvCapacity x.other
  have hlt := (inn₁ x.other).read_lt_next
  have hmax := hrecv.recvBufferMaxRead
  have hroom := hrecv.recvBufferMaxReceive
  rw [hep₁, hempty, UInt32.toNat_zero] at hmax
  rw [(htransmits.packets pkt hpkt).1.window, hsock, UInt16.lt_iff_toNat_lt,
    UInt32.toNat_toUInt16, hroom, UInt16.toNat_zero, Nat.mod_eq_of_lt (by omega)]
  omega

/-- A side completes unless it starves and nothing will feed it. -/
theorem Sys.Carries.complete (hcfg : cfg.Valid) (hcap : (cfg.recvCapacity x.other).toNat ≤ 65535)
    (h : s.Carries cfg x data out inn)
    (hfed : (s.ep x).Starved →
      (∃ pkt ∈ s.net x, 0 < pkt.header.advertisedWindow) ∨ (s.ep x.other).sock.HasToSend) :
    ∃ t, Sys.Reaches cfg x s t ∧ t.Completed cfg x data := by
  -- a window that is on its way is enough
  have hopened : ∀ {s : Sys} {out inn}, s.Carries cfg x data out inn → (s.ep x).Starved →
      (∃ pkt ∈ s.net x, 0 < pkt.header.advertisedWindow) →
      ∃ t, Sys.Reaches cfg x s t ∧ t.Completed cfg x data := by
    rintro s out inn hcar hstarved ⟨pkt, hpkt, hwindow⟩
    obtain ⟨u, out', inn', hcar', hreach, hnot⟩ := hcar.feed hstarved hpkt hwindow
    obtain ⟨t, hreach', hdone⟩ := hcar'.complete_of_fed hcfg hcap hnot
    exact ⟨t, hreach.trans hreach', hdone⟩
  by_cases hstarved : (s.ep x).Starved
  · rcases hfed hstarved with hpkt | hsay
    · exact hopened h hstarved hpkt
    · obtain ⟨u, out', inn', hcar, hreach, hep, hpkt⟩ := h.speak hcfg hcap hsay
      obtain ⟨t, hreach', hdone⟩ := hopened hcar (hep ▸ hstarved) hpkt
      exact ⟨t, hreach.trans hreach', hdone⟩
  · exact h.complete_of_fed hcfg hcap hstarved

end Starving

/-! ## Reachable states -/

section Runs

variable {cfg : Config} {tr : List (Sys × Label)} {s : Sys}

/-- Both sockets are set up, and stay so. -/
theorem initialized_of_run {K : Sys → Prop} (h : Run (systemFrom cfg.established) K tr s)
    (x : Side) : (s.ep x).sock.initialized = true := by
  have hall : ∀ x, (s.ep x).InLoop ∧ (s.ep x).sock.initialized = true := by
    apply h.invariant (I := fun s => ∀ x, (s.ep x).InLoop ∧ (s.ep x).sock.initialized = true)
    · rintro s rfl _ x
      exact ⟨⟨by simp [Config.established], by simp [Config.established]⟩, rfl⟩
    · intro s l s' hloop _ _ hstep
      refine (Sys.step_local hstep).forall_ep (P := fun e => e.InLoop ∧ e.sock.initialized = true)
        hloop fun e ev e' packets he hact => ?_
      obtain ⟨hloop, hinit⟩ := he
      have hloopAct := hloop.act hact
      exact ⟨hloopAct.inLoop hloop, hloopAct.frame.1.trans hinit⟩
  exact (hall x).2

/-- A reachable state in which the peer of `x` does not close. -/
theorem carries_of_run (hcfg : cfg.Valid)
    (h : Run (systemFrom cfg.established) Sys.NoWrap tr s) {x : Side}
    (hopen : (s.ep x.other).sock.dying = false)
    (hlap : ∀ z, (s.ep z).passed.length < (cfg.sendCapacity z).toNat)
    (hroom : ∀ z, (cfg.isn z).toNat + (s.ep z).passed.length + (cfg.sendCapacity z).toNat <
      2 ^ 32) :
    ∃ out inn, s.Carries cfg x (s.ep x).passed out inn := by
  obtain ⟨out, inn, hinv, hdelivers⟩ := delivers_of_run hcfg h hlap
  exact ⟨out, inn, hinv, ⟨initialized_of_run h, hopen, rfl, hlap, hroom⟩, hdelivers⟩

/-- **Delivery stays possible**: from every reachable state in which the peer of `x` does not
    close, there are steps, without any loss or any help from the application of the peer but
    that it reads, after which the thread of `x` has left, so that `cmu_close` returns, and the
    application of its peer has been given exactly the bytes that were ever passed to
    `cmu_write`, and nothing is left to read.  No side may have passed as many bytes as its
    ring has cells.  And if `x` starves, a packet that opens its window has to be on its way,
    or the peer to have something to send. -/
theorem completion_possible (hcfg : cfg.Valid)
    (h : Run (systemFrom cfg.established) Sys.NoWrap tr s) (x : Side)
    (hcap : (cfg.recvCapacity x.other).toNat ≤ 65535)
    (hopen : (s.ep x.other).sock.dying = false)
    (hfed : (s.ep x).Starved →
      (∃ pkt ∈ s.net x, 0 < pkt.header.advertisedWindow) ∨ (s.ep x.other).sock.HasToSend)
    (hlap : ∀ z, (s.ep z).passed.length < (cfg.sendCapacity z).toNat)
    (hroom : ∀ z, (cfg.isn z).toNat + (s.ep z).passed.length + (cfg.sendCapacity z).toNat <
      2 ^ 32) :
    ∃ tr' t, Run (systemFrom cfg.established) Sys.NoWrap (tr ++ tr') t ∧
      (∀ p ∈ tr', p.2.Serves x) ∧ (t.ep x).pc = .exited ∧
      (getNextByteExpectedSeqnum (t.ep x.other).sock.recvBuf).toNat =
        (cfg.isn x).toNat + (s.ep x).passed.length + 1 ∧
      recvBufferMaxRead (t.ep x.other).sock.recvBuf = 0 ∧
      (t.ep x.other).delivered = (s.ep x).passed := by
  obtain ⟨out, inn, hcar⟩ := carries_of_run hcfg h hopen hlap hroom
  obtain ⟨t, hreach, hdone⟩ := hcar.complete hcfg hcap hfed
  obtain ⟨tr', hrun, hserves⟩ := hreach.run h
  exact ⟨tr', t, hrun, hserves, hdone.left, hdone.received, hdone.read, hdone.delivered⟩

/-- The only packet is lost, the window that the client believes in is greater than the ring
    of the server, and a second `cmu_write` is in progress. -/
theorem completion_possible_lost : ∃ tr s,
    Run (systemFrom (smallConfig 8).established) Sys.NoWrap tr s ∧
    s.net .server = [] ∧ (s.ep .client).pending = [4, 5] ∧
    ∃ tr' t, Run (systemFrom (smallConfig 8).established) Sys.NoWrap (tr ++ tr') t ∧
      (∀ p ∈ tr', p.2.Serves .client) ∧ (t.ep .client).pc = .exited ∧
      (getNextByteExpectedSeqnum (t.ep .server).sock.recvBuf).toNat = 106 ∧
      recvBufferMaxRead (t.ep .server).sock.recvBuf = 0 ∧
      (t.ep .server).delivered = [1, 2, 3, 4, 5] := by
  have hinit : Run (systemFrom (smallConfig 8).established) Sys.NoWrap []
      (smallConfig 8).established := .init rfl (by decide)
  have hrun := hinit.exec ([.writeCall .client [1, 2, 3], .write .client] ++
    silentIteration .client (fun _ => 0) ++ [.lose .server 0, .writeCall .client [4, 5]]) rfl
  exact ⟨_, _, hrun, rfl, rfl, completion_possible (smallConfig_valid (by decide)) hrun .client
    (by decide) rfl (fun hstarved => absurd hstarved (by decide))
    (fun z => by cases z <;> decide) (fun z => by cases z <;> decide)⟩

end Runs

end CmuTcp
