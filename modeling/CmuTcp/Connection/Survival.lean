import CmuTcp.Connection.Sound

/-!
# Any Ack Number

`handle_message` takes the ack number of a packet as it is.  `send_buffer_update_ack` turns
away old numbers, and the asserts of `seqnum_to_index_send` those that are a capacity or
more ahead.  An ack of a byte that has not been sent passes both.

This module says exactly which ack numbers an endpoint survives, wherever its sequence
numbers are.

1. To survive is to come out with the numbers of the send buffer in order, and nothing moved
   but by an ack of bytes in flight (`SendBuffer.Survives`).
2. For the update itself the ack numbers fall into four ranges: old, in flight, not sent but
   less than a capacity ahead, and further ahead.  The third is taken and should not be; the
   fourth fails an assertion, and so does every new one if a number of the window wraps.
3. `handle_message` looks at nothing but that (`Endpoint.Sound.survives_iff`); a number equal
   to the last one is old.

Main result: `ack_survivable_iff`.
-/

namespace CmuTcp

open FaultSystem

/-! ## What it means to survive -/

/-- The order of the numbers of a send buffer. -/
structure SendBuffer.InOrder (sb : SendBuffer) : Prop where
  acked_le_sent : sb.lastByteAckedSeqnum ≤ getLastByteSentSeqnum sb
  sent_lt_next : getLastByteSentSeqnum sb < getNextByteWrittenSeqnum sb
  next_le : (getNextByteWrittenSeqnum sb).toNat ≤
    sb.lastByteAckedSeqnum.toNat + sb.capacity.toNat

/-- The ack leaves `sb'`: its numbers are in order, and it is `sb`, unless the ack is of a
    byte that has been sent and not acknowledged, and moves the last byte acked there. -/
structure SendBuffer.Survives (sb : SendBuffer) (acknum : UInt32) (sb' : SendBuffer) : Prop where
  inOrder : sb'.InOrder
  moves : sb' = sb ∨ sb.lastByteAckedSeqnum < acknum - 1 ∧
    acknum - 1 ≤ getLastByteSentSeqnum sb ∧ sb'.lastByteAckedSeqnum = acknum - 1

/-- `handle_message` survives the packet. -/
structure CmuSocket.Survives (sock : CmuSocket) (p : Packet) (now : Int) : Prop where
  asserts : ∀ site, handleMessage sock p now ≠ .error (.assertion site)
  -- the ack update comes first, and takes effect whatever the payload does
  updates : ∀ sock', handleAck sock p.header.ackNum now = .ok sock' →
    sock.sendBuf.Survives p.header.ackNum sock'.sendBuf
  leaves : ∀ sock' replies, handleMessage sock p now = .ok (sock', replies) →
    sock.sendBuf.Survives p.header.ackNum sock'.sendBuf

/-- The condition: the bytes written have not wrapped around, the ack is of a byte sent or
    acknowledged, and if it is new then no number of the window wraps around. -/
structure SendBuffer.AckInRange (sb : SendBuffer) (acknum : UInt32) : Prop where
  unwrapped : sb.lastByteAckedSeqnum < getNextByteWrittenSeqnum sb
  sent : acknum - 1 ≤ getLastByteSentSeqnum sb
  window : sb.lastByteAckedSeqnum < acknum - 1 → sb.NoWrap

/-! ## The send buffer -/

section Buffer

variable {sb sb' : SendBuffer} {isn : ℕ} {st : SendStream UInt8} {acknum : UInt32} {now : Int}

theorem SendBuffer.Refines.inOrder_iff (h : sb.Refines isn st) (hlast : isn + st.sent < 2 ^ 32) :
    sb.InOrder ↔ sb.lastByteAckedSeqnum < CmuTcp.getNextByteWrittenSeqnum sb := by
  have hsent : (CmuTcp.getLastByteSentSeqnum sb).toNat = isn + st.sent := by
    rw [h.getLastByteSentSeqnum_mod, Nat.mod_eq_of_lt hlast]
  have hnext := h.getNextByteWrittenSeqnum_mod
  have hcap := h.capacity_lt
  have hle := st.written_le
  have hacked := st.acked_le_sent
  have hwritten := st.sent_le_written
  have hpos := h.capacity_pos
  constructor
  · intro hin
    exact UInt32.lt_of_le_of_lt hin.acked_le_sent hin.sent_lt_next
  · intro hlt
    rw [UInt32.lt_iff_toNat_lt, h.acked, hnext] at hlt
    -- one past the bytes written has not wrapped, or it would lie below the last byte acked
    have hnext' : (isn + st.written.length + 1) % 2 ^ 32 = isn + st.written.length + 1 := by
      apply Nat.mod_eq_of_lt
      by_contra hwraps
      omega
    refine ⟨?_, ?_, ?_⟩
    · rw [UInt32.le_iff_toNat_le, h.acked, hsent]
      omega
    · rw [UInt32.lt_iff_toNat_lt, hsent, hnext, hnext']
      omega
    · rw [hnext, hnext', h.acked, h.capacity]
      omega

/-- A new ack gets past the asserts only if no number of the window wraps around. -/
theorem noWrap_of_updateAck (hnew : sb.lastByteAckedSeqnum < acknum - 1)
    (hok : sendBufferUpdateAck sb acknum now = .ok sb') :
    sb.NoWrap ∧ sb'.lastByteAckedSeqnum = acknum - 1 := by
  obtain ⟨_, idx, hidx, rfl⟩ | ⟨hold, _⟩ := sendBufferUpdateAck_eq_ok hok
  swap
  · exact absurd hnew (UInt32.not_lt.mpr hold)
  have hhigh := (seqnumToIndexSend_ok_iff hnew).mp ⟨idx, hidx⟩
  refine ⟨?_, rfl⟩
  rw [UInt32.lt_iff_toNat_lt] at hnew hhigh
  rw [UInt32.toNat_add] at hhigh
  unfold SendBuffer.NoWrap
  have := sb.capacity.toNat_lt
  omega

theorem updateAck_of_old (hold : ¬ sb.lastByteAckedSeqnum < acknum - 1) :
    sendBufferUpdateAck sb acknum now = .ok sb :=
  if_neg hold

/-- The update itself: for which acks it leaves a buffer in order. -/
theorem SendBuffer.Refines.updateAck_survives_iff (h : sb.Refines isn st)
    (hlast : isn + st.sent < 2 ^ 32) (now : Int) :
    (∃ sb', CmuTcp.sendBufferUpdateAck sb acknum now = .ok sb' ∧ sb.Survives acknum sb') ↔
      sb.AckInRange acknum := by
  have hsent : (CmuTcp.getLastByteSentSeqnum sb).toNat = isn + st.sent := by
    rw [h.getLastByteSentSeqnum_mod, Nat.mod_eq_of_lt hlast]
  -- the ack index moves only for an ack beyond it, and only then the window counts
  by_cases hnew : sb.lastByteAckedSeqnum < acknum - 1
  · constructor
    · rintro ⟨sb', hok, hsurvives⟩
      obtain ⟨hw, hmoved⟩ := noWrap_of_updateAck hnew hok
      have hroom := h.noWrap hw
      have hle := st.written_le
      have hacked := st.acked_le_written
      -- the buffer refines a stream again, which needs the ack at most at the last byte sent
      refine ⟨?_, ?_, fun _ => hw⟩
      · rw [UInt32.lt_iff_toNat_lt, h.acked, h.getNextByteWrittenSeqnum hw]
        omega
      · rcases hsurvives.moves with rfl | ⟨_, hle, _⟩
        · rw [hmoved] at hnew
          exact absurd hnew (UInt32.lt_irrefl _)
        · exact hle
    · intro hrange
      -- the range tests are what the step of the stream asks for
      have hw := hrange.window hnew
      have hack := hrange.sent
      rw [UInt32.le_iff_toNat_le, hsent] at hack
      obtain ⟨sb', hok, href, _⟩ := h.sendBufferUpdateAck hw hack now
      have hmoved := (noWrap_of_updateAck hnew hok).2
      refine ⟨sb', hok, (href.inOrder_iff hlast).mpr ?_, Or.inr ⟨hnew, hrange.sent, hmoved⟩⟩
      have hroom := h.noWrap hw
      have hle := st.written_le
      have hsent' := st.sent_le_written
      have hpos := h.capacity_pos
      rw [UInt32.lt_iff_toNat_lt, href.getNextByteWrittenSeqnum_mod, hmoved]
      show _ < (isn + st.written.length + 1) % 2 ^ 32
      omega
  · rw [updateAck_of_old hnew]
    -- an old ack is at most the acked byte, and so at most the last byte sent
    have hle : acknum - 1 ≤ CmuTcp.getLastByteSentSeqnum sb := by
      have hacked := st.acked_le_sent
      rw [UInt32.lt_iff_toNat_lt, h.acked] at hnew
      rw [UInt32.le_iff_toNat_le, hsent]
      omega
    constructor
    · rintro ⟨_, hok, hsurvives⟩
      obtain rfl := Except.ok.inj hok
      exact ⟨(h.inOrder_iff hlast).mp hsurvives.inOrder, hle, fun hnew' => absurd hnew' hnew⟩
    · intro hrange
      exact ⟨sb, rfl, (h.inOrder_iff hlast).mpr hrange.unwrapped, Or.inl rfl⟩

end Buffer

/-! ## handle_message -/

section Message

variable {e : Endpoint} {isn : ℕ} {st : SendStream UInt8} {p : Packet} {now : Int}

/-- A duplicate is not looked at, and is old. -/
theorem Endpoint.Sound.handleAck_survives_iff (h : e.Sound isn st) (now : Int)
    {acknum : UInt32} :
    (∃ sock, CmuTcp.handleAck e.sock acknum now = .ok sock ∧
      e.sock.sendBuf.Survives acknum sock.sendBuf) ↔ e.sock.sendBuf.AckInRange acknum := by
  rw [← h.sendBuf.updateAck_survives_iff h.sent now]
  unfold CmuTcp.handleAck
  -- the branch of a duplicate ack does not touch the buffer, and its ack is an old one
  by_cases hdup : acknum = e.sock.window.lastAckReceived
  · have hold : ¬ e.sock.sendBuf.lastByteAckedSeqnum < acknum - 1 := by
      rw [hdup]
      exact UInt32.not_lt.mpr h.lastAck
    rw [if_pos hdup, updateAck_of_old hold]
    constructor
    · rintro ⟨_, hok, hsurvives⟩
      obtain rfl := Except.ok.inj hok
      exact ⟨_, rfl, hsurvives⟩
    · rintro ⟨_, hok, hsurvives⟩
      obtain rfl := Except.ok.inj hok
      exact ⟨_, rfl, hsurvives⟩
  · rw [if_neg hdup]
    constructor
    · rintro ⟨sock, hok, hsurvives⟩
      obtain ⟨sb, hupdate, hret⟩ := ok_of_bind_ok hok
      obtain rfl := Except.ok.inj hret
      exact ⟨sb, hupdate, hsurvives⟩
    · rintro ⟨sb, hupdate, hsurvives⟩
      rw [hupdate]
      exact ⟨_, rfl, hsurvives⟩

/-- The ack update fails at an assert only. -/
theorem handleAck_fails (sock : CmuSocket) (acknum : UInt32) (now : Int) :
    FailsOnly (fun f => ∃ site, f = Fault.assertion site) (handleAck sock acknum now) := by
  have hassert : ∀ (b : Prop) [Decidable b] (site : AssertSite),
      FailsOnly (fun f => ∃ site, f = Fault.assertion site) (cAssert b site) :=
    fun b _ site => .ite (.ok ()) (.error ⟨site, rfl⟩)
  refine .ite (.ok sock) (.bind ?_ fun _ => .ok _)
  refine .ite (.bind ?_ fun _ => .ok _) (.ok _)
  exact .bind (hassert _ _) fun _ => .bind (hassert _ _) fun _ => .ok _

/-- The flags of the packet: ACK, and neither SYN nor FIN. -/
structure Packet.IsAckOnly (p : Packet) : Prop where
  ack : p.hasFlag ackFlagMask = true
  syn : p.hasFlag synFlagMask = false
  fin : p.hasFlag finFlagMask = false

theorem Endpoint.Sound.survives_iff (h : e.Sound isn st) (hp : p.IsAckOnly)
    (hfits : e.sock.PayloadFits p) :
    e.sock.Survives p now ↔ e.sock.sendBuf.AckInRange p.header.ackNum := by
  rw [← h.handleAck_survives_iff now]
  have hmsg := handleMessage_of_hasFlag e.sock hp.ack hp.syn hp.fin now
  constructor
  · intro hsurvives
    cases hack : CmuTcp.handleAck e.sock p.header.ackNum now with
    | ok sock => exact ⟨sock, rfl, hsurvives.updates sock hack⟩
    | error f =>
      -- it fails at an assert, and `handle_message` with it
      obtain ⟨site, rfl⟩ := (handleAck_fails e.sock p.header.ackNum now).fault f hack
      rw [hack] at hmsg
      exact absurd hmsg (hsurvives.asserts site)
  · rintro ⟨sock, hack, hsurvives⟩
    refine ⟨fun site hfault => ?_, fun sock' hack' => ?_, fun sock' replies hok => ?_⟩
    · rw [hmsg, hack] at hfault
      have hsame := handleAck_recvBuf hack
      have hsteady := h.recvBuf
      rw [← hsame] at hsteady
      -- behind the ack update only the payload is left, which violates no assert
      have hpayload : FailsOnly (· = .memory) (if getPayloadLen p ≠ 0 then handlePayload { sock with
          window := { sock.window with rcvdAdvertisedWindow := p.header.advertisedWindow } } p
          else .ok ({ sock with
            window := { sock.window with
              rcvdAdvertisedWindow := p.header.advertisedWindow } }, [])) := by
        split
        · rename_i hlen
          refine .bind (hsteady.receivePayload ?_ _).1 fun _ => .ok _
          rw [hsame]
          exact hfits hlen
        · exact .ok _
      exact absurd (hpayload.fault _ hfault) (by simp)
    · obtain rfl := Except.ok.inj (hack.symm.trans hack')
      exact hsurvives
    · rcases handleMessage_ok hok with ⟨hfin, _⟩ | ⟨_, hhandles⟩
      · rw [hp.fin] at hfin
        exact absurd hfin Bool.false_ne_true
      · obtain ⟨sock₁, hack', hsb, _⟩ := hhandles.ack
        obtain rfl := Except.ok.inj (hack.symm.trans hack')
        rw [hsb]
        exact hsurvives

end Message

/-! ## Runs -/

section Runs

variable {cfg : Config} {x : Side} {tr : List (Endpoint × Event)} {e : Endpoint}

/-- **Which ack numbers are survived**: in every state of a run whose packets the endpoint
    bears, and for every packet with the ACK flag and without SYN and FIN, whatever its
    other fields are, `handle_message` violates no assert and leaves the send buffer in
    order if and only if the ack number is in range. -/
theorem ack_survivable_iff (hsend : 2 ≤ (cfg.sendCapacity x).toNat)
    (hsend' : (cfg.sendCapacity x).toNat ≤ 2 ^ 31) (hrecv : 2 ≤ (cfg.recvCapacity x).toNat)
    (hrecv' : (cfg.recvCapacity x).toNat ≤ 2 ^ 31)
    (h : Run (loneSystem cfg x) (fun _ => True) tr e) (hbears : ∀ p ∈ tr, p.1.Bears p.2)
    {p : Packet} (hp : p.IsAckOnly) (hfits : e.sock.PayloadFits p) (now : Int) :
    e.sock.Survives p now ↔ e.sock.sendBuf.AckInRange p.header.ackNum := by
  obtain ⟨st, hsound⟩ := sound_of_run hsend hsend' hrecv hrecv' h hbears
  exact hsound.survives_iff hp hfits

end Runs

/-- A pure ACK of the server of a small connection. -/
def ackPacket (acknum : UInt32) : Packet where
  header := ⟨packetIdentifier, 0, 0, 501, acknum, headerLen, headerLen, ackFlagMask, 10, 0⟩
  body := []

theorem ackPacket_isAckOnly (acknum : UInt32) : (ackPacket acknum).IsAckOnly :=
  ⟨show (ackFlagMask &&& ackFlagMask != 0) = true by decide,
    show (ackFlagMask &&& synFlagMask != 0) = false by decide,
    show (ackFlagMask &&& finFlagMask != 0) = false by decide⟩

/-- Two bytes are sent, and the first is acknowledged. -/
def halfAckedEvents : List Event :=
  [.writeCall [7, 8], .write] ++ List.replicate 6 (.backend 0 fun _ => 0) ++
    [.receive 0 ⟨0, 0⟩ (ackPacket 102)]

/-- An ack of the second byte. -/
theorem ack_survivable_iff_next : ∃ tr e,
    Run (loneSystem (smallConfig 4) .client) (fun _ => True) tr e ∧
    e.sock.sendBuf.lastByteAckedSeqnum = 101 ∧ e.sock.Survives (ackPacket 103) 0 := by
  have hinit : Run (loneSystem (smallConfig 4) .client) (fun _ => True) []
      ((smallConfig 4).established.ep .client) := .init rfl trivial
  have hrun := hinit.exec halfAckedEvents rfl
  refine ⟨_, _, hrun, rfl, ?_⟩
  have hiff := ack_survivable_iff (by decide) (by decide) (by decide) (by decide) hrun
    (by decide) (ackPacket_isAckOnly 103) (by decide) 0
  exact hiff.mpr ⟨by decide, by decide, fun _ => by decide⟩

/-- Nothing has been written.  An ack of the second byte moves the last byte acked, and two
    bytes count as sent and not acknowledged; ack `0` aborts. -/
theorem ack_not_survived : ∃ e sock,
    Run (loneSystem (smallConfig 4) .client) (fun _ => True) [] e ∧
    handleMessage e.sock (ackPacket 103) 0 = .ok (sock, []) ∧
    sock.sendBuf.lastByteAckedSeqnum = 102 ∧ getLastByteSentSeqnum e.sock.sendBuf = 100 ∧
    getUnacknowledgedCount sock.sendBuf = 2 ∧ ¬ e.sock.Survives (ackPacket 103) 0 ∧
    handleMessage e.sock (ackPacket 0) 0 = .error (.assertion .seqnumToIndexSendHigh) ∧
    ¬ e.sock.Survives (ackPacket 0) 0 := by
  have hinit : Run (loneSystem (smallConfig 4) .client) (fun _ => True) []
      ((smallConfig 4).established.ep .client) := .init rfl trivial
  refine ⟨_, _, hinit, rfl, rfl, rfl, rfl, fun hsurvives => ?_, rfl, fun hsurvives => ?_⟩
  · rcases (hsurvives.leaves _ _ rfl).moves with hsame | ⟨_, hsent, _⟩
    · exact absurd (congrArg SendBuffer.lastByteAckedSeqnum hsame) (by decide)
    · exact absurd hsent (by decide)
  · exact hsurvives.asserts _ rfl

end CmuTcp
