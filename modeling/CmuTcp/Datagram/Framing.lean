import CmuTcp.Model.Host

/-!
# Datagram Framing

`check_for_data` looks at a header, believes its `plen`, and reads that many bytes.  A
datagram is handled as one packet exactly if `plen` counts a header and no more bytes
than the datagram has.  The packets of an endpoint do, so for them the datagram level is
the packet level.

1. The read loop ends with exactly `plen` bytes, those that it began with first, by induction
   on the queue (`readLoop_handles`).  One `recvfrom` is enough if the head is long enough.
2. A well framed datagram is therefore handled alone; and a call that handles the head alone
   was given one, since its bytes are at least a header and at most those of the head.
3. The same call in steps of a host, one `recvfrom` each, comes to the same end.

Main result: `framing_iff`.
-/

namespace CmuTcp

open FaultSystem

/-! ## The read loop -/

/-- A read loop that is complete. -/
theorem readLoop_of_le {plen : ℕ} {pkt : List UInt8} (h : plen ≤ pkt.length) (conn : SockAddr)
    (queue : List Datagram) : readLoop plen pkt conn queue = .handles pkt conn queue := by
  cases queue with
  | nil => exact if_neg (Nat.not_lt.mpr h)
  | cons d rest => exact if_neg (Nat.not_lt.mpr h)

/-- One `recvfrom` is enough if the datagram has `plen` bytes. -/
theorem readLoop_head {plen : ℕ} {d : Datagram} (hpos : 0 < plen) (h : plen ≤ d.bytes.length)
    (conn : SockAddr) (rest : List Datagram) :
    readLoop plen [] conn (d :: rest) = .handles (d.bytes.take plen) d.source rest := by
  have htake : plen ≤ (d.bytes.take plen).length := by
    rw [List.length_take]
    omega
  show (if 0 < plen then readLoop plen (d.bytes.take plen) d.source rest else _) = _
  rw [if_pos hpos, readLoop_of_le htake]

/-- A loop ends with exactly `plen` bytes, those it began with first, and it leaves the
    datagrams at the end of the queue. -/
theorem readLoop_handles {plen : ℕ} {pkt pkt' : List UInt8} {conn conn' : SockAddr}
    {queue queue' : List Datagram} (hle : pkt.length ≤ plen)
    (h : readLoop plen pkt conn queue = .handles pkt' conn' queue') :
    pkt'.length = plen ∧ pkt <+: pkt' ∧ queue' <:+ queue := by
  induction queue generalizing pkt conn with
  | nil =>
    unfold readLoop at h
    split at h
    · exact absurd h (by simp)
    · obtain ⟨rfl, _, rfl⟩ := Framing.handles.inj h
      exact ⟨by omega, List.prefix_refl _, List.suffix_refl _⟩
  | cons d rest ih =>
    unfold readLoop at h
    split at h
    · have hlen : (pkt ++ d.bytes.take (plen - pkt.length)).length ≤ plen := by
        rw [List.length_append, List.length_take]
        omega
      obtain ⟨hplen, hbefore, hsuffix⟩ := ih hlen h
      exact ⟨hplen, (List.prefix_append _ _).trans hbefore, hsuffix.trans (List.suffix_cons d rest)⟩
    · obtain ⟨rfl, _, rfl⟩ := Framing.handles.inj h
      exact ⟨by omega, List.prefix_refl _, List.suffix_refl _⟩

/-- The packet that a whole call reads begins with the header that it looked at. -/
theorem parseHeader_readLoop {plen : ℕ} {d : Datagram} {rest queue : List Datagram}
    {pkt : List UInt8} {conn conn' : SockAddr} (hhdr : 25 ≤ d.bytes.length) (hplen : 25 ≤ plen)
    (h : readLoop plen [] conn (d :: rest) = .handles pkt conn' queue) :
    parseHeader pkt = parseHeader d.bytes := by
  have hloop : readLoop plen (d.bytes.take plen) d.source rest = .handles pkt conn' queue := by
    rw [← h]
    exact (if_pos (show 0 < plen by omega)).symm
  obtain ⟨_, ⟨more, rfl⟩, _⟩ := readLoop_handles (by rw [List.length_take]; omega) hloop
  have htake : (d.bytes.take plen ++ more).take 25 = d.bytes.take 25 := by
    rw [List.take_append_of_le_length (by rw [List.length_take]; omega), List.take_take,
      Nat.min_eq_left hplen]
  rw [← parseHeader_take (d.bytes.take plen ++ more) le_rfl, htake, parseHeader_take _ le_rfl]

/-- A loop that ends has a packet. -/
theorem readLoop_ne_returns (plen : ℕ) (pkt : List UInt8) (conn conn' : SockAddr)
    (queue queue' : List Datagram) : readLoop plen pkt conn queue ≠ .returns conn' queue' := by
  induction queue generalizing pkt conn with
  | nil =>
    unfold readLoop
    split <;> simp
  | cons d rest ih =>
    unfold readLoop
    split
    · exact ih _ _
    · simp

/-! ## One call -/

/-- The call ends, takes the head of the queue and nothing else, and hands a whole header
    and only bytes of the head to `handle_message`. -/
structure Framing.Frames (f : Framing) (head : Datagram) (rest : List Datagram) : Prop where
  terminates : f ≠ .blocks
  removes : ∀ conn queue, (f = .returns conn queue ∨ ∃ pkt, f = .handles pkt conn queue) →
    queue = rest
  passes : ∀ pkt conn queue, f = .handles pkt conn queue →
    pkt <+: head.bytes ∧ headerLen.toNat ≤ pkt.length

/-- `plen` counts a header, and no more bytes than the datagram has. -/
structure Datagram.WellFramed (d : Datagram) : Prop where
  header : headerLen ≤ (parseHeader d.bytes).plen
  fits : (parseHeader d.bytes).plen.toNat ≤ d.bytes.length

section Call

variable {head : Datagram} {rest : List Datagram}

/-- The bytes that the peek returns have the `plen` of the datagram. -/
theorem checkForDataFraming_cons (flags : CmuReadMode) (conn : SockAddr) :
    checkForDataFraming flags conn (head :: rest) =
      if headerLen.toNat ≤ head.bytes.length then
        readLoop (parseHeader head.bytes).plen.toNat [] head.source (head :: rest)
      else .returns head.source (head :: rest) := by
  have hhdr : headerLen.toNat = 25 := rfl
  have hpeek : (head.bytes.take headerLen.toNat).length ≥ headerLen.toNat ↔
      headerLen.toNat ≤ head.bytes.length := by
    rw [List.length_take]
    omega
  simp only [checkForDataFraming, hpeek, parseHeader_take head.bytes (Nat.le_of_eq hhdr.symm)]

/-- A well framed datagram is handled as one packet, in every mode. -/
theorem Datagram.WellFramed.framing (h : head.WellFramed) (flags : CmuReadMode)
    (conn : SockAddr) : checkForDataFraming flags conn (head :: rest) =
      .handles (head.bytes.take (parseHeader head.bytes).plen.toNat) head.source rest := by
  have hhdr : headerLen.toNat = 25 := rfl
  have hheader := UInt16.le_iff_toNat_le.mp h.header
  have hfits := h.fits
  rw [checkForDataFraming_cons, if_pos (by omega), readLoop_head (by omega) hfits]

theorem Datagram.WellFramed.frames (h : head.WellFramed) (flags : CmuReadMode)
    (conn : SockAddr) : (checkForDataFraming flags conn (head :: rest)).Frames head rest := by
  rw [h.framing flags conn]
  refine ⟨by simp, ?_, ?_⟩
  · rintro conn' queue (hreturns | ⟨pkt, hhandles⟩)
    · exact absurd hreturns (by simp)
    · exact (Framing.handles.inj hhandles).2.2.symm
  · intro pkt conn' queue hhandles
    obtain ⟨rfl, _, _⟩ := Framing.handles.inj hhandles
    refine ⟨List.take_prefix _ _, ?_⟩
    rw [List.length_take, Nat.min_eq_left h.fits]
    exact UInt16.le_iff_toNat_le.mp h.header

/-- A call that frames the head was given a well framed one. -/
theorem Framing.Frames.wellFramed {flags : CmuReadMode} {conn : SockAddr}
    (h : (checkForDataFraming flags conn (head :: rest)).Frames head rest) : head.WellFramed := by
  rw [checkForDataFraming_cons] at h
  by_cases hlen : headerLen.toNat ≤ head.bytes.length
  · rw [if_pos hlen] at h
    cases hloop : readLoop (parseHeader head.bytes).plen.toNat [] head.source (head :: rest) with
    | blocks => exact absurd hloop h.terminates
    | returns conn' queue => exact absurd hloop (readLoop_ne_returns _ _ _ _ _ _)
    | handles pkt conn' queue =>
      obtain ⟨hplen, _⟩ := readLoop_handles (Nat.zero_le _) hloop
      obtain ⟨hbefore, hheader⟩ := h.passes pkt conn' queue hloop
      refine ⟨UInt16.le_iff_toNat_le.mpr (hplen ▸ hheader), ?_⟩
      rw [← hplen]
      exact hbefore.length_le
  · -- the datagram stays where it is
    rw [if_neg hlen] at h
    have hqueue := h.removes head.source (head :: rest) (Or.inl rfl)
    exact absurd (congrArg List.length hqueue) (by simp)

end Call

/-! ## The packets of an endpoint -/

/-- A packet of `plen` bytes is a well framed datagram, and `check_for_data` handles it as
    the packet it is. -/
theorem checkForDataUdp_packet {p : Packet}
    (hplen : p.header.plen.toNat = headerLen.toNat + p.body.length) {e : Endpoint}
    (hpc : e.pc = .checkData) (source : SockAddr) (rest : List Datagram) (now : Int) :
    checkForDataUdp e .noWait (⟨source, p.bytes⟩ :: rest) now =
      (backendReceive e now source p).map fun r => r.map fun r => (r, rest) := by
  have hhdr : headerLen.toNat = 25 := rfl
  have hparse : parseHeader p.bytes = p.header := parseHeader_bytes p.header p.body
  have hlen : p.bytes.length = p.header.plen.toNat := by
    rw [Packet.length_bytes, hplen, hhdr]
  -- a datagram that holds one whole packet is taken off the queue alone
  have hframed : (⟨source, p.bytes⟩ : Datagram).WellFramed := by
    refine ⟨?_, ?_⟩
    · show headerLen ≤ (parseHeader p.bytes).plen
      rw [hparse, UInt16.le_iff_toNat_le]
      omega
    · show (parseHeader p.bytes).plen.toNat ≤ p.bytes.length
      rw [hparse, hlen]
  have hframing : checkForDataFraming .noWait e.sock.conn (_ :: rest) = _ :=
    hframed.framing .noWait e.sock.conn
  simp only [hparse, ← hlen, List.take_length] at hframing
  have hwhole : ¬ p.bytes.length < headerLen.toNat := by omega
  -- and it parses back to the packet
  unfold checkForDataUdp
  simp only [hframing, if_neg hwhole, parsePacket_bytes]
  simp only [backendReceive, hpc, Option.map_some, Option.some.injEq]
  cases checkForData { e with sock := e.sock.heardFrom source } (some p) now with
  | error f => rfl
  | ok r => rfl

/-! ## One recvfrom at a time -/

section Steps

variable {h : Host} {now : Int} {pkt : List UInt8} {conn : SockAddr} {queue : List Datagram}

/-- A read loop that ends is so many steps of the host, whatever comes next. -/
theorem Host.exec_readLoop (h₀ : Host) (now : Int) {loop : ReadLoop}
    (hreading : h.reading = some loop)
    (hloop : readLoop loop.hdr.plen.toNat loop.pkt h.ep.sock.conn h.queue =
      .handles pkt conn queue) (ls : List HostLabel) :
    ∃ n, exec (hostSystem h₀) (fun _ => True) h (List.replicate n (.recvfrom now) ++ ls) =
      exec (hostSystem h₀) (fun _ => True) { h with
        ep := { h.ep with sock := h.ep.sock.heardFrom conn }
        queue := queue
        reading := some { loop with pkt := pkt } } ls := by
  obtain ⟨e, q, r, sentTo⟩ := h
  dsimp only at hreading hloop ⊢
  subst hreading
  -- along the queue: each datagram is taken while bytes are missing
  induction q generalizing e loop with
  | nil =>
    unfold readLoop at hloop
    split at hloop
    · exact absurd hloop (by simp)
    · obtain ⟨rfl, rfl, rfl⟩ := Framing.handles.inj hloop
      exact ⟨0, rfl⟩
  | cons d rest ih =>
    unfold readLoop at hloop
    split at hloop
    · rename_i hmissing
      obtain ⟨n, hn⟩ := @ih { loop with
          pkt := loop.pkt ++ d.bytes.take (loop.hdr.plen.toNat - loop.pkt.length) }
        { e with sock := e.sock.heardFrom d.source } hloop
      refine ⟨n + 1, ?_⟩
      have hstep : (hostSystem h₀).step ⟨e, d :: rest, some loop, sentTo⟩ (.recvfrom now) =
          some (.ok ⟨{ e with sock := e.sock.heardFrom d.source }, rest, some { loop with
            pkt := loop.pkt ++ d.bytes.take (loop.hdr.plen.toNat - loop.pkt.length) },
            sentTo⟩) := if_pos hmissing
      rw [List.replicate_succ, List.cons_append]
      simp only [exec, hstep, if_true, hn]
      rfl
    · obtain ⟨rfl, rfl, rfl⟩ := Framing.handles.inj hloop
      exact ⟨0, rfl⟩

/-- The end of the read loop of `check_for_data`. -/
theorem Host.step_backend_handles {hdr : CmuTcpHeader} {r : Endpoint × List Packet}
    (hreading : h.reading = some ⟨hdr, pkt⟩) (hpc : h.ep.pc = .checkData)
    (hlen : pkt.length = hdr.plen.toNat) (hwhole : headerLen.toNat ≤ pkt.length)
    (hr : checkForData h.ep (some ⟨hdr, pkt.drop headerLen.toNat⟩) now = .ok r)
    (beyond : ℕ → UInt8) :
    h.step (.backend now beyond) = some (.ok ({ h with reading := none }.put r)) := by
  show h.backend now beyond = _
  unfold Host.backend
  simp only [hreading, hpc, hr, if_neg (Nat.not_lt.mpr hlen.ge), if_neg (Nat.not_lt.mpr hwhole)]
  rfl

/-- A call of `check_for_data(sock, NO_WAIT)` that ends is so many steps of the host. -/
theorem Host.exec_checkForDataUdp {h₀ : Host} {r : Endpoint × List Packet}
    (hpc : h.ep.pc = .checkData) (hidle : h.reading = none) (hqueue : h.queue ≠ [])
    (hcall : checkForDataUdp h.ep .noWait h.queue now = some (.ok (r, queue)))
    (beyond : ℕ → UInt8) :
    ∃ ls, exec (hostSystem h₀) (fun _ => True) h ls =
      some (.ok ({ h with queue := queue }.put r)) := by
  obtain ⟨e, q, reading, sentTo⟩ := h
  dsimp only at hpc hidle hqueue hcall ⊢
  subst hidle
  cases q with
  | nil => exact absurd rfl hqueue
  | cons d rest =>
    have hlen : headerLen.toNat = 25 := rfl
    have hpeek : (d.bytes.take headerLen.toNat).length ≥ headerLen.toNat ↔
        headerLen.toNat ≤ d.bytes.length := by
      rw [List.length_take]
      omega
    unfold checkForDataUdp at hcall
    rw [checkForDataFraming_cons] at hcall
    by_cases hwhole : headerLen.toNat ≤ d.bytes.length
    · rw [if_pos hwhole] at hcall
      have hstep : (hostSystem h₀).step ⟨e, d :: rest, none, sentTo⟩ (.recvfrom now) =
          some (.ok ⟨{ e with sock := e.sock.heardFrom d.source }, d :: rest,
            some ⟨parseHeader d.bytes, []⟩, sentTo⟩) := by
        simp only [hostSystem, Host.step, Host.recvfrom, hpc, hpeek, if_pos hwhole,
          parseHeader_take d.bytes hlen.ge]
      -- the call did not wait, so the read loop ended and its packet was handled
      split at hcall
      · exact absurd hcall (by simp)
      · rename_i hreturns
        exact absurd hreturns (readLoop_ne_returns _ _ _ _ _ _)
      · rename_i pkt conn queue' hhandles
        obtain ⟨n, hn⟩ := Host.exec_readLoop h₀ now
          (h := ⟨{ e with sock := e.sock.heardFrom d.source }, d :: rest,
            some ⟨parseHeader d.bytes, []⟩, sentTo⟩) rfl hhandles [.backend now beyond]
        refine ⟨.recvfrom now :: (List.replicate n (.recvfrom now) ++ [.backend now beyond]), ?_⟩
        obtain ⟨hpkt, _⟩ := readLoop_handles (Nat.zero_le _) hhandles
        by_cases hshort : pkt.length < headerLen.toNat
        · simp only [hshort, if_true] at hcall
          exact absurd (Option.some.inj hcall) (by rintro ⟨⟩)
        · have hparse : parseHeader pkt = parseHeader d.bytes :=
            parseHeader_readLoop (hlen ▸ hwhole) (by omega) hhandles
          obtain ⟨r', hr', hret⟩ := ok_of_bind_ok
            (by simpa only [if_neg hshort] using Option.some.inj hcall)
          obtain ⟨rfl, rfl⟩ := Prod.mk.inj (Except.ok.inj hret)
          rw [parsePacket, hparse] at hr'
          have hback := Host.step_backend_handles (h := ⟨{ e with
            sock := e.sock.heardFrom conn }, queue', some ⟨parseHeader d.bytes, pkt⟩, sentTo⟩)
            rfl hpc hpkt (Nat.not_lt.mp hshort) hr' beyond
          simp only [exec, hstep, if_true, hn]
          simp only [CmuSocket.heardFrom, hostSystem, Host.put] at hback ⊢
          simp only [hback]
    · -- a short datagram is only looked at
      rw [if_neg hwhole] at hcall
      obtain ⟨rfl, rfl⟩ := Prod.mk.inj (Except.ok.inj (Option.some.inj hcall))
      refine ⟨[.recvfrom now], ?_⟩
      have hstep : (hostSystem h₀).step ⟨e, d :: rest, none, sentTo⟩ (.recvfrom now) =
          some (.ok ⟨{ e with sock := e.sock.heardFrom d.source, pc := .transmit }, d :: rest,
            none, sentTo⟩) := by
        simp only [hostSystem, Host.step, Host.recvfrom, hpc, hpeek, if_neg hwhole]
      simp only [exec, hstep, if_true, Host.put, List.map_nil, List.append_nil]

end Steps

/-! ## Main result -/

/-- **When a datagram is framed**: for every non-empty queue, one call
    `check_for_data(sock, NO_WAIT)` ends without waiting, removes exactly the head and hands
    only bytes of the head, at least a whole header, to `handle_message`, if and only if the
    `plen` field of the head is at least 25 and at most the length of the head. -/
theorem framing_iff (conn : SockAddr) (head : Datagram) (rest : List Datagram) :
    (checkForDataFraming .noWait conn (head :: rest)).Frames head rest ↔ head.WellFramed :=
  ⟨fun h => h.wellFramed, fun h => h.frames .noWait conn⟩

/-- A pure ACK whose `plen` field has the value `plen`. -/
def ackBytes (plen : UInt16) : List UInt8 :=
  CmuTcpHeader.bytes ⟨packetIdentifier, 0, 0, 101, 501, headerLen, plen, ackFlagMask, 10, 0⟩

/-- A datagram shorter than a header. -/
def shortDatagram : Datagram := ⟨⟨0, 0⟩, [0]⟩

/-- It stays at the head of the queue for ever; and a datagram that claims a byte more than
    it has takes the first byte of the next with it. -/
theorem framing_fails :
    checkForDataFraming .noWait ⟨0, 0⟩ [shortDatagram] = .returns ⟨0, 0⟩ [shortDatagram] ∧
    ¬ (checkForDataFraming .noWait ⟨0, 0⟩ [shortDatagram]).Frames shortDatagram [] ∧
    checkForDataFraming .noWait ⟨0, 0⟩ [⟨⟨0, 0⟩, ackBytes 26⟩, ⟨⟨0, 0⟩, [7, 8]⟩] =
      .handles (ackBytes 26 ++ [7]) ⟨0, 0⟩ [] := by
  refine ⟨rfl, fun h => ?_, rfl⟩
  exact absurd (h.removes ⟨0, 0⟩ [shortDatagram] (Or.inl rfl)) (by simp)

end CmuTcp
