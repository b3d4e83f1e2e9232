import CmuTcp.Connection.Moves

/-!
# A Timeout Exchange Makes Progress

One exchange is a call of `resend_unacknowledged`, the delivery of its packets to the
peer, and the delivery of the answers back.  Every answer carries the ack and the window
that the peer has at that moment, so after the exchange the sender has the peer's own ack
and window.  If the first packet was refused, it was because the peer had acknowledged it
already, or because it was too long; in the second case the next one will not be.

1. The peer handles any number of data packets one after another (`handleAll_data`), by
   induction on the packets: each is taken or refused, and each is answered.
2. The sender handles the answers (`handleAll_answers`), by induction again: their acks only
   grow, and the window is that of the last.
3. `Paired.exchange` joins the two through the packets that `resend_unacknowledged` makes,
   and `Paired.exchange_twice` takes a second exchange with the corrected window.

Main result: `exchange_progress`, in every reachable state with room at the peer.
-/

namespace CmuTcp

open FaultSystem

/-- `handle_message` on packets delivered in order, at the times that `clock` tells; the
    answers are collected. -/
def handleAll (sock : CmuSocket) (clock : ℕ → Int) :
    List Packet → Except Fault (CmuSocket × List Packet)
  | [] => return (sock, [])
  | pkt :: pkts => do
    let (sock, sent) ← handleMessage sock pkt (clock 0)
    let (sock, rest) ← handleAll sock (fun i => clock (i + 1)) pkts
    return (sock, sent ++ rest)

/-- One call of `resend_unacknowledged`, whose packets all reach the peer in order, and
    whose answers all come back in order. -/
def exchange (sender receiver : CmuSocket) (beyond : ℕ → UInt8) (clock clock' : ℕ → Int) :
    Except Fault (CmuSocket × CmuSocket) := do
  let sent ← resendUnacknowledged sender beyond
  let (receiver, answers) ← handleAll receiver clock sent.packets
  let (sender, _) ← handleAll { sender with sendBuf := sent.sendBuf } clock' answers
  return (sender, receiver)

/-- The advertised window after handling `pkts`, when it was `window` before. -/
def lastWindow (window : UInt16) (pkts : List Packet) : UInt16 :=
  pkts.foldl (fun _ pkt => pkt.header.advertisedWindow) window

/-! ## The peer -/

section Peer

variable {isn peerIsn sent next : ℕ}

/-- The peer handles packets of the stream that starts after `peerIsn`: the answers carry
    its acks and windows, the last of them those it ends with. -/
theorem handleAll_data {pkts : List Packet} {sock : CmuSocket} {out : SendStream UInt8}
    {inn : Reassembly} (h : sock.Refines isn peerIsn out inn)
    (hwrap : isn + out.sent + out.capacity < 2 ^ 32) (hnext : next ≤ out.sent + 1)
    (hwrap' : peerIsn + sent + 1 < 2 ^ 32) (hwithin : inn.Within sent)
    (hpkts : ∀ p ∈ pkts, p.Honest peerIsn isn sent next ∧ getPayloadLen p ≠ 0)
    (clock : ℕ → Int) :
    ∃ sock' answers out' inn', handleAll sock clock pkts = .ok (sock', answers) ∧
      sock'.Refines isn peerIsn out' inn' ∧ out'.sent = out.sent ∧
      out'.capacity = out.capacity ∧ inn'.read = inn.read ∧ inn'.capacity = inn.capacity ∧
      inn.next ≤ inn'.next ∧ inn'.Within sent ∧
      (∀ q ∈ answers, q.Honest isn peerIsn out.sent inn'.next ∧ getPayloadLen q = 0) ∧
      ((∃ q ∈ answers, q.header.ackNum.toNat = peerIsn + inn'.next) ∨
        pkts = [] ∧ inn'.next = inn.next) ∧
      (∀ w, pkts ≠ [] ∨ w = (recvBufferMaxReceive sock.recvBuf).toUInt16 →
        lastWindow w answers = (recvBufferMaxReceive sock'.recvBuf).toUInt16) ∧
      ∀ p rest k n, pkts = p :: rest → p.Carries peerIsn k n → inn.Accepts k (k + n - 1) →
        k ≤ inn.next → k + n ≤ inn'.next := by
  induction pkts generalizing sock out inn clock with
  | nil =>
    exact ⟨sock, [], out, inn, rfl, h, rfl, rfl, rfl, rfl, le_refl _, hwithin, by simp,
      Or.inr ⟨rfl, rfl⟩, fun w hw => hw.resolve_left (by simp), by simp⟩
  | cons p pkts ih =>
    obtain ⟨hp, hdata⟩ := hpkts p (by simp)
    have hacked := out.acked_le_sent
    have hw : sock.sendBuf.NoWrap := by
      have hcap := h.sendBuf.capacity
      have hack := h.sendBuf.acked
      unfold SendBuffer.NoWrap
      omega
    -- a packet with data is answered by one ACK, whether the data is taken or refused
    obtain ⟨a, ha, sb', rb', inn₁, window', replies, hhandle, _, href, _, _, htakes, hreplies⟩ :=
      handleMessage_spec h hw hp hnext hwrap' (clock 0)
    obtain ⟨reply, rfl⟩ := hreplies.single hdata
    obtain ⟨hfrom, hnone⟩ := hreplies.sent reply (by simp)
    have hwithin₁ := htakes.within hp hwithin
    obtain ⟨sock', answers, out', inn', hall, href', hsent, hcap, hread, hrcap, hmono, hwithin',
      hanswers, hlast, hwindow, _⟩ := ih href hwrap hnext hwithin₁
        (fun q hq => hpkts q (by simp [hq])) (fun i => clock (i + 1))
    have hreply : reply.Honest isn peerIsn out.sent inn₁.next :=
      hfrom.honest href (fun hne => absurd hnone hne)
    refine ⟨sock', reply :: answers, out', inn', ?_, href', hsent, hcap,
      hread.trans htakes.read, hrcap.trans htakes.capacity, le_trans htakes.next_le hmono,
      hwithin', ?_, ?_, ?_, ?_⟩
    · simp only [handleAll, hhandle, hall, bind, Except.bind, pure, Except.pure,
        List.singleton_append]
    · intro q hq
      rcases List.mem_cons.mp hq with rfl | hq
      · exact ⟨hreply.mono (le_refl _) hmono, hnone⟩
      · exact hanswers q hq
    · -- the last answer carries the last ack
      left
      rcases hlast with ⟨q, hq, hack⟩ | ⟨_, hsame⟩
      · exact ⟨q, by simp [hq], hack⟩
      · exact ⟨reply, by simp, by rw [hfrom.ack, href.nextSeq, hsame]⟩
    · intro w _
      exact hwindow _ (Or.inr hfrom.window)
    · intro q rest k n hcons hcar hacc hk
      obtain ⟨rfl, rfl⟩ := List.cons.inj hcons
      refine le_trans ?_ hmono
      cases htakes with
      | @accept _ k' n' hcar' hacc' _ _ =>
        obtain rfl : k' = k := Nat.add_left_cancel (hcar'.seq.symm.trans hcar.seq)
        obtain rfl : n' = n := hcar'.len.symm.trans hcar.len
        have hpos := hcar.pos
        have hfst := inn.merged_fst_le k' (k' + n' - 1)
        have hsnd := inn.le_merged_snd k' (k' + n' - 1)
        rw [Reassembly.accept_next_of_le hacc' (le_trans hfst hk)]
        omega
      | refuse _ hrefused => exact absurd hacc (hrefused k n hcar)

end Peer

/-! ## The sender -/

section Sender

variable {isn peerIsn next : ℕ}

/-- The sender handles answers: it ends with the window of the last, and everything that
    one of them acknowledges is acknowledged. -/
theorem handleAll_answers {pkts : List Packet} {sock : CmuSocket} {out : SendStream UInt8}
    {inn : Reassembly} {sent : ℕ} (h : sock.Refines isn peerIsn out inn)
    (hwrap : isn + out.sent + out.capacity < 2 ^ 32) (hnext : next ≤ out.sent + 1)
    (hwrap' : peerIsn + sent + 1 < 2 ^ 32)
    (hpkts : ∀ p ∈ pkts, p.Honest peerIsn isn sent next ∧ getPayloadLen p = 0)
    (clock : ℕ → Int) :
    ∃ sock' out', handleAll sock clock pkts = .ok (sock', []) ∧
      sock'.Refines isn peerIsn out' inn ∧ out'.sent = out.sent ∧
      out'.capacity = out.capacity ∧ out.acked ≤ out'.acked ∧
      (out'.acked = out.acked ∨ out'.acked < next) ∧
      (∀ p ∈ pkts, p.header.ackNum.toNat ≤ isn + out'.acked + 1) ∧
      sock'.window.rcvdAdvertisedWindow = lastWindow sock.window.rcvdAdvertisedWindow pkts := by
  induction pkts generalizing sock out clock with
  | nil => exact ⟨sock, out, rfl, h, rfl, rfl, le_refl _, Or.inl rfl, by simp, rfl⟩
  | cons p pkts ih =>
    obtain ⟨hp, hnone⟩ := hpkts p (by simp)
    have hacked := out.acked_le_sent
    have hw : sock.sendBuf.NoWrap := by
      have hcap := h.sendBuf.capacity
      have hack := h.sendBuf.acked
      unfold SendBuffer.NoWrap
      omega
    obtain ⟨a, ha, sb', rb', inn', window', replies, hhandle, hack, href, _, hwindow, htakes,
      hreplies⟩ := handleMessage_spec h hw hp hnext hwrap' (clock 0)
    obtain rfl := hreplies.none hnone
    -- an answer has no data
    obtain rfl : inn' = inn := by
      cases htakes with
      | accept hcar _ _ _ => exact absurd hnone hcar.len_ne_zero
      | refuse _ _ => rfl
    obtain ⟨sock', out', hall, href', hsent, hcap, hmono, hlt, hacks, hlast⟩ := ih href hwrap
      hnext (fun q hq => hpkts q (by simp [hq])) (fun i => clock (i + 1))
    have hmax : (out.ack a ha).acked = max out.acked a := rfl
    obtain ⟨b, hb, _, hble⟩ := hp.ack
    refine ⟨sock', out', ?_, href', hsent, hcap, by omega, by omega, ?_, ?_⟩
    · simp only [handleAll, hhandle, hall, bind, Except.bind, pure, Except.pure,
        List.append_nil]
    · intro q hq
      rcases List.mem_cons.mp hq with rfl | hq
      · omega
      · exact hacks q hq
    · rw [hlast, hwindow]
      rfl

end Sender

/-! ## The exchange -/

/-- A sender and its peer, between which nothing is in flight. -/
structure Paired (sender receiver : CmuSocket) (isn peerIsn : ℕ) (out : SendStream UInt8)
    (inn : Reassembly) (peerOut : SendStream UInt8) (peerInn : Reassembly) : Prop where
  sender : sender.Refines isn peerIsn out inn
  receiver : receiver.Refines peerIsn isn peerOut peerInn
  noWrap : isn + out.sent + out.capacity < 2 ^ 32
  peerNoWrap : peerIsn + peerOut.sent + peerOut.capacity < 2 ^ 32
  acked_lt : out.acked < peerInn.next
  within : peerInn.Within out.sent
  next_le : inn.next ≤ peerOut.sent + 1

section Exchange

variable {sender receiver : CmuSocket} {isn peerIsn : ℕ} {out : SendStream UInt8}
  {inn : Reassembly} {peerOut : SendStream UInt8} {peerInn : Reassembly}

theorem Paired.sendBufNoWrap (h : Paired sender receiver isn peerIsn out inn peerOut peerInn) :
    sender.sendBuf.NoWrap := by
  have hcap := h.sender.sendBuf.capacity
  have hack := h.sender.sendBuf.acked
  have hacked := out.acked_le_sent
  have hwrap := h.noWrap
  unfold SendBuffer.NoWrap
  omega

/-- **One exchange**: all that the peer has in order is acknowledged, and the sender knows
    the peer's window.  If the first packet was acceptable, something is acknowledged that
    was not. -/
theorem Paired.exchange (h : Paired sender receiver isn peerIsn out inn peerOut peerInn)
    (hpos : out.acked < out.sent) (beyond : ℕ → UInt8) (clock clock' : ℕ → Int) :
    ∃ sender' receiver' out' peerOut' peerInn',
      CmuTcp.exchange sender receiver beyond clock clock' = .ok (sender', receiver') ∧
      Paired sender' receiver' isn peerIsn out' inn peerOut' peerInn' ∧
      out'.sent = out.sent ∧ out.acked ≤ out'.acked ∧ peerInn'.next = out'.acked + 1 ∧
      peerInn'.read = peerInn.read ∧ peerInn'.capacity = peerInn.capacity ∧
      peerInn.next ≤ peerInn'.next ∧
      sender'.window.rcvdAdvertisedWindow =
        (recvBufferMaxReceive receiver'.recvBuf).toUInt16 ∧
      (peerInn.next = out.acked + 1 →
        out.acked + max 1 (min (resendLen sender).toNat 1375) < peerInn.read + peerInn.capacity →
        out.acked < out'.acked) := by
  have hw := h.sendBufNoWrap
  have hlen := resendLen_toNat h.sender.sendBuf
  have hnoWrap := h.noWrap
  have hpeerNoWrap := h.peerNoWrap
  have hcap := h.sender.sendBuf.capacity_pos
  have hpeerCap := h.receiver.sendBuf.capacity_pos
  obtain ⟨sent, hresend, hsb, _, hsends, _, first, rest, hfirst, hcar⟩ :=
    resendUnacknowledged_spec h.sender.sendBuf (h.sender.sendBuf.indicesFit hw)
      (h.sender.sendBuf.sent_lt hw) beyond hpos
  -- the packets are honest and have data
  have hpkts : ∀ p ∈ sent.packets,
      p.Honest isn peerIsn out.sent inn.next ∧ getPayloadLen p ≠ 0 := by
    intro p hp
    obtain ⟨hfrom, k, n, hcar', hlo, hhi, _⟩ := hsends p hp
    exact ⟨hfrom.honest h.sender (fun _ => ⟨k, n, hcar', by omega, by omega⟩),
      hcar'.len_ne_zero⟩
  obtain ⟨receiver', answers, peerOut', peerInn', hdeliver, hreceiver, hpsent, hpcap, hread, hrcap,
    hnext, hwithin, hanswers, hlast, hwindow, haccept⟩ := handleAll_data h.receiver hpeerNoWrap
      h.next_le (by omega) h.within hpkts clock
  have hle := hwithin.next
  obtain ⟨sender', out', hreturn, hsender, hosent, hocap, hacked, hlt, hacks, hwindow'⟩ :=
    handleAll_answers h.sender hnoWrap hle (by omega) hanswers clock'
  obtain ⟨q, hq, hack⟩ := hlast.resolve_right (fun hnil => by
    rw [hfirst] at hnil
    exact absurd hnil.1 (by simp))
  have hqle := hacks q hq
  have halt := h.acked_lt
  refine ⟨sender', receiver', out', peerOut', peerInn', ?_, ?_, hosent, hacked, by omega,
    hread, hrcap, hnext, ?_, ?_⟩
  · have hsame : ({ sender with sendBuf := sent.sendBuf } : CmuSocket) = sender := by
      rw [hsb]
    simp only [CmuTcp.exchange, hresend, hdeliver, hsame, hreturn, bind, Except.bind, pure,
      Except.pure]
  · exact ⟨hsender, hreceiver, by omega, by omega, by omega, hosent ▸ hwithin,
      by rw [hpsent]; exact h.next_le⟩
  · rw [hwindow']
    exact hwindow _ (Or.inl (by simp [hfirst]))
  · intro hexpected hfits
    have hlo := peerInn.read_lt_next
    have hreach := haccept first rest _ _ hfirst hcar ⟨by omega, by omega, by omega, by omega⟩
      (by omega)
    omega

/-- After an exchange without progress the next one makes progress, if the peer has room. -/
theorem Paired.exchange_twice (h : Paired sender receiver isn peerIsn out inn peerOut peerInn)
    (hpos : out.acked < out.sent) (hroom : peerInn.next < peerInn.read + peerInn.capacity)
    (hcap : peerInn.capacity ≤ 65535) (beyond beyond' : ℕ → UInt8)
    (clock : Fin 4 → ℕ → Int) :
    ∃ sender' receiver',
      CmuTcp.exchange sender receiver beyond (clock 0) (clock 1) = .ok (sender', receiver') ∧
      (sender.sendBuf.lastByteAckedSeqnum < sender'.sendBuf.lastByteAckedSeqnum ∨
        getUnacknowledgedCount sender'.sendBuf > 0 ∧ ∃ sender'' receiver'',
          CmuTcp.exchange sender' receiver' beyond' (clock 2) (clock 3) =
            .ok (sender'', receiver'') ∧
          sender.sendBuf.lastByteAckedSeqnum < sender''.sendBuf.lastByteAckedSeqnum) := by
  obtain ⟨sender', receiver', out', peerOut', peerInn', hexchange, h', hsent, hacked, hnext, hread,
    hrcap, hmono, hwindow, _⟩ := h.exchange hpos beyond (clock 0) (clock 1)
  refine ⟨sender', receiver', hexchange, ?_⟩
  have hlt := h.acked_lt
  have hbuf := h.sender.sendBuf.acked
  have hbuf' := h'.sender.sendBuf.acked
  rcases Nat.lt_or_ge out.acked out'.acked with hprogress | hstuck
  · left
    rw [UInt32.lt_iff_toNat_lt]
    omega
  · right
    have hw' := h'.sendBufNoWrap
    -- the sender now knows the peer's window
    have hmax := h'.receiver.recvBuf.recvBufferMaxReceive
    have hknown : sender'.window.rcvdAdvertisedWindow.toNat =
        peerInn'.read + peerInn'.capacity - peerInn'.next := by
      rw [hwindow, UInt32.toNat_toUInt16, hmax]
      have hlo := peerInn'.read_lt_next
      exact Nat.mod_eq_of_lt (by omega)
    have hlen := resendLen_toNat h'.sender.sendBuf
    obtain ⟨sender'', receiver'', out'', _, _, hexchange', h'', _, _, _, _, _, _, _, hprogress⟩ :=
      h'.exchange (by omega) beyond' (clock 2) (clock 3)
    have hprogress' := hprogress hnext (by omega)
    refine ⟨?_, sender'', receiver'', hexchange', ?_⟩
    · rw [gt_iff_lt, UInt32.lt_iff_toNat_lt, h'.sender.sendBuf.getUnacknowledgedCount,
        UInt32.toNat_zero]
      omega
    · have hbuf'' := h''.sender.sendBuf.acked
      rw [UInt32.lt_iff_toNat_lt]
      omega

end Exchange

/-! ## Reachable states -/

/-- **A timeout exchange makes progress**: in every reachable state with unacknowledged
    bytes and room at the peer, one exchange, or else the one after it, acknowledges a
    byte more, whatever window the sender started from.  No sequence number wraps around
    in the exchanges. -/
theorem exchange_progress {cfg : Config} {tr : List (Sys × Label)} {s : Sys}
    (hcfg : cfg.Valid) (hcap : ∀ x, (cfg.recvCapacity x).toNat ≤ 65535)
    (h : Run (systemFrom cfg.established) Sys.NoWrap tr s)
    (hwrap : ∀ y, (getLastByteSentSeqnum (s.ep y).sock.sendBuf).toNat +
      (s.ep y).sock.sendBuf.capacity.toNat < 2 ^ 32)
    (x : Side) (hunacked : getUnacknowledgedCount (s.ep x).sock.sendBuf > 0)
    (hroom : recvBufferMaxReceive (s.ep x.other).sock.recvBuf > 0)
    (beyond beyond' : ℕ → UInt8) (clock : Fin 4 → ℕ → Int) :
    ∃ sender receiver,
      exchange (s.ep x).sock (s.ep x.other).sock beyond (clock 0) (clock 1) =
        .ok (sender, receiver) ∧
      ((s.ep x).sock.sendBuf.lastByteAckedSeqnum < sender.sendBuf.lastByteAckedSeqnum ∨
        getUnacknowledgedCount sender.sendBuf > 0 ∧ ∃ sender' receiver',
          exchange sender receiver beyond' (clock 2) (clock 3) = .ok (sender', receiver') ∧
          (s.ep x).sock.sendBuf.lastByteAckedSeqnum < sender'.sendBuf.lastByteAckedSeqnum) := by
  obtain ⟨out, inn, hinv⟩ := Sys.Invariant.of_run hcfg h
  have hw : s.NoWrap := h.kept
  have hsock := (hinv.endpoint x).sock
  have hpeer := (hinv.endpoint x.other).sock
  rw [Side.other_other] at hpeer
  -- the bound on the sequence numbers, in positions of the two streams
  have hnoWrap : ∀ y, (cfg.isn y).toNat + (out y).sent + (out y).capacity < 2 ^ 32 := by
    intro y
    have hy := (hinv.endpoint y).sock.sendBuf
    have := hwrap y
    rw [hy.getLastByteSentSeqnum (hw.sendBuf y), hy.capacity] at this
    exact this
  -- the two sockets are the ends of one connection
  have hpaired : Paired (s.ep x).sock (s.ep x.other).sock (cfg.isn x).toNat
      (cfg.isn x.other).toNat (out x) (inn x) (out x.other) (inn x.other) := by
    refine ⟨hsock, hpeer, hnoWrap x, hnoWrap x.other, hinv.acked_lt x, hinv.within x, ?_⟩
    simpa using (hinv.within x.other).next
  -- what is in flight and what there is room for, as numbers
  rw [gt_iff_lt, UInt32.lt_iff_toNat_lt, UInt32.toNat_zero] at hunacked hroom
  rw [hsock.sendBuf.getUnacknowledgedCount] at hunacked
  rw [hpeer.recvBuf.recvBufferMaxReceive] at hroom
  exact hpaired.exchange_twice (by omega) (by omega)
    ((hinv.recvCapacity x.other).trans_le (hcap x.other)) beyond beyond' clock

/-- The sender believes in three bytes of room where there is one: its retransmission is
    too long, and the next one is not. -/
theorem exchange_progress_stale : ∃ tr s,
    Run (systemFrom (smallConfig 5).established) Sys.NoWrap tr s ∧
    getUnacknowledgedCount (s.ep .client).sock.sendBuf = 3 ∧
    ∃ sender receiver,
      exchange (s.ep .client).sock (s.ep .server).sock (fun _ => 0) (fun _ => 0) (fun _ => 0) =
        .ok (sender, receiver) ∧
      ((s.ep .client).sock.sendBuf.lastByteAckedSeqnum < sender.sendBuf.lastByteAckedSeqnum ∨
        getUnacknowledgedCount sender.sendBuf > 0 ∧ ∃ sender' receiver',
          exchange sender receiver (fun _ => 0) (fun _ => 0) (fun _ => 0) =
            .ok (sender', receiver') ∧
          (s.ep .client).sock.sendBuf.lastByteAckedSeqnum <
            sender'.sendBuf.lastByteAckedSeqnum) := by
  have hinit : Run (systemFrom (smallConfig 5).established) Sys.NoWrap []
      (smallConfig 5).established := .init rfl (by decide)
  have hrun := hinit.exec (staleWindowLabels ++ [.lose .server 0]) rfl
  refine ⟨_, _, hrun, rfl, exchange_progress (smallConfig_valid (by decide)) (fun _ => ?_) hrun
    (fun y => ?_) .client (by decide) (by decide) _ _ (fun _ _ => 0)⟩
  · show (5 : UInt32).toNat ≤ 65535
    decide
  · cases y <;> decide

end CmuTcp
