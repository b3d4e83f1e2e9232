import CmuTcp.Ring.Recv
import CmuTcp.Connection.Sending

/-!
# What an Established Endpoint Does with a Packet

An established socket refines a send stream and a reassembly at once, and the two numbers
it keeps a second time in its `window` agree with them.  `handle_message` on a packet of
an honest peer never fails: it acknowledges in the stream what the packet acknowledges,
takes the packet's window, and accepts the packet's data or leaves it.

The specification follows the three parts of the function: `handleAck_spec` for the ack,
whatever the order in which acks arrive, `handlePayload_spec` for the data, which may be
new, old, too long or behind a gap (`TakesData`), and the reply.  `handleMessage_takes` puts
them together under what the function needs of the packet, and `handleMessage_spec` under
the honesty of the peer, from which that follows.
-/

namespace CmuTcp

open CircularBuffer

/-- The socket holds the stream `out` and the reassembly `inn`, and its `window` says the
    same about them as its buffers. -/
structure CmuSocket.Refines (sock : CmuSocket) (isn peerIsn : ℕ) (out : SendStream UInt8)
    (inn : Reassembly) : Prop where
  sendBuf : sock.sendBuf.Refines isn out
  recvBuf : sock.recvBuf.Refines peerIsn inn
  lastAck : sock.window.lastAckReceived.toNat = isn + out.acked + 1
  nextSeq : sock.window.nextSeqExpected.toNat = peerIsn + inn.next

/-- A packet of an honest peer whose stream starts after `isn`, of which `sent` bytes have
    been sent, and which expects position `next` of the stream that starts after `peerIsn`. -/
structure Packet.Honest (p : Packet) (isn peerIsn sent next : ℕ) : Prop where
  flags : p.header.flags = ackFlagMask
  payload : (getPayload p).length = (getPayloadLen p).toNat
  data : getPayloadLen p ≠ 0 →
    ∃ k, p.Carries isn k (getPayloadLen p).toNat ∧ 0 < k ∧ k + (getPayloadLen p).toNat ≤ sent + 1
  ack : ∃ a, p.header.ackNum.toNat = peerIsn + a ∧ 0 < a ∧ a ≤ next

theorem Packet.Honest.mono {p : Packet} {isn peerIsn sent sent' next next' : ℕ}
    (h : p.Honest isn peerIsn sent next) (hsent : sent ≤ sent') (hnext : next ≤ next') :
    p.Honest isn peerIsn sent' next' where
  flags := h.flags
  payload := h.payload
  data hne := by
    obtain ⟨k, hcar, hpos, hle⟩ := h.data hne
    exact ⟨k, hcar, hpos, by omega⟩
  ack := by
    obtain ⟨a, ha, hpos, hle⟩ := h.ack
    exact ⟨a, ha, hpos, by omega⟩

/-- Whatever an honest packet carries has been sent. -/
theorem Packet.Honest.carries {p : Packet} {isn peerIsn sent next k n : ℕ}
    (h : p.Honest isn peerIsn sent next) (hcar : p.Carries isn k n) :
    0 < k ∧ k + n ≤ sent + 1 := by
  obtain ⟨k', hcar', hpos, hle⟩ := h.data hcar.len_ne_zero
  obtain rfl : k' = k := Nat.add_left_cancel (hcar'.seq.symm.trans hcar.seq)
  exact ⟨hpos, hcar.len ▸ hle⟩

/-- The packets that an established endpoint sends are honest. -/
theorem Packet.SentFrom.honest {p : Packet} {sock : CmuSocket} {isn peerIsn sent : ℕ}
    {out : SendStream UInt8} {inn : Reassembly} (h : p.SentFrom sock)
    (href : sock.Refines isn peerIsn out inn)
    (hdata : getPayloadLen p ≠ 0 → ∃ k n, p.Carries isn k n ∧ 0 < k ∧ k + n ≤ sent + 1) :
    p.Honest isn peerIsn sent inn.next where
  flags := h.flags
  payload := h.payload
  data hne := by
    obtain ⟨k, n, hcar, hpos, hle⟩ := hdata hne
    obtain rfl := hcar.len
    exact ⟨k, hcar, hpos, hle⟩
  ack := ⟨inn.next, by rw [h.ack, href.nextSeq], lt_of_le_of_lt (Nat.zero_le _) inn.read_lt_next,
    le_refl _⟩

/-! ## The ack -/

section Handle

variable {sock : CmuSocket} {isn peerIsn : ℕ} {out : SendStream UInt8} {inn : Reassembly}

/-- The ack update of `handle_message` keeps `last_ack_received` one past the last byte
    acknowledged, whatever the order in which acks arrive. -/
theorem handleAck_spec (h : sock.Refines isn peerIsn out inn) (hw : sock.sendBuf.NoWrap)
    {acknum : UInt32} {a : ℕ} (hack : acknum.toNat = isn + a) (hpos : 0 < a)
    (hle : a - 1 ≤ out.sent) (now : Int) :
    ∃ sb' last, handleAck sock acknum now = .ok { sock with
        window := { sock.window with lastAckReceived := last }, sendBuf := sb' } ∧
      sb'.Refines isn (out.ack (a - 1) hle) ∧ sb'.capacity = sock.sendBuf.capacity ∧
      last.toNat = isn + (out.ack (a - 1) hle).acked + 1 := by
  have hroom := h.sendBuf.noWrap hw
  have hwle := out.written_le
  have hsent := out.sent_le_written
  have hlast := h.lastAck
  unfold handleAck
  by_cases hdup : acknum = sock.window.lastAckReceived
  -- a repeated ack is not looked at, and acknowledges what is acknowledged
  · have hsame : out.ack (a - 1) hle = out := out.ack_of_le hle (by
      rw [hdup, hlast] at hack
      omega)
    refine ⟨sock.sendBuf, sock.window.lastAckReceived, by rw [if_pos hdup]; rfl, ?_, rfl, ?_⟩
    · rw [hsame]
      exact h.sendBuf
    · rw [hsame]
      exact hlast
  -- it is one past the last byte that it acknowledges
  · have hq : (acknum - 1).toNat = isn + (a - 1) := by
      rw [UInt32.toNat_sub, UInt32.toNat_one, hack]
      have := acknum.toNat_lt
      omega
    obtain ⟨sb', hupdate, href, hcap⟩ := h.sendBuf.sendBufferUpdateAck hw
      (show (acknum - 1).toNat ≤ isn + out.sent by omega) now
    refine ⟨sb', cMax sock.window.lastAckReceived acknum, ?_, ?_, hcap, ?_⟩
    · simp only [if_neg hdup, hupdate, bind, Except.bind, pure, Except.pure]
    · have harg : (acknum - 1).toNat - isn = a - 1 := by omega
      simpa only [harg] using href
    -- the greater of the two acks is that of the greater position
    · unfold cMax
      show _ = isn + max out.acked (a - 1) + 1
      split
      · rename_i hgt
        rw [gt_iff_lt, UInt32.lt_iff_toNat_lt, hlast, hack] at hgt
        omega
      · rename_i hgt
        rw [gt_iff_lt, UInt32.lt_iff_toNat_lt, hlast, hack] at hgt
        omega

/-! ## The data -/

/-- What becomes of the data of a packet: it is accepted into the ring, or refused. -/
inductive TakesData (p : Packet) (peerIsn : ℕ) (rb : RecvBuffer) (inn : Reassembly) :
    RecvBuffer → Reassembly → Prop
  | accept {rb' : RecvBuffer} {k n : ℕ} (hcar : p.Carries peerIsn k n)
      (hacc : inn.Accepts k (k + n - 1))
      (href : rb'.Refines peerIsn (inn.accept k (k + n - 1) hacc))
      (hbuf : rb'.buffer = overwriteWrap rb.buffer (k % inn.capacity) ((getPayload p).take n)) :
      TakesData p peerIsn rb inn rb' (inn.accept k (k + n - 1) hacc)
  | refuse (href : rb.Refines peerIsn inn)
      (hrefused : ∀ k n, p.Carries peerIsn k n → ¬ inn.Accepts k (k + n - 1)) :
      TakesData p peerIsn rb inn rb inn

theorem TakesData.refines {p : Packet} {rb rb' : RecvBuffer} {inn' : Reassembly}
    (h : TakesData p peerIsn rb inn rb' inn') : rb'.Refines peerIsn inn' := by
  cases h with
  | accept _ _ href _ => exact href
  | refuse href _ => exact href

/-- `create_packet` does not refuse a pure ACK. -/
theorem pureAck_eq (sock : CmuSocket) :
    ∃ q, createPacket sock.myPort sock.conn.sinPort sock.window.lastAckReceived
        sock.window.nextSeqExpected headerLen headerLen ackFlagMask
        (recvBufferMaxReceive sock.recvBuf).toUInt16 [] 0 = some q ∧
      q.SentFrom sock ∧ getPayloadLen q = 0 :=
  ⟨_, rfl, ⟨rfl, rfl, rfl, (congrArg UInt16.toNat (UInt16.sub_self headerLen)).symm⟩,
    UInt16.sub_self headerLen⟩

/-- The data of a packet goes to the receive buffer, and a pure ACK answers it. -/
theorem handlePayload_spec (sock : CmuSocket) (hrecv : sock.recvBuf.Refines peerIsn inn)
    {p : Packet} {k n : ℕ} (hcar : p.Carries peerIsn k n) (hwrap : peerIsn + k + n < 2 ^ 32)
    (hpay : n ≤ (getPayload p).length) :
    ∃ rb' inn' reply, handlePayload sock p = .ok ({ sock with
        recvBuf := rb'
        window := { sock.window with nextSeqExpected := getNextByteExpectedSeqnum rb' } },
        [reply]) ∧
      TakesData p peerIsn sock.recvBuf inn rb' inn' ∧
      reply.SentFrom { sock with
        recvBuf := rb'
        window := { sock.window with nextSeqExpected := getNextByteExpectedSeqnum rb' } } ∧
      getPayloadLen reply = 0 := by
  have hlen : (getPayloadLen p).toUInt32.toNat = n := by rw [UInt16.toNat_toUInt32, hcar.len]
  obtain ⟨rb', hreceive, hcases⟩ := hrecv.receivePayload hcar.seq
    (by rw [hlen]; exact hcar.pos) (by rw [hlen]; exact hwrap)
    (show (getPayloadLen p).toUInt32.toNat ≤ (getPayload p).length by rw [hlen]; exact hpay)
  -- the segment is accepted into the reassembly, or left out of it
  rw [hlen] at hcases
  have htakes : ∃ inn', TakesData p peerIsn sock.recvBuf inn rb' inn' := by
    rcases hcases with ⟨hacc, href, hbuf⟩ | ⟨hacc, rfl⟩
    · exact ⟨_, .accept hcar hacc href hbuf⟩
    · refine ⟨inn, .refuse hrecv fun k' n' hcar' => ?_⟩
      obtain rfl : n' = n := hcar'.len.symm.trans hcar.len
      obtain rfl : k' = k := Nat.add_left_cancel (hcar'.seq.symm.trans hcar.seq)
      exact hacc
  obtain ⟨inn', htakes⟩ := htakes
  -- the answer says what the buffer expects then
  obtain ⟨reply, hreply, hfrom, hnone⟩ := pureAck_eq { sock with
    recvBuf := rb'
    window := { sock.window with nextSeqExpected := getNextByteExpectedSeqnum rb' } }
  refine ⟨rb', inn', reply, ?_, htakes, hfrom, hnone⟩
  simp only [handlePayload, hreceive, bind, Except.bind, pure, Except.pure, hreply,
    Option.toList_some]

/-! ## handle_message -/

/-- The reply of `handle_message`: one pure ACK if the packet has data. -/
structure Replies (p : Packet) (sock : CmuSocket) (replies : List Packet) : Prop where
  sent : ∀ q ∈ replies, q.SentFrom sock ∧ getPayloadLen q = 0
  single : getPayloadLen p ≠ 0 → ∃ q, replies = [q]
  none : getPayloadLen p = 0 → replies = []

/-- `handle_message` on a packet with the ACK flag and without SYN and FIN that
    acknowledges the bytes up to position `a`, all of them sent, and whose data does not
    wrap around. -/
theorem handleMessage_takes (h : sock.Refines isn peerIsn out inn) (hw : sock.sendBuf.NoWrap)
    {p : Packet} (hflag : p.hasFlag ackFlagMask = true) (hsyn : p.hasFlag synFlagMask = false)
    (hfin : p.hasFlag finFlagMask = false) {a : ℕ} (hack : p.header.ackNum.toNat = isn + a + 1)
    (ha : a ≤ out.sent) (hpay : (getPayloadLen p).toNat ≤ (getPayload p).length)
    (hdata : getPayloadLen p ≠ 0 → ∃ k, p.Carries peerIsn k (getPayloadLen p).toNat ∧
      peerIsn + k + (getPayloadLen p).toNat < 2 ^ 32) (now : Int) :
    ∃ sb' rb' inn' window' replies,
      handleMessage sock p now =
        .ok ({ sock with sendBuf := sb', recvBuf := rb', window := window' }, replies) ∧
      ({ sock with sendBuf := sb', recvBuf := rb', window := window' } : CmuSocket).Refines
        isn peerIsn (out.ack a ha) inn' ∧
      sb'.capacity = sock.sendBuf.capacity ∧
      window'.rcvdAdvertisedWindow = p.header.advertisedWindow ∧
      TakesData p peerIsn sock.recvBuf inn rb' inn' ∧
      Replies p { sock with sendBuf := sb', recvBuf := rb', window := window' } replies := by
  -- the ack comes first, and does not touch the receive side
  obtain ⟨sb', last, hhandle, href, hcap, hlast⟩ := handleAck_spec h hw hack (Nat.succ_pos a)
    (show a + 1 - 1 ≤ out.sent from ha) now
  rw [handleMessage_of_hasFlag sock hflag hsyn hfin]
  -- a packet without data is not answered
  by_cases hnone : getPayloadLen p = 0
  · have hrefused : ∀ k n, p.Carries peerIsn k n → ¬ inn.Accepts k (k + n - 1) := by
      intro k n hcar
      exact absurd hnone hcar.len_ne_zero
    refine ⟨sb', sock.recvBuf, inn,
      ⟨sock.window.nextSeqExpected, last, p.header.advertisedWindow⟩, [], ?_,
      ⟨href, h.recvBuf, hlast, h.nextSeq⟩, hcap, rfl, .refuse h.recvBuf hrefused,
      ⟨by simp, fun hne => absurd hnone hne, fun _ => rfl⟩⟩
    simp only [hhandle, bind, Except.bind, pure, Except.pure, hnone, ne_eq, not_true_eq_false,
      if_false]
  -- one with data is, whether it is taken or not
  · obtain ⟨k, hcar, hwrap⟩ := hdata hnone
    obtain ⟨rb', inn', reply, hpayload, htakes, hreply, hlen⟩ := handlePayload_spec
      { sock with
        window := ⟨sock.window.nextSeqExpected, last, p.header.advertisedWindow⟩
        sendBuf := sb' } h.recvBuf hcar hwrap hpay
    refine ⟨sb', rb', inn',
      ⟨getNextByteExpectedSeqnum rb', last, p.header.advertisedWindow⟩, [reply], ?_,
      ⟨href, htakes.refines, hlast, htakes.refines.getNextByteExpectedSeqnum⟩, hcap, rfl, htakes,
      ⟨?_, fun _ => ⟨reply, rfl⟩, fun hnone' => absurd hnone' hnone⟩⟩
    · simp only [hhandle, bind, Except.bind, pure, Except.pure, if_pos hnone, ne_eq, hpayload]
    · intro q hq
      obtain rfl := List.mem_singleton.mp hq
      exact ⟨hreply, hlen⟩

/-- **`handle_message`** on a packet of an honest peer that acknowledges nothing unsent. -/
theorem handleMessage_spec (h : sock.Refines isn peerIsn out inn) (hw : sock.sendBuf.NoWrap)
    {p : Packet} {sent next : ℕ} (hp : p.Honest peerIsn isn sent next)
    (hnext : next ≤ out.sent + 1) (hwrap : peerIsn + sent + 1 < 2 ^ 32) (now : Int) :
    ∃ a ha sb' rb' inn' window' replies,
      handleMessage sock p now =
        .ok ({ sock with sendBuf := sb', recvBuf := rb', window := window' }, replies) ∧
      p.header.ackNum.toNat = isn + a + 1 ∧
      ({ sock with sendBuf := sb', recvBuf := rb', window := window' } : CmuSocket).Refines
        isn peerIsn (out.ack a ha) inn' ∧
      sb'.capacity = sock.sendBuf.capacity ∧
      window'.rcvdAdvertisedWindow = p.header.advertisedWindow ∧
      TakesData p peerIsn sock.recvBuf inn rb' inn' ∧
      Replies p { sock with sendBuf := sb', recvBuf := rb', window := window' } replies := by
  obtain ⟨a, hack, hpos, hle⟩ := hp.ack
  -- the flags of an honest packet are those of an ACK
  have hflag : ∀ mask, p.hasFlag mask = (ackFlagMask &&& mask != 0) := by
    intro mask
    rw [Packet.hasFlag, hp.flags]
  -- it acknowledges nothing beyond what has been sent
  have ha : a - 1 ≤ out.sent := by omega
  have hack' : p.header.ackNum.toNat = isn + (a - 1) + 1 := by omega
  obtain ⟨sb', rb', inn', window', replies, hhandle, href, hcap, hwindow, htakes, hreplies⟩ :=
    handleMessage_takes h hw ((hflag _).trans (by decide)) ((hflag _).trans (by decide))
      ((hflag _).trans (by decide)) hack' ha (le_of_eq hp.payload.symm) (fun hne => by
        obtain ⟨k, hcar, _, hkn⟩ := hp.data hne
        exact ⟨k, hcar, by omega⟩) now
  exact ⟨a - 1, ha, sb', rb', inn', window', replies, hhandle, hack', href, hcap, hwindow, htakes,
    hreplies⟩

end Handle

/-! ## cmu_read -/

/-- A call of `cmu_read` takes some of the readable bytes. -/
theorem cmuRead_spec {sock : CmuSocket} {peerIsn : ℕ} {inn : Reassembly}
    (h : sock.recvBuf.Refines peerIsn inn) (length : Int) (flags : CmuReadMode) :
    ∃ count n hn rb', cmuRead sock length flags =
        .ok (count, readWrap sock.recvBuf.buffer (inn.read % inn.capacity + 1) n,
          { sock with recvBuf := rb' }) ∧
      rb'.Refines peerIsn (inn.consume n hn) ∧ rb'.buffer = sock.recvBuf.buffer := by
  have hmax := h.recvBufferMaxRead
  have hlt := inn.read_lt_next
  have hempty : readWrap sock.recvBuf.buffer (inn.read % inn.capacity + 1) 0 = [] := by
    have hmod : inn.read % inn.capacity < inn.capacity := Nat.mod_lt _ h.capacity_pos
    rw [readWrap, if_pos (by rw [h.length]; omega), slice, List.take_zero]
  -- the cases in which nothing is read
  have hnothing : ∀ count : Int, ∃ count' n hn rb',
      (Except.ok (count, ([] : List UInt8), sock) : Except Fault _) =
        .ok (count', readWrap sock.recvBuf.buffer (inn.read % inn.capacity + 1) n,
          { sock with recvBuf := rb' }) ∧
      rb'.Refines peerIsn (inn.consume n hn) ∧ rb'.buffer = sock.recvBuf.buffer := by
    intro count
    exact ⟨count, 0, hlt, sock.recvBuf, by rw [hempty], h, rfl⟩
  -- the case in which the two buffers are looked at
  have hsome : ∃ count n hn rb', cmuReadAvailable sock length =
        .ok (count, readWrap sock.recvBuf.buffer (inn.read % inn.capacity + 1) n,
          { sock with recvBuf := rb' }) ∧
      rb'.Refines peerIsn (inn.consume n hn) ∧ rb'.buffer = sock.recvBuf.buffer := by
    unfold cmuReadAvailable
    dsimp only
    by_cases hpos : recvBufferMaxRead sock.recvBuf > 0
    · rw [if_pos hpos]
      generalize hdef : (if recvBufferMaxRead sock.recvBuf > length.toNat.toUInt32
        then length.toNat.toUInt32 else recvBufferMaxRead sock.recvBuf) = readLen
      have hle : readLen.toNat ≤ (recvBufferMaxRead sock.recvBuf).toNat := by
        rw [← hdef]
        split
        · rename_i hgt
          exact Nat.le_of_lt (UInt32.lt_iff_toNat_lt.mp hgt)
        · exact le_refl _
      obtain ⟨rb', hread, href, hbuf⟩ := h.recvBufferRead
        (show inn.read + readLen.toNat < inn.next by omega)
      exact ⟨_, _, _, rb', by simp only [hread, bind, Except.bind, pure, Except.pure]; rfl, href,
        hbuf⟩
    · rw [if_neg hpos]
      exact hnothing 0
  unfold cmuRead
  by_cases hneg : length < 0
  · rw [if_pos hneg]
    exact hnothing (-1)
  · rw [if_neg hneg]
    cases flags with
    | timeout => exact hnothing (-1)
    | noFlag => exact hsome
    | noWait => exact hsome

end CmuTcp
