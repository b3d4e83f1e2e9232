import CmuTcp.Ring.CopyOut

/-!
# What an Established Endpoint Sends

The packets of `multiple_send` and `resend_unacknowledged`: each carries the ack and the
window that the endpoint has at that moment, and a stretch of the stream after the last
byte acknowledged.  The stretch is given by its position and length; its bytes are those
of the stream whenever the copies out of the ring were in bounds.

1. One packet: `create_packet` does not refuse it, and its length is the chunk's.
2. One iteration of each loop, for any buffer.
3. The loop of `multiple_send` on a buffer that holds a stream: it lays its packets end to
   end behind the last byte sent, until the target is reached or the process dies in a copy
   that starts after the wrap.
4. The loop of `resend_unacknowledged`, which has no such copy and always comes to its end.
-/

namespace CmuTcp

open CircularBuffer

/-! ## Packets -/

/-- What the packets that an established endpoint sends have in common. -/
structure Packet.SentFrom (p : Packet) (sock : CmuSocket) : Prop where
  flags : p.header.flags = ackFlagMask
  ack : p.header.ackNum = sock.window.nextSeqExpected
  window : p.header.advertisedWindow = (recvBufferMaxReceive sock.recvBuf).toUInt16
  payload : (getPayload p).length = (getPayloadLen p).toNat

/-- The packet carries the `n` bytes from position `k` on of the stream after `isn`. -/
structure Packet.Carries (p : Packet) (isn k n : ℕ) : Prop where
  seq : p.header.seqNum.toNat = isn + k
  len : (getPayloadLen p).toNat = n
  pos : 0 < n

theorem Packet.Carries.len_ne_zero {p : Packet} {isn k n : ℕ} (h : p.Carries isn k n) :
    getPayloadLen p ≠ 0 := by
  intro h0
  have hpos := h.pos
  rw [← h.len, h0] at hpos
  exact absurd hpos (by decide)

/-- The loops test that something is left to send. -/
theorem target_pos_iff {target : UInt32} : target > 0 ↔ 0 < target.toNat := by
  rw [gt_iff_lt, UInt32.lt_iff_toNat_lt, UInt32.toNat_zero]

theorem mss_toNat : mss.toNat = 1375 := by decide

/-- The length of the next packet: what is left, up to the `MSS`. -/
theorem chunkLen_toNat (target : UInt32) :
    (chunkLen target).toNat = min target.toNat 1375 := by
  unfold chunkLen
  rw [UInt32.toNat_toUInt16]
  split
  · rename_i hlt
    rw [UInt32.lt_iff_toNat_lt, mss_toNat] at hlt
    omega
  · rename_i hge
    rw [UInt32.lt_iff_toNat_lt, mss_toNat] at hge
    rw [mss_toNat]
    omega

theorem chunkLen_le (target : UInt32) : (chunkLen target).toNat ≤ 1375 := by
  rw [chunkLen_toNat]
  exact Nat.min_le_right _ _

theorem toNat_chunkLen (target : UInt32) :
    (chunkLen target).toUInt32.toNat = min target.toNat 1375 := by
  rw [UInt16.toNat_toUInt32, chunkLen_toNat]

/-- What is left after the next packet. -/
theorem sub_chunkLen_toNat (target : UInt32) :
    (target - (chunkLen target).toUInt32).toNat = target.toNat - min target.toNat 1375 := by
  have := target.toNat_lt
  rw [UInt32.toNat_sub, toNat_chunkLen]
  omega

theorem chunkLen_ne_zero {target : UInt32} (hpos : target > 0) :
    (chunkLen target).toUInt32 ≠ 0 := by
  intro h0
  have hchunk := toNat_chunkLen target
  rw [h0, UInt32.toNat_zero] at hchunk
  rw [target_pos_iff] at hpos
  omega

/-- `create_packet` does not refuse a data packet. -/
theorem dataPacket_eq (sock : CmuSocket) (seq : UInt32) {payload : List UInt8}
    {payloadLen : UInt16} (hlen : payloadLen.toNat ≤ 1375)
    (hpayload : payload.length = payloadLen.toNat) :
    ∃ p, dataPacket sock seq payload payloadLen = some p ∧ p.SentFrom sock ∧
      p.header.seqNum = seq ∧ getPayloadLen p = payloadLen ∧ getPayload p = payload := by
  -- `plen` is 25 more than the payload, and does not overflow
  have hsum : (headerLen + payloadLen).toNat = 25 + payloadLen.toNat := by
    have hhdr : headerLen.toNat = 25 := rfl
    rw [UInt16.toNat_add, hhdr]
    omega
  have hge : ¬ headerLen + payloadLen < headerLen := by
    rw [UInt16.lt_iff_toNat_lt, hsum]
    have hhdr : headerLen.toNat = 25 := rfl
    omega
  have hlen' : headerLen + payloadLen - headerLen = payloadLen := by
    apply UInt16.toNat_inj.mp
    have hhdr : headerLen.toNat = 25 := rfl
    rw [UInt16.toNat_sub, hsum, hhdr]
    omega
  have htake : payload.take payloadLen.toNat = payload :=
    List.take_of_length_le (le_of_eq hpayload)
  -- so `create_packet` returns a packet
  have hcreate : dataPacket sock seq payload payloadLen = some {
      header := {
        identifier := packetIdentifier, sourcePort := sock.myPort
        destinationPort := sock.conn.sinPort, seqNum := seq
        ackNum := sock.window.nextSeqExpected, hlen := headerLen
        plen := headerLen + payloadLen, flags := ackFlagMask
        advertisedWindow := (recvBufferMaxReceive sock.recvBuf).toUInt16, extensionLength := 0 }
      body := payload } := by
    rw [dataPacket, createPacket, if_neg (UInt16.lt_irrefl _), if_neg hge, htake]
  exact ⟨_, hcreate, ⟨rfl, rfl, rfl, hpayload.trans (congrArg UInt16.toNat hlen'.symm)⟩, rfl,
    hlen', rfl⟩

/-- The packet of a retransmission, with `len` bytes straight out of the ring. -/
theorem copyOut_packet (sock : CmuSocket) (beyond : ℕ → UInt8) (idx seq : UInt32)
    {len : UInt16} (hlen : len.toNat ≤ 1375) :
    ∃ p, dataPacket sock seq (sock.sendBuf.copyOut beyond idx len.toUInt32).bytes len = some p ∧
      p.SentFrom sock ∧ p.header.seqNum = seq ∧ getPayloadLen p = len ∧
      getPayload p = (sock.sendBuf.copyOut beyond idx len.toUInt32).bytes :=
  dataPacket_eq sock seq hlen
    ((SendBuffer.length_copyOut sock.sendBuf beyond idx _).trans (UInt16.toNat_toUInt32 _))

/-- The zero window probe of `resend_unacknowledged`. -/
theorem probe_packet (sock : CmuSocket) (beyond : ℕ → UInt8) :
    ∃ p, dataPacket sock (sock.sendBuf.lastByteAckedSeqnum + 1) (sock.sendBuf.copyOut beyond
        ((sock.sendBuf.lastByteAckedIndex + 1) % sock.sendBuf.capacity) 1).bytes 1 = some p ∧
      p.SentFrom sock ∧ p.header.seqNum = sock.sendBuf.lastByteAckedSeqnum + 1 ∧
      getPayloadLen p = 1 ∧ getPayload p = (sock.sendBuf.copyOut beyond
        ((sock.sendBuf.lastByteAckedIndex + 1) % sock.sendBuf.capacity) 1).bytes :=
  copyOut_packet sock beyond _ _ (show (1 : UInt16).toNat ≤ 1375 by decide)

/-- One iteration of the loop of `multiple_send`: a packet is sent, or the copy faults. -/
theorem multipleSendLoop_succ (sock : CmuSocket) (beyond : ℕ → UInt8) (fuel : ℕ)
    (sb : SendBuffer) {target : UInt32} (hpos : target > 0) :
    (∃ f, safeMemcpyFromSendbuf sb beyond ((sb.lastByteSentIndex + 1) % sb.capacity)
        (chunkLen target).toUInt32 = .error f ∧
      multipleSendLoop sock beyond (fuel + 1) sb target = ⟨sb, [], false, some f⟩) ∨
    ∃ copy p, safeMemcpyFromSendbuf sb beyond ((sb.lastByteSentIndex + 1) % sb.capacity)
        (chunkLen target).toUInt32 = .ok copy ∧
      p.SentFrom sock ∧ p.header.seqNum = getLastByteSentSeqnum sb + 1 ∧
      getPayloadLen p = chunkLen target ∧ getPayload p = copy.bytes ∧
      multipleSendLoop sock beyond (fuel + 1) sb target =
        let rest := multipleSendLoop sock beyond fuel
          (dumpIndex sb ((sb.lastByteSentIndex + 1) % sb.capacity) (chunkLen target).toUInt32)
          (target - (chunkLen target).toUInt32)
        ⟨rest.sendBuf, p :: rest.packets, copy.inBounds && rest.inBounds, rest.fault⟩ := by
  cases hcopy : safeMemcpyFromSendbuf sb beyond ((sb.lastByteSentIndex + 1) % sb.capacity)
      (chunkLen target).toUInt32 with
  | error f =>
    refine Or.inl ⟨f, rfl, ?_⟩
    simp only [multipleSendLoop, if_pos hpos, sendBufferDump, if_neg (chunkLen_ne_zero hpos),
      hcopy, bind, Except.bind]
  | ok copy =>
    -- the copy has as many bytes as the header says, so the packet is built
    have hlen := length_safeMemcpyFromSendbuf hcopy
    rw [UInt16.toNat_toUInt32] at hlen
    obtain ⟨p, hp, hfrom, hseq, hplen, hpay⟩ := dataPacket_eq sock (getLastByteSentSeqnum sb + 1)
      (chunkLen_le target) hlen
    refine Or.inr ⟨copy, p, rfl, hfrom, hseq, hplen, hpay, ?_⟩
    simp only [multipleSendLoop, if_pos hpos, sendBufferDump, if_neg (chunkLen_ne_zero hpos),
      hcopy, bind, Except.bind, pure, Except.pure, hp, Option.toList_some, List.singleton_append]

/-- One iteration of the loop of `resend_unacknowledged`. -/
theorem resendLoop_succ (sock : CmuSocket) (beyond : ℕ → UInt8) (startIndex startSeq : UInt32)
    (fuel : ℕ) (numSent : UInt32) {target : UInt32} (hpos : target > 0) :
    ∃ p, p.SentFrom sock ∧ p.header.seqNum = startSeq + numSent ∧
      getPayloadLen p = chunkLen target ∧
      getPayload p = (sock.sendBuf.copyOut beyond
        ((startIndex + numSent) % sock.sendBuf.capacity) (chunkLen target).toUInt32).bytes ∧
      resendLoop sock beyond startIndex startSeq (fuel + 1) numSent target =
        let rest := resendLoop sock beyond startIndex startSeq fuel
          (numSent + (chunkLen target).toUInt32) (target - (chunkLen target).toUInt32)
        (p :: rest.1, (sock.sendBuf.copyOut beyond
          ((startIndex + numSent) % sock.sendBuf.capacity)
          (chunkLen target).toUInt32).inBounds && rest.2) := by
  obtain ⟨p, hp, hfrom, hseq, hlen, hpay⟩ := copyOut_packet sock beyond
    ((startIndex + numSent) % sock.sendBuf.capacity) (startSeq + numSent) (chunkLen_le target)
  refine ⟨p, hfrom, hseq, hlen, hpay, ?_⟩
  simp only [resendLoop, if_pos hpos, hp]
  rfl

/-! ## Every packet -/

/-- The packet is a data packet of the socket, with as many bytes as its header says. -/
def Packet.IsData (p : Packet) (sock : CmuSocket) : Prop :=
  ∃ seq payload payloadLen, payloadLen.toNat ≤ 1375 ∧ payload.length = payloadLen.toNat ∧
    dataPacket sock seq payload payloadLen = some p

section EveryPacket

variable {sock : CmuSocket} {beyond : ℕ → UInt8}

theorem multipleSendLoop_isData {fuel : ℕ} {sb : SendBuffer} {target : UInt32} :
    ∀ p ∈ (multipleSendLoop sock beyond fuel sb target).packets, p.IsData sock := by
  induction fuel generalizing sb target with
  | zero => simp [multipleSendLoop]
  | succ fuel ih =>
    intro p hp
    unfold multipleSendLoop at hp
    split at hp
    · rename_i hpos
      dsimp only at hp
      split at hp
      · rename_i sb' payload hdump
        rcases List.mem_append.mp hp with hmsg | hrest
        · rw [sendBufferDump, if_neg (chunkLen_ne_zero hpos)] at hdump
          obtain ⟨copy, hcopy, hret⟩ := FaultSystem.ok_of_bind_ok hdump
          obtain ⟨_, rfl⟩ := Prod.mk.inj (Except.ok.inj hret)
          have hlen := length_safeMemcpyFromSendbuf hcopy
          rw [UInt16.toNat_toUInt32] at hlen
          exact ⟨_, _, _, chunkLen_le target, hlen, Option.mem_toList.mp hmsg⟩
        · exact ih p hrest
      · -- the copy has faulted
        exact absurd hp List.not_mem_nil
    · exact absurd hp List.not_mem_nil

theorem resendLoop_isData {startIndex startSeq : UInt32} {fuel : ℕ} {numSent target : UInt32} :
    ∀ p ∈ (resendLoop sock beyond startIndex startSeq fuel numSent target).1, p.IsData sock := by
  induction fuel generalizing numSent target with
  | zero => simp [resendLoop]
  | succ fuel ih =>
    intro p hp
    unfold resendLoop at hp
    split at hp
    · rcases List.mem_append.mp hp with hmsg | hrest
      · refine ⟨_, _, _, chunkLen_le target, ?_, Option.mem_toList.mp hmsg⟩
        rw [SendBuffer.length_copyOut, UInt16.toNat_toUInt32]
      · exact ih p hrest
    · exact absurd hp List.not_mem_nil

theorem resendUnacknowledged_isData {sent : Sent}
    (h : resendUnacknowledged sock beyond = .ok sent) : ∀ p ∈ sent.packets, p.IsData sock := by
  obtain ⟨_, _, h⟩ := FaultSystem.ok_of_bind_ok h
  dsimp only at h
  split at h
  · -- a zero window probe
    obtain rfl := Except.ok.inj h
    intro p hp
    exact ⟨_, _, 1, by decide, SendBuffer.length_copyOut sock.sendBuf beyond _ 1,
      Option.mem_toList.mp hp⟩
  · obtain rfl := Except.ok.inj h
    exact resendLoop_isData

/-- Everything that the sending part of an iteration sends is a data packet. -/
theorem transmit_isData {now : Int} {sent : Sent} (h : transmit sock now beyond = .ok sent) :
    ∀ p ∈ sent.packets, p.IsData sock := by
  unfold transmit at h
  split at h
  · exact resendUnacknowledged_isData h
  · obtain rfl := Except.ok.inj h
    exact multipleSendLoop_isData

/-! ## The send buffer -/

/-- A retransmission leaves the buffer as it is. -/
theorem resendUnacknowledged_sendBuf {sent : Sent}
    (h : resendUnacknowledged sock beyond = .ok sent) : sent.sendBuf = sock.sendBuf := by
  obtain ⟨_, _, h⟩ := FaultSystem.ok_of_bind_ok h
  dsimp only at h
  split at h
  · obtain rfl := Except.ok.inj h
    rfl
  · obtain rfl := Except.ok.inj h
    rfl

theorem multipleSendLoop_sameAcked {fuel : ℕ} {sb : SendBuffer} {target : UInt32} :
    sb.SameAcked (multipleSendLoop sock beyond fuel sb target).sendBuf := by
  induction fuel generalizing sb target with
  | zero => exact .refl sb
  | succ fuel ih =>
    by_cases hpos : target > 0
    · rcases multipleSendLoop_succ sock beyond fuel sb hpos with
        ⟨f, _, heq⟩ | ⟨copy, p, _, _, _, _, _, heq⟩
      · rw [heq]
        exact .refl sb
      · rw [heq]
        exact (dumpIndex_sameAcked sb _ _).trans ih
    · simp only [multipleSendLoop, if_neg hpos]
      exact .refl sb

/-- The sending part of an iteration does not touch what is acked. -/
theorem transmit_sameAcked {now : Int} {sent : Sent} (h : transmit sock now beyond = .ok sent) :
    sock.sendBuf.SameAcked sent.sendBuf := by
  unfold transmit at h
  split at h
  · rw [resendUnacknowledged_sendBuf h]
    exact .refl _
  · obtain rfl := Except.ok.inj h
    exact multipleSendLoop_sameAcked

/-! ## The fault -/

theorem multipleSendLoop_fault {fuel : ℕ} {sb : SendBuffer} {target : UInt32}
    (hin : (multipleSendLoop sock beyond fuel sb target).inBounds = true) :
    (multipleSendLoop sock beyond fuel sb target).fault = none := by
  induction fuel generalizing sb target with
  | zero => rfl
  | succ fuel ih =>
    by_cases hpos : target > 0
    · rcases multipleSendLoop_succ sock beyond fuel sb hpos with
        ⟨f, _, heq⟩ | ⟨copy, p, _, _, _, _, _, heq⟩
      · rw [heq] at hin
        exact absurd hin (by simp)
      · rw [heq] at hin ⊢
        exact ih (Bool.and_eq_true_iff.mp hin).2
    · simp only [multipleSendLoop, if_neg hpos]

/-- A process whose copies were all in bounds has not died in one. -/
theorem transmit_fault {now : Int} {sent : Sent} (h : transmit sock now beyond = .ok sent)
    (hin : sent.inBounds = true) : sent.fault = none := by
  unfold transmit at h
  split at h
  · obtain ⟨_, _, h⟩ := FaultSystem.ok_of_bind_ok h
    dsimp only at h
    split at h
    · obtain rfl := Except.ok.inj h
      rfl
    · obtain rfl := Except.ok.inj h
      rfl
  · obtain rfl := Except.ok.inj h
    exact multipleSendLoop_fault hin

end EveryPacket

/-! ## Fresh data -/

/-- The packets carry stretches between `lo` and `hi`, with the bytes of `st` if the
    copies were in bounds. -/
def SendsWithin (packets : List Packet) (inBounds : Bool) (sock : CmuSocket) (isn : ℕ)
    (st : SendStream UInt8) (lo hi : ℕ) : Prop :=
  ∀ p ∈ packets, p.SentFrom sock ∧ ∃ k n, p.Carries isn k n ∧ lo < k ∧ k + n ≤ hi + 1 ∧
    (inBounds = true → IsSlice (fromOne st.written) k (getPayload p))

theorem SendsWithin.mono {packets : List Packet} {b b' : Bool} {sock : CmuSocket} {isn : ℕ}
    {st : SendStream UInt8} {lo lo' hi hi' : ℕ} (h : SendsWithin packets b sock isn st lo hi)
    (hb : b' = true → b = true) (hlo : lo' ≤ lo) (hhi : hi ≤ hi') :
    SendsWithin packets b' sock isn st lo' hi' := by
  intro p hp
  obtain ⟨hfrom, k, n, hcar, hk, hkn, hslice⟩ := h p hp
  exact ⟨hfrom, k, n, hcar, by omega, by omega, fun hb' => hslice (hb hb')⟩

/-- A packet in front of others. -/
theorem SendsWithin.cons {p : Packet} {packets : List Packet} {b b' : Bool}
    {sock : CmuSocket} {isn : ℕ} {st : SendStream UInt8} {lo hi k n : ℕ}
    (hfrom : p.SentFrom sock) (hcar : p.Carries isn k n) (hlo : lo < k) (hhi : k + n ≤ hi + 1)
    (hslice : b = true → IsSlice (fromOne st.written) k (getPayload p))
    (h : SendsWithin packets b' sock isn st lo hi) :
    SendsWithin (p :: packets) (b && b') sock isn st lo hi := by
  intro q hq
  rcases List.mem_cons.mp hq with rfl | hq
  · refine ⟨hfrom, k, n, hcar, hlo, hhi, fun hbb => hslice ?_⟩
    exact (Bool.and_eq_true_iff.mp hbb).1
  · exact (h.mono (fun hbb => (Bool.and_eq_true_iff.mp hbb).2) (le_refl _) (le_refl _)) q hq

/-- The packets carry the bytes from behind `lo` up to `hi` of the stream after `isn`, one
    stretch after the other. -/
inductive Tiles (isn : ℕ) : List Packet → ℕ → ℕ → Prop
  | nil (lo : ℕ) : Tiles isn [] lo lo
  | cons {p : Packet} {packets : List Packet} {lo n hi : ℕ} (hcar : p.Carries isn (lo + 1) n)
      (hrest : Tiles isn packets (lo + n) hi) : Tiles isn (p :: packets) lo hi

/-- A condition on the segments of the `len` bytes from position `k` on is one on the first
    segment, and one on the others. -/
theorem forall_segments_iff {P : ℕ → ℕ → Prop} {k len : ℕ} (hpos : 0 < len) :
    (∀ j, 1375 * j < len → P (k + 1375 * j) (len - 1375 * j)) ↔
      P k len ∧ ∀ j, 1375 * j < len - min len 1375 →
        P (k + min len 1375 + 1375 * j) (len - min len 1375 - 1375 * j) := by
  constructor
  · intro h
    refine ⟨by simpa using h 0 hpos, fun j hj => ?_⟩
    have hnext := h (j + 1) (by omega)
    rwa [show k + 1375 * (j + 1) = k + min len 1375 + 1375 * j by omega,
      show len - 1375 * (j + 1) = len - min len 1375 - 1375 * j by omega] at hnext
  · rintro ⟨hfirst, hrest⟩ j hj
    cases j with
    | zero => simpa using hfirst
    | succ j =>
      have hnext := hrest j (by omega)
      rwa [show k + 1375 * (j + 1) = k + min len 1375 + 1375 * j by omega,
        show len - 1375 * (j + 1) = len - min len 1375 - 1375 * j by omega]

/-- Cut into segments, the `len` bytes from position `k` on have no segment that starts at or
    before the cell of position `a`: in a ring of `C` cells, none starts after the wrap. -/
def SegmentsBehind (C a k len : ℕ) : Prop :=
  ∀ j, 1375 * j < len → a % C < (k + 1375 * j) % C

theorem segmentsBehind_iff {C a k len : ℕ} (hpos : 0 < len) : SegmentsBehind C a k len ↔
    a % C < k % C ∧ SegmentsBehind C a (k + min len 1375) (len - min len 1375) :=
  forall_segments_iff (P := fun k _ => a % C < k % C) hpos

/-- Nothing is sent. -/
theorem segmentsBehind_zero (C a k : ℕ) : SegmentsBehind C a k 0 :=
  fun _ hj => absurd hj (Nat.not_lt_zero _)

section Iteration

variable {isn : ℕ} {sb : SendBuffer} {st : SendStream UInt8} {target : UInt32}

/-- The dump of the next chunk. -/
theorem SendBuffer.isDump_chunk (sb : SendBuffer) (hpos : 0 < target.toNat)
    (hle : st.sent + min target.toNat 1375 ≤ st.written.length) :
    SendBuffer.Refines.IsDump sb st ((sb.lastByteSentIndex + 1) % sb.capacity)
      (chunkLen target).toUInt32 := by
  have hchunk := toNat_chunkLen target
  exact ⟨rfl, by omega, by omega⟩

/-- One iteration on a buffer that holds the stream `st`, if the chunk starts after the
    wrap. -/
theorem multipleSendLoop_faults (sock : CmuSocket) (beyond : ℕ → UInt8) (fuel : ℕ)
    (h : sb.Refines isn st) (hw : sb.NoWrap) (hpos : 0 < target.toNat)
    (hle : st.sent + min target.toNat 1375 ≤ st.written.length)
    (hwrapped : ¬ st.acked % st.capacity < (st.sent + 1) % st.capacity) :
    multipleSendLoop sock beyond (fuel + 1) sb target = ⟨sb, [], false, some .memory⟩ := by
  have hcopy := (sb.isDump_chunk hpos hle).copy h hw beyond
  rw [if_neg hwrapped] at hcopy
  rcases multipleSendLoop_succ sock beyond fuel sb (target_pos_iff.mpr hpos) with
    ⟨f, hf, heq⟩ | ⟨copy, p, hok, _⟩
  · obtain rfl := Except.error.inj (hf.symm.trans hcopy)
    exact heq
  · exact absurd (hok.symm.trans hcopy) (by simp)

/-- And otherwise: the packet carries the bytes after the last one sent, and the buffer then
    counts them as sent. -/
theorem multipleSendLoop_next (sock : CmuSocket) (beyond : ℕ → UInt8) (fuel : ℕ)
    (h : sb.Refines isn st) (hw : sb.NoWrap) (hpos : 0 < target.toNat)
    (hle : st.sent + min target.toNat 1375 ≤ st.written.length)
    (hbehind : st.acked % st.capacity < (st.sent + 1) % st.capacity) :
    ∃ p sb', p.SentFrom sock ∧ p.Carries isn (st.sent + 1) (min target.toNat 1375) ∧
      sb'.Refines isn (st.dump (min target.toNat 1375) hle) ∧
      ∃ copy : RingCopy,
        (copy.inBounds = true → IsSlice (fromOne st.written) (st.sent + 1) (getPayload p)) ∧
        (copy.inBounds = true ↔ st.acked % st.capacity ≤ st.sent % st.capacity ∧
          st.sent % st.capacity + min target.toNat 1375 < st.capacity) ∧
        multipleSendLoop sock beyond (fuel + 1) sb target =
          let rest := multipleSendLoop sock beyond fuel sb'
            (target - (chunkLen target).toUInt32)
          ⟨rest.sendBuf, p :: rest.packets, copy.inBounds && rest.inBounds, rest.fault⟩ := by
  have hroom := h.noWrap hw
  have hwle := st.written_le
  have hchunk := toNat_chunkLen target
  -- the chunk is a dump as `multiple_send` makes it, from behind the acked cell
  have hd : SendBuffer.Refines.IsDump sb st ((sb.lastByteSentIndex + 1) % sb.capacity)
      (chunkLen target).toUInt32 := sb.isDump_chunk hpos hle
  have hcopy := hd.copy h hw beyond
  rw [if_pos hbehind] at hcopy
  have hbounds := hd.inBounds_iff h hw beyond
  have hslice := hd.isSlice h hw beyond
  have hdump := h.dumpIndex hw hd.start hd.pos hd.le
  have hseq : (getLastByteSentSeqnum sb + 1).toNat = isn + (st.sent + 1) := by
    rw [UInt32.toNat_add, UInt32.toNat_one, h.getLastByteSentSeqnum hw]
    omega
  -- so its copy does not fault, and the loop goes on
  rcases multipleSendLoop_succ sock beyond fuel sb (target_pos_iff.mpr hpos) with
    ⟨f, hf, _⟩ | ⟨copy, p, hok, hfrom, hpseq, hplen, hpay, heq⟩
  · exact absurd (hf.symm.trans hcopy) (by simp)
  · obtain rfl := Except.ok.inj (hok.symm.trans hcopy)
    simp only [hchunk] at hdump hbounds
    refine ⟨p, _, hfrom, ⟨hpseq ▸ hseq, by rw [hplen, chunkLen_toNat], by omega⟩, hdump, _, ?_,
      ?_, heq⟩
    -- the payload is what has been copied, and the copy is in bounds by its position
    · rw [hpay]
      exact hslice
    · rw [← hbounds]
      exact ⟨fun hin => ⟨hbehind, hin⟩, fun hin => hin.2⟩

end Iteration

/-- What the loop of `multiple_send` has done that was to send the next `target` bytes of the
    stream `st`: it has sent `n` of them, and then it has come to its end or to a chunk that
    starts after the wrap. -/
structure Sent.SendsNext (r : Sent) (sock : CmuSocket) (isn : ℕ) (st : SendStream UInt8)
    (target n : ℕ) : Prop where
  le : n ≤ target
  written : st.sent + n ≤ st.written.length
  sendBuf : r.sendBuf.Refines isn (st.dump n written)
  tiles : Tiles isn r.packets st.sent (st.sent + n)
  packets : SendsWithin r.packets r.inBounds sock isn st st.sent (st.sent + n)
  inBounds : r.inBounds = true ↔ target = 0 ∨ st.acked % st.capacity ≤ st.sent % st.capacity ∧
    st.sent % st.capacity + target < st.capacity
  finishes : r.fault = none ↔ SegmentsBehind st.capacity st.acked (st.sent + 1) target
  all : r.fault = none → n = target

section Fresh

variable {sock : CmuSocket} {isn : ℕ} {st : SendStream UInt8} {r : Sent} {target n : ℕ}

/-- Nothing is left to send. -/
theorem Sent.SendsNext.nil {sb : SendBuffer} (h : sb.Refines isn st) :
    Sent.SendsNext ⟨sb, [], true, none⟩ sock isn st 0 0 where
  le := le_refl 0
  written := st.sent_le_written
  sendBuf := h
  tiles := .nil _
  packets := by simp [SendsWithin]
  inBounds := by simp
  finishes := iff_of_true rfl (segmentsBehind_zero _ _ _)
  all _ := rfl

/-- The next chunk starts after the wrap. -/
theorem Sent.SendsNext.faults {sb : SendBuffer} {f : Fault} (h : sb.Refines isn st)
    (hpos : 0 < target)
    (hwrapped : ¬ st.acked % st.capacity < (st.sent + 1) % st.capacity) :
    Sent.SendsNext ⟨sb, [], false, some f⟩ sock isn st target 0 where
  le := Nat.zero_le _
  written := st.sent_le_written
  sendBuf := h
  tiles := .nil _
  packets := by simp [SendsWithin]
  inBounds := by
    refine iff_of_false (by simp) ?_
    rintro (hzero | ⟨hle', hlt⟩)
    · omega
    · -- the cell of the first fresh byte would be the next one
      have hcell : (st.sent + 1) % st.capacity = st.sent % st.capacity + 1 := by
        rw [← Nat.mod_add_mod]
        exact Nat.mod_eq_of_lt (by omega)
      omega
  finishes := iff_of_false (by simp) fun hbehind =>
    hwrapped ((segmentsBehind_iff hpos).mp hbehind).1
  all hnone := absurd hnone (by simp)

/-- A packet in front of what the rest of the loop does. -/
theorem Sent.SendsNext.cons {p : Packet} {copy : RingCopy} (hpos : 0 < target)
    (hle : st.sent + min target 1375 ≤ st.written.length) (hfrom : p.SentFrom sock)
    (hcar : p.Carries isn (st.sent + 1) (min target 1375))
    (hbehind : st.acked % st.capacity < (st.sent + 1) % st.capacity)
    (hslice : copy.inBounds = true → IsSlice (fromOne st.written) (st.sent + 1) (getPayload p))
    (hbounds : copy.inBounds = true ↔ st.acked % st.capacity ≤ st.sent % st.capacity ∧
      st.sent % st.capacity + min target 1375 < st.capacity)
    (h : r.SendsNext sock isn (st.dump (min target 1375) hle) (target - min target 1375) n) :
    Sent.SendsNext ⟨r.sendBuf, p :: r.packets, copy.inBounds && r.inBounds, r.fault⟩ sock isn st
      target (min target 1375 + n) := by
  have hn := h.le
  have hsum : (st.dump (min target 1375) hle).sent + n = st.sent + (min target 1375 + n) :=
    Nat.add_assoc ..
  have hwritten : st.sent + (min target 1375 + n) ≤ st.written.length := hsum ▸ h.written
  refine ⟨by omega, hwritten, ?_, ?_, ?_, ?_, ?_, fun hnone => ?_⟩
  -- the dump of the chunk and that of the rest are one dump
  · exact (st.dump_dump hle h.written) ▸ h.sendBuf
  -- the packets tile one stretch after the other
  · exact .cons hcar (hsum ▸ h.tiles)
  · refine SendsWithin.cons hfrom hcar (Nat.lt_succ_self _) (by omega) hslice ?_
    exact h.packets.mono id (Nat.le_add_right _ _) (le_of_eq hsum)
  · -- the stretches of the packet and of the rest are one
    have hacked := st.acked_le_sent
    have hwle := st.written_le
    have hcell := add_mod_of_lt (C := st.capacity) (a := st.sent) (q := min target 1375) (by omega)
    rw [Bool.and_eq_true_iff, hbounds, h.inBounds]
    simp only [SendStream.dump]
    split at hcell
    · rw [hcell]
      omega
    · omega
  -- the rest finishes exactly if none of its chunks starts after the wrap
  · rw [segmentsBehind_iff hpos, h.finishes]
    simp only [SendStream.dump, Nat.add_right_comm _ (min target 1375) 1]
    exact ⟨fun hrest => ⟨hbehind, hrest⟩, fun hall => hall.2⟩
  · have hall := h.all hnone
    omega

/-- **The loop of `multiple_send`** sends the next bytes of the stream, up to the target or
    up to a chunk that starts after the wrap. -/
theorem multipleSendLoop_spec (sock : CmuSocket) (beyond : ℕ → UInt8) {fuel : ℕ}
    {sb : SendBuffer} {target : UInt32} (h : sb.Refines isn st)
    (hw : sb.NoWrap) (hle : st.sent + target.toNat ≤ st.written.length)
    (hfuel : target.toNat ≤ fuel) :
    ∃ n, (multipleSendLoop sock beyond fuel sb target).SendsNext sock isn st target.toNat n := by
  induction fuel generalizing sb st target with
  | zero =>
    have hzero : target.toNat = 0 := by omega
    rw [hzero]
    exact ⟨0, .nil h⟩
  | succ fuel ih =>
    by_cases hpos : 0 < target.toNat
    · have hrest := sub_chunkLen_toNat target
      have hchunk : st.sent + min target.toNat 1375 ≤ st.written.length := by omega
      by_cases hbehind : st.acked % st.capacity < (st.sent + 1) % st.capacity
      · -- the next chunk, and the rest from the buffer that it leaves
        obtain ⟨p, sb', hfrom, hcar, href, copy, hslice, hbounds, heq⟩ :=
          multipleSendLoop_next sock beyond fuel h hw hpos hchunk hbehind
        have hw' : sb'.NoWrap := href.noWrap_iff.mpr (h.noWrap hw)
        obtain ⟨n, hn⟩ := @ih _ _ (target - (chunkLen target).toUInt32) href hw'
          (by simp only [SendStream.dump, hrest]; omega) (by omega)
        rw [heq]
        exact ⟨_, .cons hpos hchunk hfrom hcar hbehind hslice hbounds (hrest ▸ hn)⟩
      -- the chunk starts after the wrap, and the loop ends in its copy
      · rw [multipleSendLoop_faults sock beyond fuel h hw hpos hchunk hbehind]
        exact ⟨0, .faults h hpos hbehind⟩
    -- nothing is left to send
    · have hzero : target.toNat = 0 := Nat.eq_zero_of_not_pos hpos
      simp only [multipleSendLoop, if_neg (mt target_pos_iff.mp hpos), hzero]
      exact ⟨0, .nil h⟩

end Fresh

/-- The fresh bytes that fit the window. -/
theorem freshSendLen_toNat (sock : CmuSocket) :
    (freshSendLen sock).toNat = min (sendBufferMaxNewDump sock.sendBuf).toNat
      (sock.window.rcvdAdvertisedWindow.toNat - (getUnacknowledgedCount sock.sendBuf).toNat) := by
  have hwin : sock.window.rcvdAdvertisedWindow.toUInt32.toNat =
      sock.window.rcvdAdvertisedWindow.toNat := UInt16.toNat_toUInt32 _
  have hlt := sock.window.rcvdAdvertisedWindow.toNat_lt
  have hcount := (getUnacknowledgedCount sock.sendBuf).toNat_lt
  unfold freshSendLen
  dsimp only
  -- an open window lets out the difference, or all there is
  by_cases hopen : getUnacknowledgedCount sock.sendBuf <
      sock.window.rcvdAdvertisedWindow.toUInt32
  · have hopen' := UInt32.lt_iff_toNat_lt.mp hopen
    have hallowed : (sock.window.rcvdAdvertisedWindow.toUInt32 -
        getUnacknowledgedCount sock.sendBuf).toNat =
        sock.window.rcvdAdvertisedWindow.toNat -
          (getUnacknowledgedCount sock.sendBuf).toNat := by
      rw [UInt32.toNat_sub, hwin]
      omega
    rw [if_pos hopen]
    split
    · rename_i hmin
      rw [UInt32.lt_iff_toNat_lt, hallowed] at hmin
      omega
    · rename_i hmin
      rw [UInt32.lt_iff_toNat_lt, hallowed] at hmin
      omega
  -- a window that is full lets nothing out
  · have hopen' := mt UInt32.lt_iff_toNat_lt.mpr hopen
    rw [if_neg hopen, UInt32.toNat_zero]
    omega

section Transmit

variable {sock : CmuSocket} {isn : ℕ} {st : SendStream UInt8}

/-- The fresh bytes that `multiple_send` sends are written, and fit the peer's window. -/
theorem freshSendLen_le (h : sock.sendBuf.Refines isn st) :
    st.sent + (freshSendLen sock).toNat ≤ st.written.length ∧
      ((freshSendLen sock).toNat = 0 ∨ st.sent + (freshSendLen sock).toNat ≤
        st.acked + sock.window.rcvdAdvertisedWindow.toNat) := by
  have hlen := freshSendLen_toNat sock
  rw [h.sendBufferMaxNewDump, h.getUnacknowledgedCount] at hlen
  have hsent := st.sent_le_written
  have hacked := st.acked_le_sent
  omega

/-- `multiple_send` -/
theorem multipleSend_spec (h : sock.sendBuf.Refines isn st) (hw : sock.sendBuf.NoWrap)
    (beyond : ℕ → UInt8) :
    ∃ n, (multipleSend sock beyond).SendsNext sock isn st (freshSendLen sock).toNat n :=
  multipleSendLoop_spec sock beyond h hw (freshSendLen_le h).1 (le_refl _)

/-! ## Retransmissions -/

/-- Cut into segments, the `len` bytes from position `k` on stay in a ring of `C` cells. -/
def SegmentsFit (C k len : ℕ) : Prop :=
  ∀ j, 1375 * j < len → (k + 1375 * j) % C + min 1375 (len - 1375 * j) ≤ C

/-- The first segment, and the others. -/
theorem segmentsFit_iff {C k len : ℕ} (hpos : 0 < len) : SegmentsFit C k len ↔
    k % C + min len 1375 ≤ C ∧ SegmentsFit C (k + min len 1375) (len - min len 1375) := by
  have hsplit := forall_segments_iff (P := fun k len => k % C + min 1375 len ≤ C) (k := k) hpos
  rwa [Nat.min_comm 1375 len] at hsplit

/-- In the first lap everything stays in the ring. -/
theorem segmentsFit_of_le {C k len : ℕ} (h : k + len ≤ C) : SegmentsFit C k len := by
  intro j hj
  rw [Nat.mod_eq_of_lt (by omega)]
  omega

theorem resendLen_toNat (h : sock.sendBuf.Refines isn st) :
    (resendLen sock).toNat =
      min (st.sent - st.acked) sock.window.rcvdAdvertisedWindow.toNat := by
  have hunacked := h.getUnacknowledgedCount
  have hwin : sock.window.rcvdAdvertisedWindow.toUInt32.toNat =
      sock.window.rcvdAdvertisedWindow.toNat := UInt16.toNat_toUInt32 _
  unfold resendLen
  dsimp only
  split
  · rename_i hlt
    rw [UInt32.lt_iff_toNat_lt, hunacked, hwin] at hlt
    omega
  · rename_i hge
    rw [UInt32.lt_iff_toNat_lt, hunacked, hwin] at hge
    omega

/-- The copy of `len` unacknowledged bytes that a retransmission makes. -/
theorem copyOut_carries (h : sock.sendBuf.Refines isn st) (beyond : ℕ → UInt8) {p : Packet}
    {len : UInt16} {idx seq : UInt32} {k : ℕ} (hpseq : p.header.seqNum = seq)
    (hplen : getPayloadLen p = len)
    (hpay : getPayload p = (sock.sendBuf.copyOut beyond idx len.toUInt32).bytes)
    (hidx : idx.toNat = k % st.capacity) (hseq : seq.toNat = isn + k) (hpos : 0 < len.toNat)
    (hlo : st.acked < k) (hhi : k + len.toNat ≤ st.sent + 1) :
    p.Carries isn k len.toNat ∧
      ((sock.sendBuf.copyOut beyond idx len.toUInt32).inBounds = true →
        IsSlice (fromOne st.written) k (getPayload p)) ∧
      ((sock.sendBuf.copyOut beyond idx len.toUInt32).inBounds = true ↔
        k % st.capacity + len.toNat ≤ st.capacity) := by
  have hlen32 : len.toUInt32.toNat = len.toNat := UInt16.toNat_toUInt32 _
  have hsent := st.sent_le_written
  have hbounds : (sock.sendBuf.copyOut beyond idx len.toUInt32).inBounds = true ↔ _ :=
    h.copyOut_inBounds beyond hidx
  refine ⟨⟨hpseq ▸ hseq, by rw [hplen], hpos⟩, ?_, hlen32 ▸ hbounds⟩
  intro hin
  rw [hpay]
  exact h.copyOut_isSlice beyond hidx hlo (by omega) (hbounds.mp hin)

/-- The loop of `resend_unacknowledged` sends `target` bytes after the first `numSent`
    unacknowledged ones, out of the ring as long as no segment crosses its end. -/
theorem resendLoop_spec (h : sock.sendBuf.Refines isn st) (hfit : sock.sendBuf.IndicesFit)
    (hlast : isn + st.sent < 2 ^ 32) (beyond : ℕ → UInt8) {startIndex startSeq : UInt32}
    (hidx : startIndex.toNat = (st.acked + 1) % st.capacity)
    (hseq : startSeq.toNat = isn + st.acked + 1) {fuel : ℕ} {numSent target : UInt32}
    (hle : st.acked + numSent.toNat + target.toNat ≤ st.sent) (hfuel : target.toNat ≤ fuel) :
    SendsWithin (resendLoop sock beyond startIndex startSeq fuel numSent target).1
        (resendLoop sock beyond startIndex startSeq fuel numSent target).2 sock isn st
        (st.acked + numSent.toNat) (st.acked + numSent.toNat + target.toNat) ∧
      ((resendLoop sock beyond startIndex startSeq fuel numSent target).2 = true ↔
        SegmentsFit st.capacity (st.acked + numSent.toNat + 1) target.toNat) ∧
      (0 < target.toNat → ∃ p ps,
        (resendLoop sock beyond startIndex startSeq fuel numSent target).1 = p :: ps ∧
        p.Carries isn (st.acked + numSent.toNat + 1) (min target.toNat 1375)) := by
  induction fuel generalizing numSent target with
  | zero =>
    have hzero : target.toNat = 0 := by omega
    refine ⟨by simp [resendLoop, SendsWithin], ?_, fun hpos => absurd hzero (by omega)⟩
    exact iff_of_true rfl fun j hj => absurd hj (by omega)
  | succ fuel ih =>
    by_cases hpos : target > 0
    · have hpos' : 0 < target.toNat := target_pos_iff.mp hpos
      have hwle := st.written_le
      have hsent := st.sent_le_written
      have hcap := h.capacity_pos
      have hfit' : st.acked % st.capacity + st.capacity < 2 ^ 32 := by
        rw [← h.ackedIndex, ← h.capacity]
        exact hfit
      have hnext : (st.acked + 1) % st.capacity ≤ st.acked % st.capacity + 1 := by
        rw [← Nat.mod_add_mod]
        exact Nat.mod_le _ _
      have hchunk := chunkLen_toNat target
      have hchunk' := toNat_chunkLen target
      have hrest := sub_chunkLen_toNat target
      -- the first cell and the first number of the next packet
      have hcurr : ((startIndex + numSent) % sock.sendBuf.capacity).toNat =
          (st.acked + numSent.toNat + 1) % st.capacity := by
        rw [UInt32.toNat_mod, UInt32.toNat_add, hidx, h.capacity,
          Nat.mod_eq_of_lt (show (st.acked + 1) % st.capacity + numSent.toNat < 2 ^ 32 by omega),
          Nat.mod_add_mod, Nat.add_right_comm]
      have hcurrSeq : (startSeq + numSent).toNat = isn + (st.acked + numSent.toNat + 1) := by
        rw [UInt32.toNat_add, hseq]
        omega
      obtain ⟨p, hfrom, hpseq, hplen, hpay, heq⟩ :=
        resendLoop_succ sock beyond startIndex startSeq fuel numSent hpos
      obtain ⟨hcar, hslice, hbounds⟩ := copyOut_carries h beyond hpseq hplen hpay hcurr hcurrSeq
        (by omega) (by omega) (by omega)
      have hnum : (numSent + (chunkLen target).toUInt32).toNat =
          numSent.toNat + (chunkLen target).toUInt32.toNat := by
        rw [UInt32.toNat_add]
        omega
      have hle' : st.acked + (numSent + (chunkLen target).toUInt32).toNat +
          (target - (chunkLen target).toUInt32).toNat ≤ st.sent := by
        omega
      obtain ⟨hsends, hin, _⟩ := ih hle' (by omega)
      rw [heq]
      refine ⟨?_, ?_, ?_⟩
      · refine SendsWithin.cons hfrom hcar (Nat.lt_succ_self _) (by omega) hslice ?_
        exact hsends.mono id (by omega) (by omega)
      · rw [Bool.and_eq_true_iff, hbounds, hin, segmentsFit_iff hpos', hchunk, hnum, hrest, hchunk',
          Nat.add_right_comm _ 1 (min target.toNat 1375), ← Nat.add_assoc st.acked]
      · intro _
        exact ⟨p, _, rfl, hchunk ▸ hcar⟩
    · have hzero : target.toNat = 0 := Nat.eq_zero_of_not_pos (mt target_pos_iff.mpr hpos)
      simp only [resendLoop, if_neg hpos]
      refine ⟨by simp [SendsWithin], ?_, fun hcon => absurd hzero (by omega)⟩
      exact iff_of_true trivial fun j hj => absurd hj (by omega)

/-- `resend_unacknowledged` sends from the first unacknowledged byte on as much as fits
    the peer's window, and one byte if the window is `0`. -/
theorem resendUnacknowledged_spec (h : sock.sendBuf.Refines isn st)
    (hfit : sock.sendBuf.IndicesFit) (hlast : isn + st.sent < 2 ^ 32) (beyond : ℕ → UInt8)
    (hpos : st.acked < st.sent) :
    ∃ r, resendUnacknowledged sock beyond = .ok r ∧ r.sendBuf = sock.sendBuf ∧
      r.fault = none ∧ SendsWithin r.packets r.inBounds sock isn st st.acked
        (st.acked + max 1 (resendLen sock).toNat) ∧
      (r.inBounds = true ↔
        SegmentsFit st.capacity (st.acked + 1) (max 1 (resendLen sock).toNat)) ∧
      ∃ p ps, r.packets = p :: ps ∧
        p.Carries isn (st.acked + 1) (max 1 (min (resendLen sock).toNat 1375)) := by
  have hunacked := h.getUnacknowledgedCount
  have hlen := resendLen_toNat h
  have hfit' : st.acked % st.capacity + st.capacity < 2 ^ 32 := by
    rw [← h.ackedIndex, ← h.capacity]
    exact hfit
  have hcap := h.capacity_pos
  -- the assert of `resend_unacknowledged`
  have hassert : getUnacknowledgedCount sock.sendBuf > 0 := by
    rw [gt_iff_lt, UInt32.lt_iff_toNat_lt, hunacked, UInt32.toNat_zero]
    omega
  -- the first packet starts at the cell and the number after the last byte acknowledged
  have hidx : ((sock.sendBuf.lastByteAckedIndex + 1) % sock.sendBuf.capacity).toNat =
      (st.acked + 1) % st.capacity := by
    rw [UInt32.toNat_mod, UInt32.toNat_add, h.ackedIndex, h.capacity, UInt32.toNat_one,
      Nat.mod_eq_of_lt (show st.acked % st.capacity + 1 < 2 ^ 32 by omega), Nat.mod_add_mod]
  have hseq : (sock.sendBuf.lastByteAckedSeqnum + 1).toNat = isn + st.acked + 1 := by
    rw [UInt32.toNat_add, UInt32.toNat_one, h.acked]
    omega
  unfold resendUnacknowledged
  rw [cAssert_of hassert]
  by_cases hzero : resendLen sock = 0
  · -- a zero window probe
    have hzero' : (resendLen sock).toNat = 0 := by rw [hzero]; rfl
    obtain ⟨p, hp, hfrom, hpseq, hplen, hpay⟩ := probe_packet sock beyond
    obtain ⟨hcar, hslice, hbounds⟩ := copyOut_carries h beyond hpseq hplen hpay hidx
      (show _ = isn + (st.acked + 1) by rw [hseq, Nat.add_assoc]) (by decide)
      (Nat.lt_succ_self _) (by show st.acked + 1 + 1 ≤ st.sent + 1; omega)
    refine ⟨_, by simp only [bind, Except.bind, pure, Except.pure, if_pos hzero, hp]; rfl, rfl,
      rfl, ?_, ?_, p, [], rfl, hzero'.symm ▸ hcar⟩
    · intro q hq
      obtain rfl : q = p := by simpa using hq
      refine ⟨hfrom, _, _, hcar, Nat.lt_succ_self _, ?_, hslice⟩
      show st.acked + 1 + 1 ≤ st.acked + max 1 (resendLen sock).toNat + 1
      omega
    · -- one packet, so there is one copy to bound
      rw [hzero', Nat.max_eq_left (Nat.zero_le 1), segmentsFit_iff Nat.one_pos]
      refine hbounds.trans ⟨fun hle => ⟨hle, fun j hj => ?_⟩, fun hle => hle.1⟩
      exact absurd hj (Nat.not_lt_zero _)
  -- the loop, from offset `0` on
  · have hpos' : 0 < (resendLen sock).toNat := toNat_pos_of_ne_zero hzero
    have hle : st.acked + (0 : UInt32).toNat + (resendLen sock).toNat ≤ st.sent := by
      rw [UInt32.toNat_zero]
      omega
    obtain ⟨hsends, hbounds, hfirst⟩ :=
      resendLoop_spec h hfit hlast beyond hidx hseq hle (le_refl _)
    obtain ⟨p, ps, hps, hcar⟩ := hfirst hpos'
    refine ⟨_, by simp only [bind, Except.bind, pure, Except.pure, if_neg hzero]; rfl, rfl, rfl,
      ?_, ?_, p, ps, hps, ?_⟩
    · exact hsends.mono id (by rw [UInt32.toNat_zero]; omega) (by rw [UInt32.toNat_zero]; omega)
    · rw [Nat.max_eq_right hpos']
      exact hbounds
    · have hmin : max 1 (min (resendLen sock).toNat 1375) = min (resendLen sock).toNat 1375 := by
        omega
      rw [hmin]
      simpa using hcar

end Transmit

end CmuTcp
