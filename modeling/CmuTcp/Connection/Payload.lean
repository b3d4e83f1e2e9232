import CmuTcp.Library.FaultSystem
import CmuTcp.Model.Network

/-!
# Where the Payload of a Packet Lies

`get_payload` skips the extension, `get_payload_len` is the difference of two length
fields, and nothing compares the two with the length of the packet.  This module says
for which packets `handle_message` delivers bytes of the packet only, whatever the three
fields are and whatever follows the packet in memory.

A packet is looked at together with the memory behind it, and "bytes of the packet only"
means that the result is the same whatever that memory holds.

1. A payload that ends inside the packet has consistent length fields, because a difference
   that underflows is too large (`Packet.consistent_of_payloadEnd_le`).
2. The copy into the ring reads exactly `len` bytes from `get_payload` on, so a payload
   inside the packet does not see the memory, and one that is refused is not read at all.
3. `TakesOwnBytes` asks of a payload that is received that it lies inside.  What is left is
   to say in which calls `recv_buffer_receive` is not reached at all.

Main result: `takesOwnBytes_iff`.
-/

namespace CmuTcp

open FaultSystem

/-! ## Packets in memory -/

/-- The packet in a memory that goes on with `mem`. -/
def Packet.followedBy (p : Packet) (mem : List UInt8) : Packet :=
  { p with body := p.body ++ mem }

@[simp] theorem Packet.header_followedBy (p : Packet) (mem : List UInt8) :
    (p.followedBy mem).header = p.header := rfl

@[simp] theorem getPayloadLen_followedBy (p : Packet) (mem : List UInt8) :
    getPayloadLen (p.followedBy mem) = getPayloadLen p := rfl

@[simp] theorem Packet.followedBy_nil (p : Packet) : p.followedBy [] = p := by
  simp [Packet.followedBy]

/-- One past the last byte of the payload, counted from the first byte of the packet. -/
def Packet.payloadEnd (p : Packet) : ℕ :=
  headerLen.toNat + p.header.extensionLength.toNat + (getPayloadLen p).toNat

/-- A packet of `plen` bytes, which are enough for a header, with the ACK flag and without
    the SYN and FIN flags. -/
structure Packet.IsPlain (p : Packet) : Prop where
  whole : headerLen.toNat ≤ p.header.plen.toNat
  body : p.body.length = p.header.plen.toNat - headerLen.toNat
  ack : p.hasFlag ackFlagMask = true
  syn : p.hasFlag synFlagMask = false
  fin : p.hasFlag finFlagMask = false

/-- The three length fields agree. -/
structure Packet.Consistent (p : Packet) : Prop where
  hlen_le_plen : p.header.hlen ≤ p.header.plen
  header : headerLen ≤ p.header.hlen
  payload : p.payloadEnd ≤ p.header.plen.toNat

/-- A payload inside the packet is enough: where `plen - hlen` underflows, or counts bytes
    of the header, it ends behind the packet. -/
theorem Packet.consistent_of_payloadEnd_le {p : Packet}
    (h : p.payloadEnd ≤ p.header.plen.toNat) : p.Consistent := by
  have hhdr : headerLen.toNat = 25 := rfl
  have hlen : (getPayloadLen p).toNat =
      (2 ^ 16 - p.header.hlen.toNat + p.header.plen.toNat) % 2 ^ 16 := UInt16.toNat_sub ..
  have hhlen := p.header.hlen.toNat_lt
  have hplen := p.header.plen.toNat_lt
  unfold Packet.payloadEnd at h
  refine ⟨?_, ?_, h⟩
  · rw [UInt16.le_iff_toNat_le]
    omega
  · rw [UInt16.le_iff_toNat_le]
    omega

/-! ## The call of recv_buffer_receive -/

/-- The ack number passes the asserts of `seqnum_to_index_send`, or does not get there. -/
def CmuSocket.TakesAck (sock : CmuSocket) (acknum : UInt32) : Prop :=
  acknum = sock.window.lastAckReceived ∨ acknum - 1 ≤ sock.sendBuf.lastByteAckedSeqnum ∨
    acknum - 1 < sock.sendBuf.lastByteAckedSeqnum + sock.sendBuf.capacity

/-- `handle_message` calls `recv_buffer_receive`: the ack update does not abort, the
    payload length is not `0`, and `recv_buffer_can_receive` answers `0`. -/
structure CmuSocket.Receives (sock : CmuSocket) (p : Packet) : Prop where
  acks : sock.TakesAck p.header.ackNum
  len : getPayloadLen p ≠ 0
  canReceive : recvBufferCanReceive sock.recvBuf p.header.seqNum (getPayloadLen p).toUInt32 = 0

section Reads

variable {sock : CmuSocket} {p : Packet} {now : Int}

theorem handleMessage_of_isPlain (hp : p.IsPlain) (sock : CmuSocket) (mem : List UInt8)
    (now : Int) : handleMessage sock (p.followedBy mem) now = (do
      let sock ← handleAck sock p.header.ackNum now
      let sock := { sock with
        window := { sock.window with rcvdAdvertisedWindow := p.header.advertisedWindow } }
      if getPayloadLen p ≠ 0 then handlePayload sock (p.followedBy mem)
      else return (sock, [])) :=
  have hflag : ∀ mask, (p.followedBy mem).hasFlag mask = p.hasFlag mask := fun _ => rfl
  handleMessage_of_hasFlag sock ((hflag _).trans hp.ack) ((hflag _).trans hp.syn)
    ((hflag _).trans hp.fin) now

theorem seqnumToIndexSend_ok_iff {sb : SendBuffer} {seqnum : UInt32}
    (hlow : seqnum > sb.lastByteAckedSeqnum) : (∃ idx, seqnumToIndexSend sb seqnum = .ok idx) ↔
      seqnum < sb.lastByteAckedSeqnum + sb.capacity := by
  unfold seqnumToIndexSend
  rw [cAssert_of (UInt32.le_of_lt hlow)]
  constructor
  · rintro ⟨idx, hidx⟩
    obtain ⟨_, _, hrest⟩ := ok_of_bind_ok hidx
    obtain ⟨_, hassert, _⟩ := ok_of_bind_ok hrest
    by_contra hhigh
    have hfails : cAssert (seqnum < sb.lastByteAckedSeqnum + sb.capacity)
        .seqnumToIndexSendHigh = .error (.assertion .seqnumToIndexSendHigh) := if_neg hhigh
    exact absurd (hfails.symm.trans hassert) (by simp)
  · intro hhigh
    rw [cAssert_of hhigh]
    exact ⟨_, rfl⟩

theorem handleAck_ok_iff {acknum : UInt32} :
    (∃ sock', handleAck sock acknum now = .ok sock') ↔ sock.TakesAck acknum := by
  unfold handleAck CmuSocket.TakesAck
  by_cases hdup : acknum = sock.window.lastAckReceived
  · exact iff_of_true ⟨_, if_pos hdup⟩ (Or.inl hdup)
  · rw [if_neg hdup, or_iff_right hdup]
    dsimp only
    unfold sendBufferUpdateAck
    by_cases hnew : acknum - 1 > sock.sendBuf.lastByteAckedSeqnum
    · rw [or_iff_right (UInt32.not_le.mpr hnew), ← seqnumToIndexSend_ok_iff hnew]
      dsimp only
      rw [if_pos hnew]
      constructor
      · rintro ⟨_, hok⟩
        obtain ⟨_, hupdate, _⟩ := ok_of_bind_ok hok
        obtain ⟨idx, hidx, _⟩ := ok_of_bind_ok hupdate
        exact ⟨idx, hidx⟩
      · rintro ⟨idx, hidx⟩
        rw [hidx]
        exact ⟨_, rfl⟩
    · dsimp only
      rw [if_neg hnew]
      exact iff_of_true ⟨_, rfl⟩ (Or.inl (UInt32.not_lt.mp hnew))

theorem receivePayload_refused {rb : RecvBuffer} {seqnum len : UInt32}
    (hcan : recvBufferCanReceive rb seqnum len ≠ 0) (payload : List UInt8) :
    receivePayload rb seqnum len payload = .ok rb :=
  if_neg hcan

/-- Without the call the receive buffer stays as it is. -/
theorem handleMessage_recvBuf (hp : p.IsPlain) (hnot : ¬ sock.Receives p) {mem : List UInt8}
    {sock' : CmuSocket} {packets : List Packet}
    (h : handleMessage sock (p.followedBy mem) now = .ok (sock', packets)) :
    sock'.recvBuf = sock.recvBuf := by
  rw [handleMessage_of_isPlain hp] at h
  obtain ⟨sock₁, hack, hrest⟩ := ok_of_bind_ok h
  have hsame := handleAck_recvBuf hack
  dsimp only at hrest
  split at hrest
  · rename_i hlen
    have hcan : ¬ recvBufferCanReceive sock.recvBuf p.header.seqNum
        (getPayloadLen p).toUInt32 = 0 := by
      exact fun hcan => hnot ⟨handleAck_ok_iff.mp ⟨sock₁, hack⟩, hlen, hcan⟩
    obtain ⟨rb, hrb, hret⟩ := ok_of_bind_ok hrest
    obtain ⟨rfl, _⟩ := Prod.mk.inj (Except.ok.inj hret)
    have hrefused := receivePayload_refused (show _ ≠ 0 from hsame.symm ▸ hcan)
      (getPayload (p.followedBy mem))
    exact (Except.ok.inj (hrefused.symm.trans hrb)).symm.trans hsame
  · obtain ⟨rfl, _⟩ := Prod.mk.inj (Except.ok.inj hrest)
    exact hsame

end Reads

/-! ## What a receive reads -/

theorem memcpyTo_append {dst data : List UInt8} {dstOff srcOff len : UInt32}
    (h : srcOff.toNat + len.toNat ≤ data.length) (mem : List UInt8) :
    memcpyTo dst dstOff (data ++ mem) srcOff len = memcpyTo dst dstOff data srcOff len := by
  have hslice : CircularBuffer.slice (data ++ mem) srcOff.toNat len.toNat =
      CircularBuffer.slice data srcOff.toNat len.toNat := by
    unfold CircularBuffer.slice
    rw [List.drop_append_of_le_length (by omega), List.take_append_of_le_length (by
      rw [List.length_drop]
      omega)]
  have hmore : srcOff.toNat + len.toNat ≤ (data ++ mem).length := by
    rw [List.length_append]
    omega
  simp only [memcpyTo, h, hmore, hslice, and_true]

/-- The copy into the ring reads the first `len` bytes of its argument, whatever the state
    of the buffer is. -/
theorem safeMemcpyToRecvbuf_append (rb : RecvBuffer) (position : UInt32) {len : UInt32}
    {data : List UInt8} (hpos : 0 < len.toNat) (h : len.toNat ≤ data.length) (mem : List UInt8) :
    safeMemcpyToRecvbuf rb (position % rb.capacity) len (data ++ mem) =
      safeMemcpyToRecvbuf rb (position % rb.capacity) len data := by
  -- an index in the ring, or a ring of capacity `0` and no wrap
  have hindex : (position % rb.capacity).toNat < rb.capacity.toNat ∨ rb.capacity.toNat = 0 := by
    rw [UInt32.toNat_mod]
    rcases Nat.eq_zero_or_pos rb.capacity.toNat with hzero | hpos
    · exact Or.inr hzero
    · exact Or.inl (Nat.mod_lt _ hpos)
  generalize position % rb.capacity = startIndex at *
  unfold safeMemcpyToRecvbuf
  split
  · exact memcpyTo_append (by rw [UInt32.toNat_zero]; omega) mem
  · rename_i hwrap
    -- the first of the two copies is shorter than `len`
    have htail : (rb.capacity - startIndex).toNat + (len - (rb.capacity - startIndex)).toNat =
        len.toNat := by
      rw [UInt32.le_iff_toNat_le] at hwrap
      simp only [UInt32.toNat_sub, UInt32.toNat_add, UInt32.toNat_one] at hwrap ⊢
      have := len.toNat_lt
      have := rb.capacity.toNat_lt
      have := startIndex.toNat_lt
      omega
    simp only [memcpyTo_append (show (0 : UInt32).toNat + (rb.capacity - startIndex).toNat ≤
      data.length by rw [UInt32.toNat_zero]; omega) mem, memcpyTo_append (show
        (rb.capacity - startIndex).toNat + (len - (rb.capacity - startIndex)).toNat ≤
          data.length by omega) mem]

theorem recvBufferReceive_append (rb : RecvBuffer) (seqnum : UInt32) {len : UInt32}
    {data : List UInt8} (hpos : 0 < len.toNat) (h : len.toNat ≤ data.length) (mem : List UInt8) :
    recvBufferReceive rb seqnum len (data ++ mem) = recvBufferReceive rb seqnum len data := by
  simp only [recvBufferReceive, seqnumToIndexRecv, bind_assoc, pure_bind,
    safeMemcpyToRecvbuf_append _ _ hpos h mem]

/-! ## Main result -/

/-- What `handle_message` may take out of a packet: bytes of the packet, and nothing if
    its length fields disagree. -/
structure CmuSocket.TakesOwnBytes (sock : CmuSocket) (p : Packet) : Prop where
  inside : sock.Receives p → p.payloadEnd ≤ p.header.plen.toNat
  -- whatever follows the packet in memory
  own : ∀ mem now, handleMessage sock (p.followedBy mem) now = handleMessage sock p now
  inconsistent : ¬ p.Consistent → ∀ mem now sock' packets,
    handleMessage sock (p.followedBy mem) now = .ok (sock', packets) →
    sock'.recvBuf = sock.recvBuf

section Main

variable {sock : CmuSocket} {p : Packet}

/-- A payload inside the packet is read from the packet. -/
theorem handlePayload_own (hp : p.IsPlain) (hlen : getPayloadLen p ≠ 0)
    (hend : p.payloadEnd ≤ p.header.plen.toNat) (mem : List UInt8) :
    handlePayload sock (p.followedBy mem) = handlePayload sock p := by
  unfold Packet.payloadEnd at hend
  have hlength : (getPayload p).length =
      p.header.plen.toNat - headerLen.toNat - p.header.extensionLength.toNat := by
    rw [getPayload, List.length_drop, hp.body]
  have hpos : 0 < (getPayloadLen p).toUInt32.toNat := by
    rw [UInt16.toNat_toUInt32]
    exact payloadLen_pos hlen
  have hle : (getPayloadLen p).toUInt32.toNat ≤ (getPayload p).length := by
    rw [UInt16.toNat_toUInt32, hlength]
    omega
  have hpayload : getPayload (p.followedBy mem) = getPayload p ++ mem := by
    have hext : p.header.extensionLength.toNat ≤ p.body.length := by
      rw [hp.body]
      omega
    exact List.drop_append_of_le_length hext
  simp only [handlePayload, receivePayload, hpayload, Packet.header_followedBy,
    getPayloadLen_followedBy, recvBufferReceive_append _ _ hpos hle]

/-- A payload that is refused is not read at all. -/
theorem handlePayload_refused (hcan : recvBufferCanReceive sock.recvBuf p.header.seqNum
    (getPayloadLen p).toUInt32 ≠ 0) (mem : List UInt8) :
    handlePayload sock (p.followedBy mem) = handlePayload sock p := by
  simp only [handlePayload, Packet.header_followedBy, getPayloadLen_followedBy,
    receivePayload_refused hcan]

/-- What follows the packet does not matter if its payload lies inside, or is not taken. -/
theorem handleMessage_own (hp : p.IsPlain)
    (h : sock.Receives p → p.payloadEnd ≤ p.header.plen.toNat) (mem : List UInt8) (now : Int) :
    handleMessage sock (p.followedBy mem) now = handleMessage sock p now := by
  have hnil := handleMessage_of_isPlain hp sock [] now
  rw [Packet.followedBy_nil] at hnil
  rw [handleMessage_of_isPlain hp, hnil]
  cases hack : handleAck sock p.header.ackNum now with
  | error f => rfl
  | ok sock₁ =>
    have hsame := handleAck_recvBuf hack
    have htakes : sock.TakesAck p.header.ackNum := handleAck_ok_iff.mp ⟨sock₁, hack⟩
    show ite _ _ _ = ite _ _ _
    by_cases hlen : getPayloadLen p = 0
    · rw [if_neg (not_not.mpr hlen), if_neg (not_not.mpr hlen)]
    · rw [if_pos hlen, if_pos hlen]
      by_cases hcan : recvBufferCanReceive sock.recvBuf p.header.seqNum
          (getPayloadLen p).toUInt32 = 0
      · exact handlePayload_own hp hlen (h ⟨htakes, hlen, hcan⟩) mem
      · exact handlePayload_refused (by rw [hsame]; exact hcan) mem

theorem CmuSocket.takesOwnBytes_of (hp : p.IsPlain) : sock.TakesOwnBytes p ↔
    p.payloadEnd ≤ p.header.plen.toNat ∨ ¬ sock.Receives p := by
  constructor
  · intro hown
    by_cases hreceives : sock.Receives p
    · exact Or.inl (hown.inside hreceives)
    · exact Or.inr hreceives
  · intro h
    have hinside : sock.Receives p → p.payloadEnd ≤ p.header.plen.toNat :=
      fun hreceives => h.resolve_right (not_not.mpr hreceives)
    refine ⟨hinside, handleMessage_own hp hinside, ?_⟩
    intro hinconsistent mem now sock' packets hok
    refine handleMessage_recvBuf hp (fun hreceives => ?_) hok
    exact hinconsistent (Packet.consistent_of_payloadEnd_le (hinside hreceives))

/-- **When only payload bytes of the packet are delivered**: for every packet with the ACK
    flag and without SYN and FIN, all values of its length fields and every state of the
    socket, if and only if `25 + extension_length + (plen - hlen)` is at most `plen`, or the
    payload length is `0`, or `recv_buffer_can_receive` refuses the segment, or the ack
    number aborts the update before. -/
theorem takesOwnBytes_iff (hp : p.IsPlain) : sock.TakesOwnBytes p ↔
    p.payloadEnd ≤ p.header.plen.toNat ∨ getPayloadLen p = 0 ∨
      recvBufferCanReceive sock.recvBuf p.header.seqNum (getPayloadLen p).toUInt32 ≠ 0 ∨
      ¬ sock.TakesAck p.header.ackNum := by
  have hnot : ¬ sock.Receives p ↔ getPayloadLen p = 0 ∨
      recvBufferCanReceive sock.recvBuf p.header.seqNum (getPayloadLen p).toUInt32 ≠ 0 ∨
      ¬ sock.TakesAck p.header.ackNum := by
    constructor
    · intro h
      by_contra hnone
      obtain ⟨hlen, hcan, hacks⟩ : _ ∧ _ ∧ _ := by simpa only [not_or] using hnone
      exact h ⟨not_not.mp hacks, hlen, not_not.mp hcan⟩
    · rintro (hlen | hcan | hacks) h
      · exact h.len hlen
      · exact hcan h.canReceive
      · exact hacks h.acks
  rw [CmuSocket.takesOwnBytes_of hp, hnot]

end Main

/-- A data packet of two bytes for the first positions of a connection, with an
    extension length of `ext`. -/
def extendedPacket (ext : UInt16) : Packet where
  header := ⟨packetIdentifier, 0, 0, 101, 501, headerLen, 27, ackFlagMask, 10, ext⟩
  body := [7, 8]

theorem extendedPacket_isPlain (ext : UInt16) : (extendedPacket ext).IsPlain :=
  ⟨show 25 ≤ 27 by decide, rfl, show (ackFlagMask &&& ackFlagMask != 0) = true by decide,
    show (ackFlagMask &&& synFlagMask != 0) = false by decide,
    show (ackFlagMask &&& finFlagMask != 0) = false by decide⟩

/-- Without an extension the two bytes are delivered, whatever follows them. -/
theorem takesOwnBytes_iff_plain :
    ((smallConfig 4).establishedSocket .server).TakesOwnBytes (extendedPacket 0) :=
  (takesOwnBytes_iff (extendedPacket_isPlain 0)).mpr (Or.inl (by decide))

/-- An extension length of four in a packet that has no extension: the application reads
    two bytes that follow the packet in memory. -/
theorem extension_delivers_beyond : ∃ sock packets,
    handleMessage ((smallConfig 4).establishedSocket .server)
      ((extendedPacket 4).followedBy [50, 51, 52, 53]) 0 = .ok (sock, packets) ∧
    ¬ (extendedPacket 4).Consistent ∧
    (recvBufferRead sock.recvBuf 2).toOption.map Prod.fst = some [52, 53] ∧
    ¬ ((smallConfig 4).establishedSocket .server).TakesOwnBytes (extendedPacket 4) := by
  refine ⟨_, _, rfl, fun h => absurd h.payload (by decide), rfl, fun h => ?_⟩
  have hend := h.inside ⟨Or.inl rfl, by decide, by decide⟩
  exact absurd hend (by decide)

end CmuTcp
