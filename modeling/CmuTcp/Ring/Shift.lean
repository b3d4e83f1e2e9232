import CmuTcp.Ring.Moved
import CmuTcp.Ring.Send

/-!
# Sequence Numbers Under a Shift

The two rings compare sequence numbers as plain numbers.  Two runs of the same calls whose
sequence numbers differ by a constant therefore give the same answers as long as no number
in use lies on the other side of the end of the 32-bit range in one of them.

1. For the receive ring this is the lockstep of two buffers, call by call
   (`RecvOp.run_shift`).
2. For the send ring one number is stored, that of the last byte acknowledged, and all
   others are computed from it and the indices.  So the second buffer is the first one
   renumbered (`SendBuffer.renumber`), and the comparisons of a dump and of an ack agree if
   the numbers compared have not wrapped (`SendOp.run_shift`).
3. Lists of calls, by induction.

Main result: `shift_invisible`.
-/

namespace CmuTcp

open FaultSystem Lockstep
open LinkedHeap (Ptr)

/-! ## Calls of the receive ring -/

inductive RecvOp where
  | canReceive (seqnum len : UInt32)
  -- behind the guard of `handle_message`
  | receive (seqnum len : UInt32) (data : List UInt8)
  | read (len : UInt32)

/-- The call with its sequence number shifted. -/
def RecvOp.shift (k : UInt32) : RecvOp → RecvOp
  | .canReceive seqnum len => .canReceive (seqnum + k) len
  | .receive seqnum len data => .receive (seqnum + k) len data
  | .read len => .read len

/-- What is seen of a receive buffer after a call: its answer to a segment, the bytes
    read, and its counts. -/
structure RecvView where
  code : Option UInt8
  data : List UInt8
  maxRead : UInt32
  maxReceive : UInt32
  nextExpected : UInt32

def RecvBuffer.view (rb : RecvBuffer) (code : Option UInt8) (data : List UInt8) : RecvView where
  code := code
  data := data
  maxRead := recvBufferMaxRead rb
  maxReceive := recvBufferMaxReceive rb
  nextExpected := getNextByteExpectedSeqnum rb

def RecvOp.run (rb : RecvBuffer) : RecvOp → Except Fault (RecvView × RecvBuffer)
  | .canReceive seqnum len => .ok (rb.view (some (recvBufferCanReceive rb seqnum len)) [], rb)
  | .receive seqnum len data =>
    (receivePayload rb seqnum len data).map fun r =>
      (r.view (some (recvBufferCanReceive rb seqnum len)) [], r)
  | .read len => (recvBufferRead rb len).map fun r => (r.2.view none r.1, r.2)

/-- The same view, with the next byte expected shifted. -/
def RecvView.Same (k : UInt32) (v w : RecvView) : Prop :=
  w = { v with nextExpected := v.nextExpected + k }

/-- The segment does not reach the greatest sequence number in either run, and lies on the
    same side of it as the ISN. -/
def RecvOp.Clear (isn k : UInt32) : RecvOp → Prop
  | .canReceive seqnum len => Fits seqnum len
  | .receive seqnum len _ => Fits seqnum len
  | .read _ => True
where
  Fits (seqnum len : UInt32) : Prop :=
    ((seqnum + k).toNat : ℤ) - seqnum.toNat = (isn + k).toNat - isn.toNat ∧
      seqnum.toNat + len.toNat < 2 ^ 32 ∧ (seqnum + k).toNat + len.toNat < 2 ^ 32

instance (isn k seqnum len : UInt32) : Decidable (RecvOp.Clear.Fits isn k seqnum len) :=
  inferInstanceAs (Decidable (_ ∧ _ ∧ _))

section Receive

variable {δ : ℤ} {isn k : UInt32} {rb rb' : RecvBuffer}

/-- Numbers that are carried like the ISN differ by the shift. -/
theorem Carried.eq_add {q q' : UInt32} (hisn : Carried δ isn (isn + k)) (hq : Carried δ q q') :
    q' = q + k := by
  have hsub := congrArg UInt32.toNat (hq.sub_eq hisn)
  apply UInt32.toNat_inj.mp
  have := isn.toNat_lt
  have := (isn + k).toNat_lt
  have hk : (isn + k).toNat = (isn.toNat + k.toNat) % 2 ^ 32 := UInt32.toNat_add ..
  rw [UInt32.toNat_sub, UInt32.toNat_sub] at hsub
  rw [UInt32.toNat_add]
  have := q.toNat_lt
  have := q'.toNat_lt
  omega

/-- Buffers that differ by the shift look the same. -/
theorem RecvBuffer.Shifted.view (h : rb.Shifted δ rb') (hisn : Carried δ isn (isn + k))
    (code : Option UInt8) (data : List UInt8) :
    (rb.view code data).Same k (rb'.view code data) := by
  obtain ⟨d, hd, hd'⟩ := h.placed
  have hnext := hisn.eq_add (h.moved.next hd.ordered hd'.ordered)
  have hread : recvBufferMaxRead rb' = recvBufferMaxRead rb := by
    unfold recvBufferMaxRead
    rw [h.moved.next_sub]
  have hreceive : recvBufferMaxReceive rb' = recvBufferMaxReceive rb := by
    unfold recvBufferMaxReceive
    rw [h.moved.next_sub, h.moved.capacity]
  unfold RecvView.Same RecvBuffer.view
  rw [hread, hreceive, hnext]

/-- A clear segment, and its last number if there is one before the window. -/
theorem RecvOp.Clear.carried {seqnum len : UInt32} (h : Fits isn k seqnum len)
    (hisn : Carried δ isn (isn + k)) : Carried δ seqnum (seqnum + k) := by
  have hcarried := h.1
  unfold Carried at hisn ⊢
  omega

theorem RecvOp.Clear.last {seqnum len : UInt32} (h : Fits isn k seqnum len)
    (hisn : Carried δ isn (isn + k)) (hread : rb.Shifted δ rb')
    (hlow : rb.lastByteReadSeqnum < seqnum) :
    Carried δ (seqnum + len - 1) (seqnum + k + len - 1) ∧
      (seqnum + len - 1).toNat + 1 < 2 ^ 32 ∧ (seqnum + k + len - 1).toNat + 1 < 2 ^ 32 := by
  have hseq := RecvOp.Clear.carried h hisn
  have hlow' := (hread.moved.read.lt_iff hseq).mp hlow
  obtain ⟨_, hlt, hlt'⟩ := h
  rw [UInt32.lt_iff_toNat_lt] at hlow hlow'
  have hend : ∀ q : UInt32, 0 < q.toNat → q.toNat + len.toNat < 2 ^ 32 →
      (q + len - 1).toNat = q.toNat + len.toNat - 1 := by
    intro q hq hfits
    rw [UInt32.toNat_sub, UInt32.toNat_add, UInt32.toNat_one]
    omega
  have hfirst := hend seqnum (by omega) hlt
  have hsecond := hend (seqnum + k) (by omega) hlt'
  unfold Carried at hseq ⊢
  omega

/-- One call, in both runs. -/
theorem RecvOp.run_shift (hisn : Carried δ isn (isn + k)) (h : rb.Shifted δ rb') (op : RecvOp)
    (hclear : op.Clear isn k) :
    Agree (fun _ => True) (fun x y => x.1.Same k y.1 ∧ x.2.Shifted δ y.2) (op.run rb)
      ((op.shift k).run rb') := by
  cases op with
  -- the guard compares the segment with the numbers of the ring
  | canReceive seqnum len =>
    have hcan := h.canReceive (RecvOp.Clear.carried hclear hisn)
      fun hlow => (RecvOp.Clear.last hclear hisn h hlow).1
    refine .ok ⟨?_, h⟩
    rw [hcan]
    exact h.view hisn _ _
  -- the segment is received in both runs or in neither
  | receive seqnum len data =>
    have hseq := RecvOp.Clear.carried hclear hisn
    have hlast : rb.lastByteReadSeqnum < seqnum →
        Carried δ (seqnum + len - 1) (seqnum + k + len - 1) :=
      fun hlow => (RecvOp.Clear.last hclear hisn h hlow).1
    -- a segment that is received ends within the window, so its last number is carried too
    have hreceive := h.receivePayload hseq hlast (fun hcan => by
      obtain ⟨d, hd, _⟩ := h.placed
      exact (RecvOp.Clear.last hclear hisn h (hd.of_canReceive hcan).1).2) data
    refine (hreceive.mono (fun _ _ => trivial) fun _ _ hr => hr).map fun r r' hr => ⟨?_, hr⟩
    rw [h.canReceive hseq hlast]
    exact hr.view hisn _ _
  -- a read compares differences only
  | read len =>
    refine (h.recvBufferRead len).map ?_
    rintro ⟨data, r⟩ ⟨_, r'⟩ ⟨rfl, hr⟩
    exact ⟨hr.view hisn none data, hr⟩

end Receive

/-! ## Calls of the send ring -/

inductive SendOp where
  | write (data : List UInt8) (len : UInt32)
  | dump (beyond : ℕ → UInt8) (startIndex len : UInt32)
  | updateAck (hdrAck : UInt32) (now : Int)

def SendOp.shift (k : UInt32) : SendOp → SendOp
  | .write data len => .write data len
  | .dump beyond startIndex len => .dump beyond startIndex len
  | .updateAck hdrAck now => .updateAck (hdrAck + k) now

/-- What is seen of a send buffer after a call: the bytes dumped and its counts. -/
structure SendView where
  dumped : RingCopy
  maxWrite : UInt32
  maxNewDump : UInt32
  unacknowledged : UInt32
  lastSent : UInt32
  nextWritten : UInt32

def SendBuffer.view (sb : SendBuffer) (dumped : RingCopy) : SendView where
  dumped := dumped
  maxWrite := sendBufferMaxWrite sb
  maxNewDump := sendBufferMaxNewDump sb
  unacknowledged := getUnacknowledgedCount sb
  lastSent := getLastByteSentSeqnum sb
  nextWritten := getNextByteWrittenSeqnum sb

def SendOp.run (sb : SendBuffer) : SendOp → Except Fault (SendView × SendBuffer)
  | .write data len => (sendBufferWrite sb data len).map fun r => (r.view ⟨[], true⟩, r)
  | .dump beyond startIndex len =>
    (sendBufferDump sb beyond startIndex len).map fun r => (r.1.view r.2, r.1)
  | .updateAck hdrAck now => (sendBufferUpdateAck sb hdrAck now).map fun r => (r.view ⟨[], true⟩, r)

def SendView.Same (k : UInt32) (v w : SendView) : Prop :=
  w = { v with lastSent := v.lastSent + k, nextWritten := v.nextWritten + k }

/-- The numbers that a dump compares have not wrapped around. -/
structure SendBuffer.DumpNoWrap (sb : SendBuffer) (startIndex len : UInt32) : Prop where
  sent : sb.lastByteAckedSeqnum ≤ getLastByteSentSeqnum sb
  last : sb.lastByteAckedSeqnum ≤
    indexToSeqnumSend sb ((startIndex + len - 1) % sb.capacity)

/-- An ack lies on the same side of the greatest sequence number as the last byte
    acknowledged, and if it is new the window does not reach beyond. -/
structure AcksStraight (sb sb' : SendBuffer) (hdrAck hdrAck' : UInt32) : Prop where
  carried : ((hdrAck' - 1).toNat : ℤ) - (hdrAck - 1).toNat =
    sb'.lastByteAckedSeqnum.toNat - sb.lastByteAckedSeqnum.toNat
  window : sb.lastByteAckedSeqnum < hdrAck - 1 → sb.NoWrap ∧ sb'.NoWrap

/-- The condition of a call of the send ring, in two states `sb` and `sb'`. -/
def SendOp.Clear (k : UInt32) (sb sb' : SendBuffer) : SendOp → Prop
  | .write _ _ => True
  | .dump _ startIndex len =>
    len = 0 ∨ sb.DumpNoWrap startIndex len ∧ sb'.DumpNoWrap startIndex len
  | .updateAck hdrAck _ => AcksStraight sb sb' hdrAck (hdrAck + k)

section Send

variable {δ : ℤ} {isn k : UInt32} {sb sb' : SendBuffer}

/-- The buffer with another number for its last byte acknowledged. -/
def SendBuffer.renumber (sb : SendBuffer) (q : UInt32) : SendBuffer :=
  { sb with lastByteAckedSeqnum := q }

/-- Send buffers that differ by the shift of that number. -/
structure SendBuffer.Moved (δ : ℤ) (sb sb' : SendBuffer) : Prop where
  acked : Carried δ sb.lastByteAckedSeqnum sb'.lastByteAckedSeqnum
  same : sb' = sb.renumber sb'.lastByteAckedSeqnum

/-! The other numbers keep their distance from it. -/

theorem nextWritten_renumber (sb : SendBuffer) (q : UInt32) :
    getNextByteWrittenSeqnum (sb.renumber q) - q =
      getNextByteWrittenSeqnum sb - sb.lastByteAckedSeqnum := by
  unfold getNextByteWrittenSeqnum SendBuffer.renumber
  dsimp only
  split
  · rw [UInt32.add_sub_cancel, UInt32.add_sub_cancel]
  · rw [UInt32.add_sub_cancel, UInt32.add_sub_cancel]

theorem lastSent_renumber (sb : SendBuffer) (q : UInt32) :
    getLastByteSentSeqnum (sb.renumber q) - q =
      getLastByteSentSeqnum sb - sb.lastByteAckedSeqnum := by
  unfold getLastByteSentSeqnum SendBuffer.renumber
  dsimp only
  split
  · rw [UInt32.add_sub_cancel, UInt32.add_sub_cancel]
  · rw [UInt32.add_sub_cancel, UInt32.add_sub_cancel]

theorem indexToSeqnumSend_renumber (sb : SendBuffer) (q index : UInt32) :
    indexToSeqnumSend (sb.renumber q) index - q =
      indexToSeqnumSend sb index - sb.lastByteAckedSeqnum := by
  unfold indexToSeqnumSend SendBuffer.renumber
  dsimp only
  split
  · rw [UInt32.add_sub_cancel, UInt32.add_sub_cancel]
  · rw [UInt32.add_sub_cancel, UInt32.add_sub_cancel]

/-- Numbers at the same distance, from numbers that are carried, are carried if neither has
    wrapped around. -/
theorem Carried.of_sub_eq {p p' q q' : UInt32} (hp : Carried δ p p') (hsub : q' - p' = q - p)
    (hle : p ≤ q) (hle' : p' ≤ q') : Carried δ q q' := by
  have hsub := congrArg UInt32.toNat hsub
  rw [UInt32.le_iff_toNat_le] at hle hle'
  rw [UInt32.toNat_sub, UInt32.toNat_sub] at hsub
  unfold Carried at hp ⊢
  have := q.toNat_lt
  have := q'.toNat_lt
  omega

/-- They differ by the shift in any case. -/
theorem Carried.eq_add_of_sub_eq {p p' q q' : UInt32} (hisn : Carried δ isn (isn + k))
    (hp : Carried δ p p') (hsub : q' - p' = q - p) : q' = q + k := by
  have hp' := hisn.eq_add hp
  have hsum : q' = q - p + p' := by rw [← hsub, UInt32.sub_add_cancel]
  rw [hsum, hp', ← UInt32.add_assoc, UInt32.sub_add_cancel]

namespace SendBuffer.Moved

theorem of_renumber {q : UInt32} (hq : Carried δ sb.lastByteAckedSeqnum q) :
    sb.Moved δ (sb.renumber q) :=
  ⟨hq, rfl⟩

theorem nextWritten_sub (h : sb.Moved δ sb') :
    getNextByteWrittenSeqnum sb' - sb'.lastByteAckedSeqnum =
      getNextByteWrittenSeqnum sb - sb.lastByteAckedSeqnum := by
  have hsame := nextWritten_renumber sb sb'.lastByteAckedSeqnum
  rwa [← h.same] at hsame

theorem lastSent_sub (h : sb.Moved δ sb') :
    getLastByteSentSeqnum sb' - sb'.lastByteAckedSeqnum =
      getLastByteSentSeqnum sb - sb.lastByteAckedSeqnum := by
  have hsame := lastSent_renumber sb sb'.lastByteAckedSeqnum
  rwa [← h.same] at hsame

theorem maxWrite (h : sb.Moved δ sb') : sendBufferMaxWrite sb' = sendBufferMaxWrite sb := by
  unfold sendBufferMaxWrite
  rw [h.nextWritten_sub, h.same]
  rfl

theorem view (h : sb.Moved δ sb') (hisn : Carried δ isn (isn + k)) (dumped : RingCopy) :
    (sb.view dumped).Same k (sb'.view dumped) := by
  have hnext := hisn.eq_add_of_sub_eq h.acked h.nextWritten_sub
  have hsent := hisn.eq_add_of_sub_eq h.acked h.lastSent_sub
  have hdump : sendBufferMaxNewDump sb' = sendBufferMaxNewDump sb := by
    unfold sendBufferMaxNewDump
    rw [hnext, hsent]
    grind
  unfold SendView.Same SendBuffer.view getUnacknowledgedCount
  rw [h.maxWrite, hdump, h.lastSent_sub, hnext, hsent]

/-- `send_buffer_write` compares differences only. -/
theorem sendBufferWrite (h : sb.Moved δ sb') (data : List UInt8) (len : UInt32) :
    Agree (fun _ => True) (SendBuffer.Moved δ) (CmuTcp.sendBufferWrite sb data len)
      (CmuTcp.sendBufferWrite sb' data len) := by
  have hmax := h.maxWrite
  obtain ⟨hacked, hsame⟩ := h
  generalize sb'.lastByteAckedSeqnum = q at hacked hsame
  subst hsame
  unfold CmuTcp.sendBufferWrite
  rw [hmax]
  refine (Agree.refl (F := fun _ => True) ⟨fun _ _ => trivial⟩).bind fun _ _ _ => ?_
  by_cases hzero : len = 0
  · rw [if_pos hzero, if_pos hzero]
    exact .ok (.of_renumber hacked)
  · rw [if_neg hzero, if_neg hzero]
    have hcopy : safeMemcpyToSendbuf (sb.renumber q) len data = safeMemcpyToSendbuf sb len data :=
      rfl
    rw [hcopy]
    refine (Agree.refl (F := fun _ => True) ⟨fun _ _ => trivial⟩).bind fun buf _ hbuf => ?_
    subst hbuf
    exact .ok ⟨hacked, rfl⟩

/-- `send_buffer_dump` copies the same bytes and moves the same index, or its copy faults
    in both. -/
theorem sendBufferDump (h : sb.Moved δ sb') (beyond : ℕ → UInt8) {startIndex len : UInt32}
    (hclear : len = 0 ∨ sb.DumpNoWrap startIndex len ∧ sb'.DumpNoWrap startIndex len) :
    Agree (fun _ => True) (fun x y => y.2 = x.2 ∧ x.1.Moved δ y.1)
      (CmuTcp.sendBufferDump sb beyond startIndex len)
      (CmuTcp.sendBufferDump sb' beyond startIndex len) := by
  have hsub := h.lastSent_sub
  obtain ⟨hacked, hsame⟩ := h
  unfold CmuTcp.sendBufferDump
  by_cases hzero : len = 0
  · rw [if_pos hzero, if_pos hzero]
    exact .ok ⟨rfl, hacked, hsame⟩
  · obtain ⟨hfirst, hsecond⟩ := hclear.resolve_left hzero
    rw [if_neg hzero, if_neg hzero]
    -- the two numbers that decide are carried along
    have hsent := hacked.of_sub_eq hsub hfirst.sent hsecond.sent
    have hlow := hfirst.last
    have hlow' := hsecond.last
    have htempSub := indexToSeqnumSend_renumber sb sb'.lastByteAckedSeqnum
      ((startIndex + len - 1) % sb.capacity)
    have hcap : sb'.capacity = sb.capacity := by rw [hsame]; rfl
    rw [hcap] at hlow'
    rw [← hsame] at htempSub
    have htemp := hacked.of_sub_eq htempSub hlow hlow'
    have hgrow := hsent.le_iff htemp
    -- the copy looks at indices only
    have hcopy : CmuTcp.safeMemcpyFromSendbuf sb' beyond startIndex len =
        CmuTcp.safeMemcpyFromSendbuf sb beyond startIndex len := by
      rw [hsame]
      rfl
    rw [hcopy]
    refine (Agree.refl (F := fun _ => True) ⟨fun _ _ => trivial⟩).bind fun copy _ heq => ?_
    subst heq
    refine .ok ⟨rfl, ?_⟩
    unfold CmuTcp.dumpIndex
    simp only [hcap, ge_iff_le, ← hgrow]
    split
    · refine ⟨hacked, ?_⟩
      rw [hsame]
      rfl
    · exact ⟨hacked, hsame⟩

/-- `send_buffer_update_ack` takes both acks or neither. -/
theorem sendBufferUpdateAck (h : sb.Moved δ sb') {hdrAck hdrAck' : UInt32}
    (hclear : AcksStraight sb sb' hdrAck hdrAck') (now : Int) :
    Agree (fun _ => True) (SendBuffer.Moved δ) (CmuTcp.sendBufferUpdateAck sb hdrAck now)
      (CmuTcp.sendBufferUpdateAck sb' hdrAck' now) := by
  have hack : Carried δ (hdrAck - 1) (hdrAck' - 1) := by
    have hcarried := hclear.carried
    have hacked := h.acked
    unfold Carried at hacked ⊢
    omega
  -- the acks are new in both runs or in neither
  have hnew := h.acked.lt_iff hack
  unfold CmuTcp.sendBufferUpdateAck
  dsimp only
  -- a new ack: the asserts compare it with a window that does not wrap around
  by_cases hgt : sb.lastByteAckedSeqnum < hdrAck - 1
  · rw [if_pos hgt, if_pos (hnew.mp hgt)]
    obtain ⟨hw, hw'⟩ := hclear.window hgt
    have hcap : sb'.capacity = sb.capacity := by rw [h.same]; rfl
    have hwindow : Carried δ (sb.lastByteAckedSeqnum + sb.capacity)
        (sb'.lastByteAckedSeqnum + sb.capacity) := by
      apply h.acked.add hw
      rw [← hcap]
      exact hw'
    -- so the index that they let through is the same
    have hindex : CmuTcp.seqnumToIndexSend sb' (hdrAck' - 1) =
        CmuTcp.seqnumToIndexSend sb (hdrAck - 1) := by
      have hindex₀ : sb'.lastByteAckedIndex = sb.lastByteAckedIndex := by rw [h.same]; rfl
      unfold CmuTcp.seqnumToIndexSend
      simp only [hcap, hindex₀, hack.sub_eq h.acked, ge_iff_le, ← h.acked.le_iff hack,
        ← hack.lt_iff hwindow]
    rw [hindex]
    refine (Agree.refl (F := fun _ => True) ⟨fun _ _ => trivial⟩).bind fun idx _ hidx => ?_
    subst hidx
    refine .ok ⟨hack, ?_⟩
    rw [h.same]
    rfl
  -- an old ack changes nothing
  · rw [if_neg hgt, if_neg (mt hnew.mpr hgt)]
    exact .ok h

end SendBuffer.Moved

/-- One call, in both runs. -/
theorem SendOp.run_shift (hisn : Carried δ isn (isn + k)) (h : sb.Moved δ sb') (op : SendOp)
    (hclear : op.Clear k sb sb') :
    Agree (fun _ => True) (fun x y => x.1.Same k y.1 ∧ x.2.Moved δ y.2) (op.run sb)
      ((op.shift k).run sb') := by
  cases op with
  | write data len =>
    exact (h.sendBufferWrite data len).map fun r r' hr => ⟨hr.view hisn _, hr⟩
  | dump beyond startIndex len =>
    refine (h.sendBufferDump beyond hclear).map ?_
    rintro ⟨r, copy⟩ ⟨r', _⟩ ⟨rfl, hr⟩
    exact ⟨hr.view hisn _, hr⟩
  | updateAck hdrAck now =>
    exact (h.sendBufferUpdateAck hclear now).map fun r r' hr => ⟨hr.view hisn _, hr⟩

end Send

/-! ## Main result -/

/-- The condition of a run of the receive ring: the ISNs and the segments keep away from the
    greatest sequence number, in both runs. -/
structure RecvClear (isn k : UInt32) (ops : List RecvOp) : Prop where
  first : isn.toNat + 1 < 2 ^ 32
  second : (isn + k).toNat + 1 < 2 ^ 32
  segments : ∀ op ∈ ops, op.Clear isn k

/-- Both runs of the receive ring answer alike, call by call, or fail at the same call. -/
def RecvAlike (k : UInt32) (rb rb' : RecvBuffer) (ops : List RecvOp) : Prop :=
  List.Forall₂ (Agree (fun _ => True) (RecvView.Same k)) (trace RecvOp.run rb ops)
    (trace RecvOp.run rb' (ops.map (RecvOp.shift k)))

def SendAlike (k : UInt32) (sb sb' : SendBuffer) (ops : List SendOp) : Prop :=
  List.Forall₂ (Agree (fun _ => True) (SendView.Same k)) (trace SendOp.run sb ops)
    (trace SendOp.run sb' (ops.map (SendOp.shift k)))

/-- **When a shift of the sequence numbers is invisible**: for every list of calls of the
    receive ring, and every list of calls of the send ring, if no number that the calls
    compare gets to the other side of the greatest one in one of the two runs. -/
theorem shift_invisible {isn k capacity : UInt32} (hcap : 2 ≤ capacity.toNat)
    (hcap' : capacity.toNat ≤ 2 ^ 31) (mem : Garbage) (fresh : Ptr → Segment) (now : Int)
    {rb rb' : RecvBuffer} {sb sb' : SendBuffer}
    (hrb : recvBufferInitialize (recvBufferCreate capacity mem fresh) isn = .ok rb)
    (hrb' : recvBufferInitialize (recvBufferCreate capacity mem fresh) (isn + k) = .ok rb')
    (hsb : sendBufferInitialize (sendBufferCreate capacity mem) isn now = .ok sb)
    (hsb' : sendBufferInitialize (sendBufferCreate capacity mem) (isn + k) now = .ok sb') :
    (∀ ops, RecvClear isn k ops → RecvAlike k rb rb' ops) ∧
    ∀ ops, Meets SendOp.run (SendOp.shift k) (SendOp.Clear k) sb sb' ops →
      SendAlike k sb sb' ops := by
  -- the ISNs are carried by the shift
  have hisn : Carried ((isn + k).toNat - isn.toNat) isn (isn + k) := by
    unfold Carried
    omega
  constructor
  -- the receive ring: two buffers in lockstep, from their initialization on
  · intro ops hclear
    have hinit := RecvBuffer.Shifted.of_initialize hcap hcap' mem fresh hisn hclear.first
      hclear.second hrb hrb'
    exact trace_agree (I := RecvBuffer.Shifted ((isn + k).toNat - isn.toNat))
      (fun s t op hst hop => RecvOp.run_shift hisn hst op hop) hinit
      (meets_of_forall hclear.segments rb rb')
  -- the send ring: the second buffer is the first one renumbered
  · intro ops hclear
    obtain rfl := Except.ok.inj hsb
    obtain rfl := Except.ok.inj hsb'
    exact trace_agree (I := SendBuffer.Moved ((isn + k).toNat - isn.toNat))
      (fun s t op hst hop => SendOp.run_shift hisn hst op hop) ⟨hisn, rfl⟩ hclear

/-- Rings of four cells for concrete runs. -/
def smallRecv (isn : UInt32) : Except Fault RecvBuffer :=
  recvBufferInitialize (recvBufferCreate 4 (SocketEnv.zeroed isn).recvMem
    (SocketEnv.zeroed isn).freshSegment) isn

def smallSend (isn : UInt32) : Except Fault SendBuffer :=
  sendBufferInitialize (sendBufferCreate 4 (SocketEnv.zeroed isn).sendMem) isn 0

/-- Two segments and a read, and a write, a dump and an ack, from the ISNs `100` and
    `5100`. -/
theorem shift_invisible_small : ∃ rb rb' sb sb', smallRecv 100 = .ok rb ∧
    smallRecv 5100 = .ok rb' ∧ smallSend 100 = .ok sb ∧ smallSend 5100 = .ok sb' ∧
    RecvAlike 5000 rb rb' [.receive 102 1 [8], .receive 101 2 [7, 8], .read 2] ∧
    SendAlike 5000 sb sb' [.write [7, 8] 2, .dump (fun _ => 0) 1 2, .updateAck 102 0] := by
  refine ⟨_, _, _, _, rfl, rfl, rfl, rfl, ?_⟩
  have hboth := shift_invisible (k := 5000) (show 2 ≤ (4 : UInt32).toNat by decide) (by decide)
    (SocketEnv.zeroed 100).recvMem (SocketEnv.zeroed 100).freshSegment 0 (rfl : smallRecv 100 = _)
    (rfl : smallRecv 5100 = _) (rfl : smallSend 100 = _) (rfl : smallSend 5100 = _)
  refine ⟨hboth.1 _ ⟨by decide, by decide, ?_⟩, hboth.2 _ ?_⟩
  · simp only [List.mem_cons, List.not_mem_nil, or_false, forall_eq_or_imp, forall_eq]
    exact ⟨show RecvOp.Clear.Fits 100 5000 102 1 by decide,
      show RecvOp.Clear.Fits 100 5000 101 2 by decide, trivial⟩
  · refine ⟨trivial, ?_⟩
    rintro _ _ _ _ ⟨⟩ ⟨⟩
    refine ⟨Or.inr ⟨⟨by decide, by decide⟩, by decide, by decide⟩, ?_⟩
    rintro _ _ _ _ ⟨⟩ ⟨⟩
    refine ⟨⟨by decide, fun _ => ⟨by decide, by decide⟩⟩, ?_⟩
    rintro _ _ _ _ ⟨⟩ ⟨⟩
    trivial

/-- The segment `101` after the ISN `100` is received; shifted so that it has the greatest
    sequence number, it makes an assert fail. -/
theorem shift_visible : ∃ rb rb', smallRecv 100 = .ok rb ∧
    smallRecv (100 + 4294967194) = .ok rb' ∧
    trace RecvOp.run rb [.receive 101 1 [7]] = [.ok ⟨some 0, [], 1, 2, 102⟩] ∧
    trace RecvOp.run rb' [.receive (101 + 4294967194) 1 [7]] =
      [.error (.assertion .seqnumToIndexRecv)] ∧
    ¬ RecvAlike 4294967194 rb rb' [.receive 101 1 [7]] := by
  refine ⟨_, _, rfl, rfl, rfl, rfl, fun halike => ?_⟩
  cases halike with
  | cons hfirst _ => cases hfirst

end CmuTcp
