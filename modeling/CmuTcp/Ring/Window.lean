import CmuTcp.Ring.RecvRuns

/-!
# The Window of the Receive Ring

Runs of arbitrary segments, not cut from one stream, that pass the guards of
`handle_message`, and of reads.

1. `window_honest`: the three functions that count the free space agree, the window that
   is advertised is exactly what would be received, and its right edge never moves back.
2. `refusal_iff`: a segment is refused as a duplicate although it brings the next byte
   expected exactly if it starts among the bytes that are read.

The bytes do not matter here, so a call is a move of the positions alone
(`Reassembly.Moves`): a segment is accepted, or some positions are read.  The right edge is
one capacity after what is read, and only a read moves that.
-/

namespace CmuTcp

open FaultSystem (System Run)
open LinkedHeap (Ptr)

/-! ## Calls -/

inductive RecvCall where
  -- behind the two guards of `handle_message`
  | receive (seqnum len : UInt32) (data : List UInt8)
  | read (len : UInt32)
  deriving DecidableEq

/-- The sequence number after the segment is not wrapped around. -/
def RecvCall.NoWrap : RecvCall → Prop
  | .receive seqnum len _ => seqnum.toNat + len.toNat < 2 ^ 32
  | .read _ => True

instance RecvCall.decidableNoWrap (c : RecvCall) : Decidable c.NoWrap :=
  match c with
  | .receive _ _ _ => inferInstanceAs (Decidable (_ < _))
  | .read _ => inferInstanceAs (Decidable True)

/-- One call; `data` is what lies at the payload pointer, at least `len` bytes. -/
def RecvBuffer.call (rb : RecvBuffer) : RecvCall → Option (Except Fault RecvBuffer)
  | .receive seqnum len data =>
    if 0 < len.toNat ∧ recvBufferCanReceive rb seqnum len = 0 ∧ len.toNat ≤ data.length then
      some (recvBufferReceive rb seqnum len data)
    else none
  | .read len =>
    if len ≤ recvBufferMaxRead rb then some ((recvBufferRead rb len).map Prod.snd) else none

/-- Runs start with a buffer just created and initialized with the peer's ISN. -/
def recvCalls (capacity : UInt32) (mem : Garbage) (fresh : Ptr → Segment) (isn : UInt32) :
    System RecvBuffer RecvCall Fault where
  init rb := recvBufferInitialize (recvBufferCreate capacity mem fresh) isn = .ok rb
  step := RecvBuffer.call

/-! ## What a call does to the positions -/

/-- A segment is accepted, or a part of the in-order positions is read. -/
inductive Reassembly.Moves (r : Reassembly) : Reassembly → Prop
  | accept {a b : ℕ} (h : r.Accepts a b) : r.Moves (r.accept a b h)
  | consume {n : ℕ} (h : r.read + n < r.next) : r.Moves (r.consume n h)

namespace Reassembly.Moves

variable {r r' : Reassembly}

theorem capacity (h : r.Moves r') : r'.capacity = r.capacity := by
  cases h with
  | accept hacc => exact Reassembly.accept_capacity hacc
  | consume _ => rfl

theorem read_le (h : r.Moves r') : r.read ≤ r'.read := by
  cases h with
  | accept hacc => exact le_of_eq (Reassembly.accept_read hacc).symm
  | consume _ => exact Nat.le_add_right _ _

theorem next_le (h : r.Moves r') : r.next ≤ r'.next := by
  cases h with
  | accept hacc => exact Reassembly.next_le_accept hacc
  | consume _ => exact le_refl _

end Reassembly.Moves

namespace RecvBuffer.Refines

variable {rb : RecvBuffer} {isn : ℕ} {r : Reassembly}

/-- No call faults, and the buffer moves like its positions. -/
theorem call (h : rb.Refines isn r) {c : RecvCall} (hwrap : c.NoWrap)
    {e : Except Fault RecvBuffer} (hcall : rb.call c = some e) :
    ∃ rb' r', e = .ok rb' ∧ rb'.Refines isn r' ∧ r.Moves r' := by
  cases c with
  | receive seqnum len data =>
    rw [RecvBuffer.call] at hcall
    by_cases hguard : 0 < len.toNat ∧ CmuTcp.recvBufferCanReceive rb seqnum len = 0 ∧
        len.toNat ≤ data.length
    · rw [if_pos hguard] at hcall
      obtain ⟨hpos, hcan, hdata⟩ := hguard
      -- an accepted segment starts after the ISN
      have hlow := (recvBufferCanReceive_eq_zero_iff.mp hcan).1
      rw [UInt32.lt_iff_toNat_lt, h.readSeqnum] at hlow
      obtain ⟨a, hseq⟩ := Nat.exists_eq_add_of_le (show isn ≤ seqnum.toNat by omega)
      have hlt : isn + a + len.toNat < 2 ^ 32 := hseq ▸ hwrap
      have hacc := (h.canReceive_iff hseq hpos (Nat.le_of_lt hlt)).mp hcan
      obtain ⟨rb', hreceive, href, _⟩ := h.recvBufferReceive hseq hpos hlt hacc hdata
      rw [hreceive] at hcall
      exact ⟨rb', _, (Option.some.inj hcall).symm, href, .accept hacc⟩
    · rw [if_neg hguard] at hcall
      cases hcall
  | read len =>
    rw [RecvBuffer.call] at hcall
    by_cases hlen : len ≤ CmuTcp.recvBufferMaxRead rb
    · rw [if_pos hlen] at hcall
      rw [UInt32.le_iff_toNat_le, h.recvBufferMaxRead] at hlen
      have hlt := r.read_lt_next
      have hn : r.read + len.toNat < r.next := by omega
      obtain ⟨rb', hread, href, _⟩ := h.recvBufferRead hn
      rw [hread] at hcall
      exact ⟨rb', _, (Option.some.inj hcall).symm, href, .consume hn⟩
    · rw [if_neg hlen] at hcall
      cases hcall

/-- The right edge of the window lies one capacity after what is read. -/
theorem edge (h : rb.Refines isn r) :
    (CmuTcp.getNextByteExpectedSeqnum rb).toNat + (CmuTcp.recvBufferMaxReceive rb).toNat =
      isn + r.read + r.capacity := by
  have hle := r.next_le
  rw [h.getNextByteExpectedSeqnum, h.recvBufferMaxReceive]
  omega

/-- A segment after what is read is received if and only if its last byte lies in the
    window. -/
theorem canReceive_iff_edge (h : rb.Refines isn r) {seqnum len : UInt32}
    (hlow : rb.lastByteReadSeqnum < seqnum) (hlen : 0 < len.toNat)
    (hlt : seqnum.toNat + len.toNat < 2 ^ 32) :
    CmuTcp.recvBufferCanReceive rb seqnum len = 0 ↔
      (CmuTcp.getNextByteExpectedSeqnum rb).toNat ≤ seqnum.toNat + len.toNat - 1 ∧
      seqnum.toNat + len.toNat - 1 <
        (CmuTcp.getNextByteExpectedSeqnum rb).toNat +
          (CmuTcp.recvBufferMaxReceive rb).toNat := by
  rw [UInt32.lt_iff_toNat_lt, h.readSeqnum] at hlow
  obtain ⟨a, hseq⟩ := Nat.exists_eq_add_of_le (show isn ≤ seqnum.toNat by omega)
  rw [h.canReceive_iff hseq hlen (Nat.le_of_lt (hseq ▸ hlt)), h.edge,
    h.getNextByteExpectedSeqnum, hseq]
  constructor
  · intro hacc
    have hle := hacc.next_le
    have hlast := hacc.lt
    omega
  · rintro ⟨hle, hlast⟩
    exact ⟨by omega, by omega, by omega, by omega⟩

/-- No call faults, and none moves the next byte expected or the right edge of the window
    back. -/
theorem call_advances (h : rb.Refines isn r) {c : RecvCall} (hwrap : c.NoWrap)
    {e : Except Fault RecvBuffer} (hcall : rb.call c = some e) :
    ∃ rb', e = .ok rb' ∧
      (CmuTcp.getNextByteExpectedSeqnum rb).toNat ≤
        (CmuTcp.getNextByteExpectedSeqnum rb').toNat ∧
      (CmuTcp.getNextByteExpectedSeqnum rb).toNat + (CmuTcp.recvBufferMaxReceive rb).toNat ≤
        (CmuTcp.getNextByteExpectedSeqnum rb').toNat +
          (CmuTcp.recvBufferMaxReceive rb').toNat := by
  obtain ⟨rb', r', rfl, h', hmoves⟩ := h.call hwrap hcall
  refine ⟨rb', rfl, ?_, ?_⟩
  · rw [h.getNextByteExpectedSeqnum, h'.getNextByteExpectedSeqnum]
    exact Nat.add_le_add_left hmoves.next_le isn
  · -- the edge follows what is read
    have hread := hmoves.read_le
    rw [h.edge, h'.edge, hmoves.capacity]
    omega

end RecvBuffer.Refines

section Runs

variable {capacity : UInt32} {mem : Garbage} {fresh : Ptr → Segment} {isn : UInt32}

theorem recvCalls_refines (hcap : 2 ≤ capacity.toNat)
    (hnull : ∀ p, (fresh p).prev = none ∧ (fresh p).next = none)
    (hisn : isn.toNat + 1 < 2 ^ 32) {tr : List (RecvBuffer × RecvCall)} {rb : RecvBuffer}
    (h : Run (recvCalls capacity mem fresh isn) (fun _ => True) tr rb)
    (hwrap : ∀ p ∈ tr, p.2.NoWrap) :
    ∃ r, rb.Refines isn.toNat r ∧ r.capacity = capacity.toNat := by
  refine h.invariant_of_steps (C := fun _ c => c.NoWrap)
    (I := fun rb => ∃ r, rb.Refines isn.toNat r ∧ r.capacity = capacity.toNat) ?_ ?_ hwrap
  · intro rb hinit _
    obtain ⟨rb', hrb', href⟩ := recv_refines_initialize capacity mem fresh isn hcap hnull hisn
    obtain rfl := Except.ok.inj (hinit.symm.trans hrb')
    exact ⟨_, href, rfl⟩
  · rintro rb c rb' ⟨r, href, hr⟩ _ _ hc hstep
    obtain ⟨t, r', ht, href', hmoves⟩ := href.call hc hstep
    obtain rfl := Except.ok.inj ht
    exact ⟨r', href', hmoves.capacity.trans hr⟩

/-- **The advertised window**: the space is counted alike in bytes to read, bytes to
    receive and the distance of the two ends of the in-order part; a segment of new bytes is
    received if and only if its last byte lies in the window; what is held lies in the window;
    and no call faults or moves the next byte expected or the right edge back. -/
theorem window_honest (hcap : 2 ≤ capacity.toNat)
    (hnull : ∀ p, (fresh p).prev = none ∧ (fresh p).next = none)
    (hisn : isn.toNat + 1 < 2 ^ 32) {tr : List (RecvBuffer × RecvCall)} {rb : RecvBuffer}
    (h : Run (recvCalls capacity mem fresh isn) (fun _ => True) tr rb)
    (hwrap : ∀ p ∈ tr, p.2.NoWrap) :
    rb.lastByteReadSeqnum.toNat + 1 ≤ (getNextByteExpectedSeqnum rb).toNat ∧
    (getNextByteExpectedSeqnum rb).toNat ≤ rb.lastByteReadSeqnum.toNat + capacity.toNat ∧
    (recvBufferMaxRead rb).toNat + (recvBufferMaxReceive rb).toNat = capacity.toNat - 1 ∧
    (∀ seqnum len : UInt32, rb.lastByteReadSeqnum < seqnum → 1 ≤ len.toNat →
      seqnum.toNat + len.toNat < 2 ^ 32 →
      (recvBufferCanReceive rb seqnum len = 0 ↔
        (getNextByteExpectedSeqnum rb).toNat ≤ seqnum.toNat + len.toNat - 1 ∧
        seqnum.toNat + len.toNat - 1 <
          (getNextByteExpectedSeqnum rb).toNat + (recvBufferMaxReceive rb).toNat)) ∧
    (∀ v ∈ segmentList rb,
      (getNextByteExpectedSeqnum rb).toNat ≤ v.startSeqnumInclusive.toNat ∧
      v.startSeqnumInclusive ≤ v.endSeqnumInclusive ∧
      v.endSeqnumInclusive.toNat <
        (getNextByteExpectedSeqnum rb).toNat + (recvBufferMaxReceive rb).toNat) ∧
    ∀ c e, c.NoWrap → rb.call c = some e → ∃ rb', e = .ok rb' ∧
      (getNextByteExpectedSeqnum rb).toNat ≤ (getNextByteExpectedSeqnum rb').toNat ∧
      (getNextByteExpectedSeqnum rb).toNat + (recvBufferMaxReceive rb).toNat ≤
        (getNextByteExpectedSeqnum rb').toNat + (recvBufferMaxReceive rb').toNat := by
  obtain ⟨r, href, hr⟩ := recvCalls_refines hcap hnull hisn h hwrap
  have hread := r.read_lt_next
  have hnext := r.next_le
  -- each part is a fact about the positions that the buffer refines
  refine ⟨?_, ?_, ?_, ?_, ?_, ?_⟩
  · rw [href.readSeqnum, href.getNextByteExpectedSeqnum]
    omega
  · rw [href.readSeqnum, href.getNextByteExpectedSeqnum, ← hr]
    omega
  · rw [href.recvBufferMaxRead, href.recvBufferMaxReceive, ← hr]
    omega
  · intro seqnum len hlow hlen hlt
    exact href.canReceive_iff_edge hlow hlen hlt
  · -- what is held is sorted between the next byte expected and the edge
    intro v hv
    obtain ⟨hmem, hstart, hend⟩ := toNat_of_mem_segmentList href hv
    have hle := r.next_le_held _ hmem
    have hlast := r.held_lt _ hmem
    have hrange := r.sorted.nonempty _ hmem
    rw [UInt32.le_iff_toNat_le, href.edge, href.getNextByteExpectedSeqnum, hstart, hend]
    omega
  · intro c e hc hcall
    exact href.call_advances hc hcall

end Runs

/-- A concrete system: zeroed memory, the ISN `100` and a ring of four cells. -/
def smallRecvCalls : System RecvBuffer RecvCall Fault :=
  recvCalls 4 (SocketEnv.zeroed 100).recvMem (SocketEnv.zeroed 100).freshSegment 100

/-- A gap, its filling and a read: the window has moved on by what is read. -/
theorem window_honest_gap :
    ∃ tr rb, Run smallRecvCalls (fun _ => True) tr rb ∧
      (recvBufferMaxRead rb).toNat + (recvBufferMaxReceive rb).toNat = 3 ∧
      (recvBufferCanReceive rb 103 2 = 0 ↔
        (getNextByteExpectedSeqnum rb).toNat ≤ 104 ∧
        104 < (getNextByteExpectedSeqnum rb).toNat + (recvBufferMaxReceive rb).toNat) := by
  have hinit : Run smallRecvCalls (fun _ => True) [] _ := .init rfl trivial
  have hrun := hinit.exec
    ([.receive 102 1 [8], .receive 101 2 [7, 8], .read 1] : List RecvCall) rfl
  have hhonest := window_honest (by decide) (fun _ => ⟨rfl, rfl⟩) (by decide) hrun (by decide)
  obtain ⟨_, _, hsum, hiff, _⟩ := hhonest
  exact ⟨_, _, hrun, hsum, hiff 103 2 (by decide) (by decide) (by decide)⟩

/-! ## Duplicates -/

/-- A refusal as duplicate, code `2` or `3`, means that the segment has nothing new; and a
    segment that starts at or before the next byte expected, be it among the bytes that are
    read, brings that byte and ends in the window, is received and acknowledged as a whole. -/
structure RecvBuffer.RefusesOldOnly (rb : RecvBuffer) (seqnum len : UInt32) : Prop where
  old : recvBufferCanReceive rb seqnum len = 2 ∨ recvBufferCanReceive rb seqnum len = 3 →
    ∀ i < len.toNat, seqnum.toNat + i < (getNextByteExpectedSeqnum rb).toNat
  advances : seqnum ≤ getNextByteExpectedSeqnum rb →
    (getNextByteExpectedSeqnum rb).toNat ≤ seqnum.toNat + len.toNat - 1 →
    seqnum.toNat + len.toNat - 1 <
      (getNextByteExpectedSeqnum rb).toNat + (recvBufferMaxReceive rb).toNat →
    recvBufferCanReceive rb seqnum len = 0 ∧
    ∀ data : List UInt8, len.toNat ≤ data.length →
      ∃ rb', recvBufferReceive rb seqnum len data = .ok rb' ∧
        seqnum.toNat + len.toNat - 1 < (getNextByteExpectedSeqnum rb').toNat

section Duplicates

variable {rb : RecvBuffer} {isn : ℕ} {r : Reassembly} {seqnum len : UInt32}

/-- A segment that starts among the bytes read is refused, whatever else it brings. -/
theorem recvBufferCanReceive_of_le (hlow : seqnum ≤ rb.lastByteReadSeqnum) :
    recvBufferCanReceive rb seqnum len = 2 :=
  if_pos hlow

/-- After what is read, only the segments that end before the next byte expected are
    refused as duplicates. -/
theorem RecvBuffer.Refines.refusesOldOnly (h : rb.Refines isn r)
    (hlow : rb.lastByteReadSeqnum < seqnum) (hpos : 0 < len.toNat)
    (hlt : seqnum.toNat + len.toNat < 2 ^ 32) : rb.RefusesOldOnly seqnum len := by
  have hread := r.read_lt_next
  have hedge := h.edge
  rw [UInt32.lt_iff_toNat_lt, h.readSeqnum] at hlow
  obtain ⟨a, hseq⟩ := Nat.exists_eq_add_of_le (show isn ≤ seqnum.toNat by omega)
  -- `isn + a` is the first byte of the segment
  have hcan := h.recvBufferCanReceive hseq hpos (by omega)
  constructor
  -- a code of `2` means that the last byte is behind the next one expected
  · intro hcode i hi
    rw [hcan, if_neg (by omega)] at hcode
    rw [h.getNextByteExpectedSeqnum]
    by_cases hold : a + len.toNat - 1 < r.next
    · omega
    · -- the remaining answers are `1` and `0`
      rw [if_neg hold] at hcode
      split at hcode
      · exact absurd hcode (by decide)
      · exact absurd hcode (by decide)
  -- a segment that ends beyond the next byte and inside the window is taken
  · intro hle hnext hlast
    rw [UInt32.le_iff_toNat_le, h.getNextByteExpectedSeqnum] at hle
    rw [hedge] at hlast
    rw [h.getNextByteExpectedSeqnum] at hnext
    have hacc : r.Accepts a (a + len.toNat - 1) := ⟨by omega, by omega, by omega, by omega⟩
    refine ⟨(h.canReceive_iff hseq hpos (by omega)).mpr hacc, fun data hdata => ?_⟩
    obtain ⟨rb', hreceive, href, _⟩ := h.recvBufferReceive hseq hpos (by omega) hacc hdata
    have hahead := Reassembly.lt_accept_next hacc (by omega)
    refine ⟨rb', hreceive, ?_⟩
    rw [href.getNextByteExpectedSeqnum]
    omega

end Duplicates

section Runs

variable {capacity : UInt32} {mem : Garbage} {fresh : Ptr → Segment} {isn : UInt32}

/-- **A refusal as duplicate** means nothing new exactly for the segments that do not both
    start among the bytes read and reach the next byte expected. -/
theorem refusal_iff (hcap : 2 ≤ capacity.toNat)
    (hnull : ∀ p, (fresh p).prev = none ∧ (fresh p).next = none)
    (hisn : isn.toNat + 1 < 2 ^ 32) {tr : List (RecvBuffer × RecvCall)} {rb : RecvBuffer}
    (h : Run (recvCalls capacity mem fresh isn) (fun _ => True) tr rb)
    (hwrap : ∀ p ∈ tr, p.2.NoWrap) {seqnum len : UInt32} (hpos : 0 < len.toNat)
    (hlt : seqnum.toNat + len.toNat < 2 ^ 32) :
    rb.RefusesOldOnly seqnum len ↔ ¬ (seqnum ≤ rb.lastByteReadSeqnum ∧
      (getNextByteExpectedSeqnum rb).toNat ≤ seqnum.toNat + len.toNat - 1) := by
  obtain ⟨r, href, _⟩ := recvCalls_refines hcap hnull hisn h hwrap
  constructor
  · rintro hold ⟨hlow, hnew⟩
    have hlast := hold.old (Or.inl (recvBufferCanReceive_of_le hlow)) (len.toNat - 1) (by omega)
    omega
  · intro hcond
    by_cases hlow : seqnum ≤ rb.lastByteReadSeqnum
    · -- all of it lies before the next byte expected
      have hbefore : seqnum.toNat + len.toNat - 1 < (getNextByteExpectedSeqnum rb).toNat :=
        Nat.lt_of_not_le fun hnew => hcond ⟨hlow, hnew⟩
      constructor
      · intro _ i hi
        omega
      · intro _ hnew _
        omega
    · exact href.refusesOldOnly (UInt32.not_le.mp hlow) hpos hlt

end Runs

/-- Two bytes are received and the first is read: a segment that starts with the second one
    and brings a third is received. -/
theorem refusal_iff_unread :
    ∃ tr rb, Run smallRecvCalls (fun _ => True) tr rb ∧ rb.RefusesOldOnly 102 2 := by
  have hinit : Run smallRecvCalls (fun _ => True) [] _ := .init rfl trivial
  have hrun := hinit.exec ([.receive 101 2 [7, 8], .read 1] : List RecvCall) rfl
  have hiff := refusal_iff (by decide) (fun _ => ⟨rfl, rfl⟩) (by decide) hrun (by decide)
    (show 0 < (2 : UInt32).toNat by decide)
    (show (102 : UInt32).toNat + (2 : UInt32).toNat < 2 ^ 32 by decide)
  exact ⟨_, _, hrun, hiff.mpr (by decide)⟩

/-- The same bytes sent again from the first one on, with the next one: refused as already
    read, although the segment brings the next byte expected and ends in the window. -/
theorem refused_with_new_byte :
    ∃ tr rb, Run smallRecvCalls (fun _ => True) tr rb ∧ (∀ p ∈ tr, p.2.NoWrap) ∧
      recvBufferCanReceive rb 101 3 = 2 ∧ getNextByteExpectedSeqnum rb = 103 ∧
      recvBufferMaxReceive rb = 2 ∧ ¬ rb.RefusesOldOnly 101 3 := by
  have hinit : Run smallRecvCalls (fun _ => True) [] _ := .init rfl trivial
  have hrun := hinit.exec ([.receive 101 2 [7, 8], .read 1] : List RecvCall) rfl
  refine ⟨_, _, hrun, by decide, rfl, rfl, rfl, fun hold => ?_⟩
  have hlast := hold.old (Or.inl rfl) 2 (by decide)
  exact absurd hlast (by decide)

end CmuTcp
