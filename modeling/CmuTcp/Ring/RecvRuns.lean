import Mathlib.Order.Bounds.Basic
import CmuTcp.Library.FaultSystem
import CmuTcp.Ring.Recv

/-!
# Runs of the Receive Ring

The receive side of one socket on its own: segments of one byte stream arrive in any
order, with any overlap and repetition, and go to `recv_buffer_receive` through the guard
of `handle_message`; in between the application reads.

1. `reassembly_sound`: what has been read and what is readable is a prefix of the stream,
   up to the next byte expected, and nothing faults.
2. `ack_maximal_iff`: the next byte expected is the first one that no accepted segment
   covers exactly as long as no segment arrives that touches a held one without meeting it.

The first is read off the invariant, which has the cells of what has arrived.  For the
second, the next byte expected is maximal as long as nothing is held right at it
(`ackMaximal_iff`), and a step puts something there exactly if the segment touches a held one
from below without meeting it.
-/

namespace CmuTcp

open FaultSystem (System Run visited)
open CircularBuffer IntervalList
open LinkedHeap (Ptr)

/-- A receive buffer, the sequence numbers of the first and last byte of each segment it
    has accepted, and the bytes read out of it. -/
structure RecvRun where
  rb : RecvBuffer
  accepted : List (ℕ × ℕ)
  delivered : List UInt8

inductive RecvLabel where
  -- the `len` bytes of the stream from offset `off` on arrive
  | arrive (off len : ℕ)
  | read (len : UInt32)
  deriving DecidableEq

/-- The sequence number of the byte at offset `off` of a stream. -/
def streamSeqnum (isn : UInt32) (off : ℕ) : UInt32 := (isn.toNat + 1 + off).toUInt32

def RecvRun.step (isn : UInt32) (S : List UInt8) (s : RecvRun) :
    RecvLabel → Option (Except Fault RecvRun)
  | .arrive off len =>
    if 0 < len ∧ off + len ≤ S.length then some do
      let seqnum := streamSeqnum isn off
      let rb ← receivePayload s.rb seqnum len.toUInt32 (slice S off len)
      let accepted := if recvBufferCanReceive s.rb seqnum len.toUInt32 = 0
        then s.accepted ++ [(seqnum.toNat, seqnum.toNat + len - 1)] else s.accepted
      return { s with rb := rb, accepted := accepted }
    else none
  | .read len =>
    if len ≤ recvBufferMaxRead s.rb then some do
      let (data, rb) ← recvBufferRead s.rb len
      return { s with rb := rb, delivered := s.delivered ++ data }
    else none

/-- Runs start with a buffer just created and initialized with the peer's ISN. -/
def recvSystem (capacity : UInt32) (mem : Garbage) (fresh : Ptr → Segment) (isn : UInt32)
    (S : List UInt8) : System RecvRun RecvLabel Fault where
  init s := ∃ rb, recvBufferInitialize (recvBufferCreate capacity mem fresh) isn = .ok rb ∧
    s = ⟨rb, [], []⟩
  step := RecvRun.step isn S

/-- The `recv_buffer_max_read` bytes after the last byte read, taken circularly. -/
def readableBytes (rb : RecvBuffer) : List UInt8 :=
  (List.range (recvBufferMaxRead rb).toNat).map fun i =>
    rb.buffer.getD ((rb.lastByteReadIndex.toNat + 1 + i) % rb.capacity.toNat) 0

/-- The out-of-order list, from `start` on. -/
def segmentList (rb : RecvBuffer) : List SegmentRange :=
  LinkedHeap.valuesFrom rb.heap rb.heap.size rb.start

/-! ## The invariant -/

/-- The buffer refines a reassembly of the stream, which has received what was accepted. -/
structure RecvRun.Invariant (isn capacity : UInt32) (S : List UInt8) (s : RecvRun)
    (r : Reassembly) : Prop where
  refines : s.rb.Refines isn.toNat r
  capacity : r.capacity = capacity.toNat
  holds : s.rb.Holds r (fromOne S)
  delivered : s.delivered = S.take r.read
  within : r.Within S.length
  accepted : ∀ q, isn.toNat < q → (Covers s.accepted q ↔ r.Received (q - isn.toNat))

section Steps

variable {isn capacity : UInt32} {S : List UInt8} {s : RecvRun} {r : Reassembly}

/-- What an arriving segment looks like to the buffer. -/
theorem arrive_args (hwrap : isn.toNat + S.length + 1 < 2 ^ 32) {off len : ℕ}
    (hlen : 0 < len) (hend : off + len ≤ S.length) :
    (streamSeqnum isn off).toNat = isn.toNat + (off + 1) ∧ len.toUInt32.toNat = len ∧
      (slice S off len).take len = slice S off len ∧ (slice S off len).length = len ∧
      IsSlice (fromOne S) (off + 1) (slice S off len) := by
  have hlength : (slice S off len).length = len := length_slice hend
  refine ⟨?_, UInt32.toNat_ofNat_of_lt' (show len < 2 ^ 32 by omega), ?_, hlength, ?_⟩
  · rw [streamSeqnum, Nat.toUInt32, UInt32.toNat_ofNat_of_lt'
      (show isn.toNat + 1 + off < 2 ^ 32 by omega)]
    omega
  · rw [List.take_of_length_le (le_of_eq hlength)]
  · intro j hj
    rw [hlength] at hj
    rw [getElem?_slice S off hj, show off + 1 + j = (off + j) + 1 by omega, fromOne_succ]

/-- An arriving segment is accepted, or changes nothing. -/
theorem RecvRun.Invariant.arrive (h : s.Invariant isn capacity S r)
    (hwrap : isn.toNat + S.length + 1 < 2 ^ 32) {off len : ℕ} (hlen : 0 < len)
    (hend : off + len ≤ S.length) :
    ∃ s', s.step isn S (.arrive off len) = some (.ok s') ∧
      ((∃ hacc : r.Accepts (off + 1) (off + len),
          recvBufferCanReceive s.rb (streamSeqnum isn off) len.toUInt32 = 0 ∧
          s'.Invariant isn capacity S (r.accept (off + 1) (off + len) hacc)) ∨
        (recvBufferCanReceive s.rb (streamSeqnum isn off) len.toUInt32 ≠ 0 ∧ s' = s)) := by
  obtain ⟨hseq, hlen', htake, hlength, hslice⟩ := arrive_args hwrap hlen hend
  have hlast : off + 1 + len - 1 = off + len := by omega
  have hpos : 0 < len.toUInt32.toNat := by omega
  have hdata : len.toUInt32.toNat ≤ (slice S off len).length := by omega
  have hguard := h.refines.canReceive_iff hseq hpos (by omega)
  -- the guard of the code and the guard of the stream are the same
  obtain ⟨rb', hrecv, hcases⟩ := h.refines.receivePayload hseq hpos (by omega) hdata
  rw [hlen', hlast] at hguard
  rw [hlen', htake] at hcases
  refine ⟨_, by simp only [RecvRun.step, if_pos (And.intro hlen hend), hrecv]; rfl, ?_⟩
  -- an accepted segment: the ring holds the bytes of the stream at their cells
  rcases hcases with ⟨hacc, href, hbuf⟩ | ⟨hacc, rfl⟩
  · have hbuf' : rb'.buffer = overwriteWrap s.rb.buffer ((off + 1) % r.capacity)
        ((slice S off len).take len) := by rw [htake, hbuf]
    have hholds := h.holds.accept h.refines (n := len) hacc (le_of_eq hlength.symm)
      (by rw [htake]; exact hslice) hbuf'
    simp only [hlast] at hacc href hholds
    have hzero := hguard.mpr hacc
    refine Or.inl ⟨hacc, hzero, ?_⟩
    exact {
      refines := href
      capacity := by rw [Reassembly.accept_capacity, h.capacity]
      holds := hholds
      delivered := by rw [Reassembly.accept_read, h.delivered]
      within := h.within.accept hacc hend
      accepted := by
        intro q hq
        simp only [hzero, if_true]
        rw [covers_append, h.accepted q hq, Reassembly.received_accept, covers_cons, hseq]
        simp only [covers_nil, or_false]
        apply or_congr_right
        omega }
  -- a refused segment leaves everything as it is
  · rw [hlast] at hacc
    have hne := fun h0 => hacc (hguard.mp h0)
    refine Or.inr ⟨hne, ?_⟩
    simp only [if_neg hne]

/-- A read takes the next bytes of the stream. -/
theorem RecvRun.Invariant.read (h : s.Invariant isn capacity S r) {len : UInt32}
    (hlen : len ≤ recvBufferMaxRead s.rb) :
    ∃ s' hn, s.step isn S (.read len) = some (.ok s') ∧
      s'.Invariant isn capacity S (r.consume len.toNat hn) := by
  have hlt := r.read_lt_next
  have hn : r.read + len.toNat < r.next := by
    rw [UInt32.le_iff_toNat_le, h.refines.recvBufferMaxRead] at hlen
    omega
  obtain ⟨rb', hread, href, hbuf⟩ := h.refines.recvBufferRead hn
  obtain ⟨hlength, hslice⟩ := h.holds.readWrap h.refines hn
  have hnext := h.within.next
  refine ⟨_, hn, by simp only [RecvRun.step, if_pos hlen, hread]; rfl, ?_⟩
  exact {
    refines := href
    capacity := h.capacity
    holds := h.holds.consume hn hbuf
    delivered := by
      rw [h.delivered, take_append_of_isSlice hslice (by rw [hlength]; omega), hlength]
      rfl
    within := ⟨h.within.next, h.within.held⟩
    accepted := h.accepted }

/-- No step faults, and every step keeps the invariant. -/
theorem RecvRun.Invariant.step (h : s.Invariant isn capacity S r)
    (hwrap : isn.toNat + S.length + 1 < 2 ^ 32) {l : RecvLabel} {e : Except Fault RecvRun}
    (hstep : s.step isn S l = some e) : ∃ s' r', e = .ok s' ∧ s'.Invariant isn capacity S r' := by
  cases l with
  | arrive off len =>
    by_cases harr : 0 < len ∧ off + len ≤ S.length
    · obtain ⟨s', hs', hcases⟩ := h.arrive hwrap harr.1 harr.2
      rw [hs'] at hstep
      rcases hcases with ⟨_, _, hinv⟩ | ⟨_, rfl⟩
      · exact ⟨s', _, (Option.some.inj hstep).symm, hinv⟩
      · exact ⟨_, r, (Option.some.inj hstep).symm, h⟩
    · rw [RecvRun.step, if_neg harr] at hstep
      exact absurd hstep (by simp)
  | read len =>
    by_cases hlen : len ≤ recvBufferMaxRead s.rb
    · obtain ⟨s', hn, hs', hinv⟩ := h.read hlen
      rw [hs'] at hstep
      exact ⟨s', _, (Option.some.inj hstep).symm, hinv⟩
    · rw [RecvRun.step, if_neg hlen] at hstep
      exact absurd hstep (by simp)

end Steps

section Runs

variable {capacity : UInt32} {mem : Garbage} {fresh : Ptr → Segment} {isn : UInt32}
  {S : List UInt8}

theorem RecvRun.invariant_init (hcap : 2 ≤ capacity.toNat)
    (hnull : ∀ p, (fresh p).prev = none ∧ (fresh p).next = none)
    (hwrap : isn.toNat + S.length + 1 < 2 ^ 32) {s : RecvRun}
    (hinit : (recvSystem capacity mem fresh isn S).init s) :
    s.Invariant isn capacity S (Reassembly.empty capacity.toNat (by omega)) := by
  obtain ⟨rb, hrb, rfl⟩ := hinit
  obtain ⟨rb', hrb', href⟩ := recv_refines_initialize capacity mem fresh isn hcap hnull
    (by omega)
  rw [hrb] at hrb'
  obtain rfl := Except.ok.inj hrb'
  -- nothing has arrived: position `1` is expected and nothing is held
  have hnone : ∀ k, ¬ (Reassembly.empty capacity.toNat (by omega)).Received k := by
    rintro k (⟨hpos, hlt⟩ | hcov)
    · have hlt' : k < 1 := hlt
      omega
    · exact covers_nil k hcov
  exact {
    refines := href
    capacity := rfl
    holds := fun k hk => absurd hk.2 (hnone k)
    delivered := rfl
    within := ⟨by show 1 ≤ S.length + 1; omega, by simp [Reassembly.empty]⟩
    accepted := fun q _ => iff_of_false (covers_nil q) (hnone _) }

theorem RecvRun.invariant_of_run (hcap : 2 ≤ capacity.toNat)
    (hnull : ∀ p, (fresh p).prev = none ∧ (fresh p).next = none)
    (hwrap : isn.toNat + S.length + 1 < 2 ^ 32) {tr : List (RecvRun × RecvLabel)} {s : RecvRun}
    (h : Run (recvSystem capacity mem fresh isn S) (fun _ => True) tr s) :
    ∃ r, s.Invariant isn capacity S r := by
  refine h.invariant (I := fun s => ∃ r, s.Invariant isn capacity S r)
    (fun s hinit _ => ⟨_, RecvRun.invariant_init hcap hnull hwrap hinit⟩) ?_
  rintro s l s' ⟨r, hinv⟩ _ _ hstep
  obtain ⟨t, r', ht, hinv'⟩ := hinv.step hwrap hstep
  exact ⟨r', Except.ok.inj ht ▸ hinv'⟩

/-! ## Soundness -/

/-- The readable bytes are the in-order part of the stream that is not read. -/
theorem RecvRun.Invariant.readable {s : RecvRun} {r : Reassembly}
    (h : s.Invariant isn capacity S r) :
    s.delivered ++ readableBytes s.rb = S.take (r.next - 1) := by
  have hlt := r.read_lt_next
  have hnext := h.within.next
  have hslice : IsSlice (fromOne S) (r.read + 1) (readableBytes s.rb) := by
    intro j hj
    simp only [readableBytes, List.length_map, List.length_range,
      h.refines.recvBufferMaxRead] at hj
    have hgt : r.read < r.read + 1 + j := by omega
    have hcell := h.holds (r.read + 1 + j) ⟨hgt, Or.inl ⟨by omega, by omega⟩⟩
    simp only [readableBytes, h.refines.recvBufferMaxRead, h.refines.readIndex,
      h.refines.capacity, List.getElem?_map, List.getElem?_range hj, Option.map_some]
    rw [show r.read % r.capacity + 1 + j = r.read % r.capacity + (1 + j) by omega,
      Nat.mod_add_mod, ← Nat.add_assoc, List.getD_eq_getElem?_getD, hcell,
      show r.read + 1 + j = (r.read + j) + 1 by omega, fromOne_succ]
    have hin : r.read + j < S.length := by omega
    simp [hin]
  have hlength : (readableBytes s.rb).length = r.next - r.read - 1 := by
    simp only [readableBytes, List.length_map, List.length_range, h.refines.recvBufferMaxRead]
  rw [h.delivered, take_append_of_isSlice hslice (by rw [hlength]; omega), hlength]
  congr 1
  omega

/-- **Reassembly is sound**: the bytes read, followed by the bytes still readable, are
    the bytes of the stream before the next byte expected; each of these was in an
    accepted segment; and no step faults. -/
theorem reassembly_sound (hcap : 2 ≤ capacity.toNat)
    (hnull : ∀ p, (fresh p).prev = none ∧ (fresh p).next = none)
    (hwrap : isn.toNat + S.length + capacity.toNat < 2 ^ 32)
    {tr : List (RecvRun × RecvLabel)} {s : RecvRun}
    (h : Run (recvSystem capacity mem fresh isn S) (fun _ => True) tr s) :
    isn.toNat < (getNextByteExpectedSeqnum s.rb).toNat ∧
    (getNextByteExpectedSeqnum s.rb).toNat - isn.toNat - 1 ≤ S.length ∧
    s.delivered ++ readableBytes s.rb =
      S.take ((getNextByteExpectedSeqnum s.rb).toNat - isn.toNat - 1) ∧
    (∀ q, isn.toNat < q → q < (getNextByteExpectedSeqnum s.rb).toNat →
      Covers s.accepted q) ∧
    ∀ l f, s.step isn S l ≠ some (.error f) := by
  -- the run refines a reassembly, where the five parts are facts about its positions
  obtain ⟨r, hinv⟩ := RecvRun.invariant_of_run hcap hnull (by omega) h
  have hlt := r.read_lt_next
  have hnext := hinv.within.next
  rw [hinv.refines.getNextByteExpectedSeqnum]
  refine ⟨by omega, by omega, ?_, ?_, ?_⟩
  · rw [hinv.readable]
    congr 1
    omega
  · intro q hlo hhi
    exact (hinv.accepted q hlo).mpr (Or.inl ⟨by omega, by omega⟩)
  · intro l f hfault
    obtain ⟨s', r', hs', _⟩ := hinv.step (by omega) hfault
    exact absurd hs' (by simp)

/-- A concrete system: zeroed memory, and the ISN `100`. -/
def zeroedRecvSystem (capacity : UInt32) (S : List UInt8) : System RecvRun RecvLabel Fault :=
  recvSystem capacity (SocketEnv.zeroed 100).recvMem (SocketEnv.zeroed 100).freshSegment 100 S

/-- A ring of four cells, six bytes: a gap, its filling, a read, and a wrapping segment. -/
theorem reassembly_sound_wrapping :
    ∃ tr s, Run (zeroedRecvSystem 4 [1, 2, 3, 4, 5, 6]) (fun _ => True) tr s ∧
      s.delivered ++ readableBytes s.rb = [1, 2, 3, 4, 5, 6] := by
  have hinit : Run (zeroedRecvSystem 4 [1, 2, 3, 4, 5, 6]) (fun _ => True) [] ⟨_, [], []⟩ :=
    .init ⟨_, rfl, rfl⟩ trivial
  have hrun := hinit.exec ([.arrive 1 2, .arrive 0 2, .read 3, .arrive 3 3] : List RecvLabel) rfl
  have hsound := reassembly_sound (by decide) (fun _ => ⟨rfl, rfl⟩) (by decide) hrun
  refine ⟨_, _, hrun, hsound.2.2.1.trans ?_⟩
  decide

/-! ## Maximality of the ack -/

/-- The next byte expected is the first one above the ISN that no accepted segment covers. -/
def RecvRun.AckMaximal (isn : UInt32) (s : RecvRun) : Prop :=
  IsLeast {q | isn.toNat < q ∧ ¬ Covers s.accepted q} (getNextByteExpectedSeqnum s.rb).toNat

/-- Every held segment starts strictly above the next byte expected. -/
def RecvRun.HeldAbove (s : RecvRun) : Prop :=
  ∀ v ∈ segmentList s.rb, getNextByteExpectedSeqnum s.rb < v.startSeqnumInclusive

/-- An accepted segment that is not a gap does not touch what stays held: no held segment
    starts right after its last byte, or right after a held segment with its last byte. -/
def RecvRun.NoTouch (isn : UInt32) (s : RecvRun) : RecvLabel → Prop
  | .arrive off len =>
    recvBufferCanReceive s.rb (streamSeqnum isn off) len.toUInt32 = 0 →
    streamSeqnum isn off ≤ getNextByteExpectedSeqnum s.rb →
    ∀ v ∈ segmentList s.rb,
      v.startSeqnumInclusive.toNat ≠ (streamSeqnum isn off).toNat + len ∧
      ∀ u ∈ segmentList s.rb,
        u.startSeqnumInclusive.toNat < (streamSeqnum isn off).toNat + len →
        (streamSeqnum isn off).toNat + len ≤ u.endSeqnumInclusive.toNat + 1 →
        v.startSeqnumInclusive.toNat ≠ u.endSeqnumInclusive.toNat + 1
  | .read _ => True

instance (isn : UInt32) (s : RecvRun) (l : RecvLabel) : Decidable (s.NoTouch isn l) :=
  match l with
  | .arrive _ _ => inferInstanceAs (Decidable (_ → _))
  | .read _ => inferInstanceAs (Decidable True)

/-- Walking from `start` by `next` goes through the whole list. -/
theorem segmentList_of_represents {rb : RecvBuffer} {xs : List (Ptr × SegmentRange)}
    (hr : LinkedHeap.Represents rb.heap rb.start rb.end xs) :
    segmentList rb = xs.map Prod.snd := by
  rw [segmentList, hr.first_eq]
  exact LinkedHeap.valuesFrom_chain hr.chain hr.linked.length_le

theorem segmentList_positions {rb : RecvBuffer} {r : Reassembly} (h : rb.Refines isn.toNat r) :
    (segmentList rb).map (SegmentRange.positions isn.toNat) = r.held := by
  obtain ⟨xs, hrep, hxs⟩ := h.segments
  rw [segmentList_of_represents hrep, List.map_map, ← hxs]
  rfl

/-- The numbers of a listed segment are its positions, shifted by the ISN. -/
theorem toNat_of_mem_segmentList {rb : RecvBuffer} {r : Reassembly}
    (h : rb.Refines isn.toNat r) {v : SegmentRange} (hv : v ∈ segmentList rb) :
    v.positions isn.toNat ∈ r.held ∧
      v.startSeqnumInclusive.toNat = isn.toNat + (v.positions isn.toNat).1 ∧
      v.endSeqnumInclusive.toNat = isn.toNat + (v.positions isn.toNat).2 := by
  have hmem : v.positions isn.toNat ∈ r.held :=
    segmentList_positions h ▸ List.mem_map_of_mem hv
  have h1 := r.next_le_held _ hmem
  have h2 := r.sorted.nonempty _ hmem
  have h3 := r.read_lt_next
  simp only [SegmentRange.positions] at h1 h2 ⊢
  exact ⟨hmem, by omega, by omega⟩

theorem exists_segment {rb : RecvBuffer} {r : Reassembly} (h : rb.Refines isn.toNat r)
    {x : ℕ × ℕ} (hx : x ∈ r.held) :
    ∃ v ∈ segmentList rb, v.positions isn.toNat = x := by
  rw [← segmentList_positions h] at hx
  exact List.mem_map.mp hx

theorem RecvRun.Invariant.heldAbove_iff {s : RecvRun} {r : Reassembly}
    (h : s.Invariant isn capacity S r) : s.HeldAbove ↔ ∀ x ∈ r.held, r.next < x.1 := by
  have hnext := h.refines.getNextByteExpectedSeqnum
  constructor
  · intro hall x hx
    obtain ⟨v, hv, rfl⟩ := exists_segment h.refines hx
    have hlt := hall v hv
    rw [UInt32.lt_iff_toNat_lt, hnext, (toNat_of_mem_segmentList h.refines hv).2.1] at hlt
    omega
  · intro hall v hv
    obtain ⟨hmem, hstart, _⟩ := toNat_of_mem_segmentList h.refines hv
    have hlt := hall _ hmem
    rw [UInt32.lt_iff_toNat_lt, hnext, hstart]
    omega

theorem RecvRun.Invariant.ackMaximal_iff {s : RecvRun} {r : Reassembly}
    (h : s.Invariant isn capacity S r) : s.AckMaximal isn ↔ s.HeldAbove := by
  have hlt := r.read_lt_next
  rw [h.heldAbove_iff, RecvRun.AckMaximal, h.refines.getNextByteExpectedSeqnum]
  have hat : Covers s.accepted (isn.toNat + r.next) ↔ ∃ x ∈ r.held, x.1 = r.next := by
    rw [h.accepted _ (by omega), Nat.add_sub_cancel_left, r.received_next_iff]
  constructor
  · intro hleast x hx
    refine lt_of_le_of_ne (r.next_le_held x hx) fun heq => ?_
    exact hleast.1.2 (hat.mpr ⟨x, hx, heq.symm⟩)
  · intro hall
    refine ⟨⟨by omega, fun hcov => ?_⟩, ?_⟩
    · obtain ⟨x, hx, heq⟩ := hat.mp hcov
      exact absurd (hall x hx) (by omega)
    · -- everything below is in the in-order part
      rintro q ⟨hq, hcov⟩
      by_contra hlt'
      exact hcov ((h.accepted q hq).mpr (Or.inl ⟨by omega, by omega⟩))

/-- A step keeps every held segment above the next byte expected exactly if it does not
    make them touch. -/
theorem RecvRun.Invariant.heldAbove_step {s s' : RecvRun} {r : Reassembly}
    (h : s.Invariant isn capacity S r) (hwrap : isn.toNat + S.length + 1 < 2 ^ 32)
    (habove : s.HeldAbove) {l : RecvLabel} (hstep : s.step isn S l = some (.ok s')) :
    s'.HeldAbove ↔ s.NoTouch isn l := by
  cases l with
  | read len =>
    refine iff_of_true ?_ trivial
    by_cases hlen : len ≤ recvBufferMaxRead s.rb
    · obtain ⟨t, hn, ht, hinv⟩ := h.read hlen
      rw [ht] at hstep
      obtain rfl := Except.ok.inj (Option.some.inj hstep)
      exact hinv.heldAbove_iff.mpr (h.heldAbove_iff.mp habove)
    · rw [RecvRun.step, if_neg hlen] at hstep
      exact absurd hstep (by simp)
  | arrive off len =>
    by_cases harr : 0 < len ∧ off + len ≤ S.length
    · obtain ⟨t, ht, hcases⟩ := h.arrive hwrap harr.1 harr.2
      rw [ht] at hstep
      obtain rfl := Except.ok.inj (Option.some.inj hstep)
      rcases hcases with ⟨hacc, hzero, hinv⟩ | ⟨hne, rfl⟩
      · obtain ⟨hseq, _⟩ := arrive_args hwrap harr.1 harr.2
        have hle : streamSeqnum isn off ≤ getNextByteExpectedSeqnum s.rb ↔
            off + 1 ≤ r.next := by
          rw [UInt32.le_iff_toNat_le, hseq, h.refines.getNextByteExpectedSeqnum]
          omega
        rw [hinv.heldAbove_iff, Reassembly.next_lt_held_accept hacc (h.heldAbove_iff.mp habove)]
        -- a held interval that touches the merged one from above touches the segment, or one
        -- that the segment meets
        have htouch := Reassembly.exists_held_after_merged hacc
        simp only [RecvRun.NoTouch, hzero, forall_const, hle]
        refine imp_congr_right fun _ => ?_
        constructor
        · intro hnone v hv
          obtain ⟨hvm, hvs, _⟩ := toNat_of_mem_segmentList h.refines hv
          have hnot : ¬ ∃ v ∈ after (off + len) r.held,
              v.1 = (r.merged (off + 1) (off + len)).2 + 1 := by
            rintro ⟨x, hx, heq⟩
            exact hnone x hx heq
          rw [htouch] at hnot
          refine ⟨fun heq => hnot ⟨_, hvm, Or.inl (by omega)⟩, ?_⟩
          intro u hu hus hue heq
          obtain ⟨hum, hus', hue'⟩ := toNat_of_mem_segmentList h.refines hu
          exact hnot ⟨_, hvm, Or.inr ⟨_, hum, by omega, by omega, by omega⟩⟩
        · intro hnone x hx heq
          obtain ⟨v, hv, hcase⟩ := htouch.mp ⟨x, hx, heq⟩
          obtain ⟨w, hw, rfl⟩ := exists_segment h.refines hv
          obtain ⟨_, hws, _⟩ := toNat_of_mem_segmentList h.refines hw
          rcases hcase with hb | ⟨u, hu, hub, hbu, hvu⟩
          · exact (hnone w hw).1 (by omega)
          · obtain ⟨z, hz, rfl⟩ := exists_segment h.refines hu
            obtain ⟨_, hzs, hze⟩ := toNat_of_mem_segmentList h.refines hz
            exact (hnone w hw).2 z hz (by omega) (by omega) (by omega)
      · -- a refused segment changes nothing
        exact iff_of_true habove (fun hzero => absurd hzero hne)
    · rw [RecvRun.step, if_neg harr] at hstep
      exact absurd hstep (by simp)

/-- **When the cumulative ack is maximal**: the next byte expected is the first one not
    covered in every state of a run if and only if no accepted segment touches a held one
    without meeting it; and it is maximal where the held segments all start above it. -/
theorem ack_maximal_iff (hcap : 2 ≤ capacity.toNat)
    (hnull : ∀ p, (fresh p).prev = none ∧ (fresh p).next = none)
    (hwrap : isn.toNat + S.length + 1 < 2 ^ 32)
    {tr : List (RecvRun × RecvLabel)} {s : RecvRun}
    (h : Run (recvSystem capacity mem fresh isn S) (fun _ => True) tr s) :
    ((∀ t ∈ visited tr s, t.AckMaximal isn) ↔ ∀ p ∈ tr, p.1.NoTouch isn p.2) ∧
    ∀ t ∈ visited tr s, t.AckMaximal isn ↔ t.HeldAbove := by
  constructor
  · refine h.forall_visited_iff (I := fun s => ∃ r, s.Invariant isn capacity S r)
      (fun tr s hrun => RecvRun.invariant_of_run hcap hnull hwrap hrun) ?_ ?_
    · intro s hinit _
      have hinv := RecvRun.invariant_init hcap hnull hwrap hinit
      rw [hinv.ackMaximal_iff, hinv.heldAbove_iff]
      simp [Reassembly.empty]
    · rintro s l s' ⟨r, hinv⟩ hmax _ hstep
      obtain ⟨t, r', ht, hinv'⟩ := hinv.step hwrap hstep
      obtain rfl := Except.ok.inj ht
      rw [hinv'.ackMaximal_iff]
      exact hinv.heldAbove_step hwrap (hinv.ackMaximal_iff.mp hmax) hstep
  · refine h.visited_of_invariant fun tr s hrun => ?_
    obtain ⟨r, hinv⟩ := RecvRun.invariant_of_run hcap hnull hwrap hrun
    exact hinv.ackMaximal_iff

/-- A run in which a gap is filled by a segment that meets the held one. -/
theorem ack_maximal_iff_overlapping :
    ∃ tr s, Run (zeroedRecvSystem 8 [1, 2, 3]) (fun _ => True) tr s ∧
      s.accepted = [(103, 103), (101, 101), (101, 103)] ∧ ∀ t ∈ visited tr s, t.AckMaximal 100 := by
  have hinit : Run (zeroedRecvSystem 8 [1, 2, 3]) (fun _ => True) [] ⟨_, [], []⟩ :=
    .init ⟨_, rfl, rfl⟩ trivial
  have hrun := hinit.exec ([.arrive 2 1, .arrive 0 1, .arrive 0 3] : List RecvLabel) rfl
  refine ⟨_, _, hrun, rfl, ?_⟩
  refine (ack_maximal_iff (by decide) (fun _ => ⟨rfl, rfl⟩) (by decide) hrun).1.mpr ?_
  decide

/-- Two bytes arrive in the wrong order: both are accepted, and the second one is not
    acknowledged. -/
theorem ack_not_maximal_touching :
    ∃ tr s, Run (zeroedRecvSystem 8 [1, 2]) (fun _ => True) tr s ∧
      s.accepted = [(102, 102), (101, 101)] ∧ getNextByteExpectedSeqnum s.rb = 102 ∧
      ¬ s.AckMaximal 100 := by
  have hinit : Run (zeroedRecvSystem 8 [1, 2]) (fun _ => True) [] ⟨_, [], []⟩ :=
    .init ⟨_, rfl, rfl⟩ trivial
  have hrun := hinit.exec ([.arrive 1 1, .arrive 0 1] : List RecvLabel) rfl
  refine ⟨_, _, hrun, rfl, by decide, fun hmax => hmax.1.2 ⟨(102, 102), ?_, ?_⟩⟩
  · decide
  · decide

end Runs

end CmuTcp
