import CmuTcp.Model.Threads
import CmuTcp.Ring.Window

/-!
# What the Unlocked Window Is

However the loads of `recv_buffer_max_receive` fall between the stores of any number of
reads, the window that comes out lies between the one before and the one after the call,
unless the index of the last byte read wraps around between its two loads: then the window
is advertised as almost the whole of its sixteen bits.

1. `Loaded` says, for each point of the call, of which positions its loads have been: each was
   the last byte read at some moment since the call began.  Later reads keep it.
2. There is one lemma for each load.  The comparison of the indices is one of their cells; the
   second load of the index is on the same lap, or a lap ahead, and then a capacity too much
   is counted; the two loads of the number differ by what was read in between.
3. The stores of the reader change no load made before.

Main result: `unlocked_window_iff`.
-/

namespace CmuTcp

open FaultSystem
open CircularBuffer LinkedHeap

/-- A position between two that are on the same lap. -/
theorem mod_lt_mod_of_between {C a b c : ℕ} (hab : a ≤ b) (hbc : b < c) (hca : c ≤ a + C)
    (h : a % C < c % C) : b % C < c % C := by
  have hdist := forward_distance_pos (show a < c by omega) hca
  rw [if_pos h] at hdist
  have hC : c % C < C := Nat.mod_lt c (by omega)
  have hb : b % C = a % C + (b - a) := by
    rw [show b = a + (b - a) by omega, ← Nat.mod_add_mod, Nat.mod_eq_of_lt (by omega)]
    omega
  omega

namespace UnlockedRun

/-- What has been loaded, when the reader has stored the index up to `r` and the call began
    with `read` bytes read: each load is of a position that was current at some time. -/
def Loaded (isn read : ℕ) (s : UnlockedRun) (r : Reassembly) (last : ℕ) : Prop :=
  match s.window with
  | .compare => s.torn = false
  | .subtract wraps => s.torn = false ∧
      ∃ p, read ≤ p ∧ p ≤ r.read ∧ (wraps = false ↔ p % r.capacity < r.next % r.capacity)
  | .add next => ∃ p, read ≤ p ∧ p ≤ r.read ∧
      next.toNat = r.next - p + if s.torn then r.capacity else 0
  | .minus next => ∃ p q, read ≤ p ∧ p ≤ q ∧ q ≤ last ∧
      next.toNat = (isn + q + (r.next - p) + if s.torn then r.capacity else 0) % 2 ^ 32
  | .done w => ∃ p, read ≤ p ∧ p ≤ last ∧
      w.toNat = if s.torn then 2 ^ 32 - (r.next - p) else p + r.capacity - r.next

/-- The buffer is one that refines `r`, but for the sequence number that a reader has stored
    ahead of the index. -/
structure Invariant (isn : ℕ) (r₀ : Reassembly) (s : UnlockedRun) (r : Reassembly) : Prop where
  next : r.next = r₀.next
  capacity : r.capacity = r₀.capacity
  read : r₀.read ≤ r.read
  last : r.read + (s.reader.getD 0).toNat < r.next
  nonempty : s.reader ≠ some 0
  refines : ∃ rb : RecvBuffer, rb.Refines isn r ∧ s.rb = { rb with
    lastByteReadSeqnum := rb.lastByteReadSeqnum + s.reader.getD 0 }
  loaded : s.Loaded isn r₀.read r (r.read + (s.reader.getD 0).toNat)

section Steps

variable {isn : ℕ} {r₀ r : Reassembly} {s : UnlockedRun}

/-- The fields as the loads see them. -/
theorem Invariant.fields (h : s.Invariant isn r₀ r) :
    s.rb.lastByteReadIndex.toNat = r.read % r.capacity ∧
    s.rb.nextByteExpectedIndex.toNat = r.next % r.capacity ∧
    s.rb.capacity.toNat = r.capacity ∧
    s.rb.lastByteReadSeqnum.toNat = isn + (r.read + (s.reader.getD 0).toNat) ∧
    isn + r.next < 2 ^ 32 := by
  obtain ⟨rb, href, hrb⟩ := h.refines
  have hlast := h.last
  have hnext := href.next_lt
  refine ⟨?_, ?_, ?_, ?_, hnext⟩
  · rw [hrb]
    exact href.readIndex
  · rw [hrb]
    exact href.nextIndex
  · rw [hrb]
    exact href.capacity
  · rw [hrb]
    show (rb.lastByteReadSeqnum + s.reader.getD 0).toNat = _
    rw [UInt32.toNat_add, href.readSeqnum]
    omega

/-- The loads of a call that goes on see later positions. -/
theorem Loaded.mono {s s' : UnlockedRun} {r' : Reassembly} {read last last' : ℕ}
    (h : s.Loaded isn read r last) (hwindow : s'.window = s.window) (htorn : s'.torn = s.torn)
    (hnext : r'.next = r.next) (hcap : r'.capacity = r.capacity) (hread : r.read ≤ r'.read)
    (hlast : last ≤ last') : s'.Loaded isn read r' last' := by
  unfold Loaded at h ⊢
  rw [hwindow, htorn, hnext, hcap]
  -- each load was of a position that is still between the same bounds
  cases hw : s.window with
  | compare =>
    rw [hw] at h
    exact h
  | subtract wraps =>
    rw [hw] at h
    obtain ⟨hno, p, hlo, hhi, hcompare⟩ := h
    exact ⟨hno, p, hlo, by omega, hcompare⟩
  | add next =>
    rw [hw] at h
    obtain ⟨p, hlo, hhi, hval⟩ := h
    exact ⟨p, hlo, by omega, hval⟩
  | minus next =>
    rw [hw] at h
    obtain ⟨p, q, hlo, hpq, hhi, hval⟩ := h
    exact ⟨p, q, hlo, hpq, by omega, hval⟩
  | done w =>
    rw [hw] at h
    obtain ⟨p, hlo, hhi, hval⟩ := h
    exact ⟨p, hlo, by omega, hval⟩

/-- The two indices are compared as the cells of their positions. -/
theorem Invariant.compare_iff (h : s.Invariant isn r₀ r) :
    s.rb.nextByteExpectedIndex > s.rb.lastByteReadIndex ↔
      r.read % r.capacity < r.next % r.capacity := by
  obtain ⟨hindex, hnextIndex, _⟩ := h.fields
  rw [gt_iff_lt, UInt32.lt_iff_toNat_lt, hindex, hnextIndex]

/-- The comparison of the indices. -/
theorem Invariant.loadCompare (h : s.Invariant isn r₀ r) (hw : s.window = .compare) :
    ({ s with
      window := .subtract (!decide (s.rb.nextByteExpectedIndex > s.rb.lastByteReadIndex)) } :
      UnlockedRun).Invariant isn r₀ r := by
  have hloaded := h.loaded
  unfold Loaded at hloaded
  rw [hw] at hloaded
  refine { h with loaded := ⟨hloaded, r.read, h.read, le_refl _, ?_⟩ }
  rw [Bool.not_eq_false', decide_eq_true_iff]
  exact h.compare_iff

/-- The distance of the indices, from a second load of `last_byte_read_index`: a lap too much
    if the ring has wrapped since the first. -/
theorem Invariant.loadSubtract (h : s.Invariant isn r₀ r) (hcap : r₀.capacity ≤ 2 ^ 15)
    {wraps : Bool} (hw : s.window = .subtract wraps) :
    ({ s with
      window := .add (if wraps then
          s.rb.capacity - 1 - s.rb.lastByteReadIndex + (s.rb.nextByteExpectedIndex + 1)
        else s.rb.nextByteExpectedIndex - s.rb.lastByteReadIndex)
      torn := wraps && decide (s.rb.nextByteExpectedIndex > s.rb.lastByteReadIndex) } :
      UnlockedRun).Invariant isn r₀ r := by
  obtain ⟨hindex, hnextIndex, hcapacity, _⟩ := h.fields
  have hcompare := h.compare_iff
  have hcap' : r.capacity ≤ 2 ^ 15 := h.capacity ▸ hcap
  have hlt := r.read_lt_next
  have hle := r.next_le
  have hread := h.read
  have hle₀ := r₀.next_le
  rw [← h.next, ← h.capacity] at hle₀
  have hpos : 0 < r.capacity := by omega
  have hmod : r.read % r.capacity < r.capacity := Nat.mod_lt _ hpos
  have hmod' : r.next % r.capacity < r.capacity := Nat.mod_lt _ hpos
  have hdist := forward_distance_pos hlt hle
  have hloaded := h.loaded
  unfold Loaded at hloaded
  rw [hw] at hloaded
  obtain ⟨-, p, hlo, hhi, hfirst⟩ := hloaded
  refine { h with loaded := ⟨r.read, hread, le_refl _, ?_⟩ }
  cases wraps with
  | false =>
    -- the index has not wrapped since it was compared
    have hsecond := mod_lt_mod_of_between hhi hlt (by omega) (hfirst.mp rfl)
    rw [if_pos hsecond] at hdist
    show (s.rb.nextByteExpectedIndex - s.rb.lastByteReadIndex).toNat = _ + 0
    rw [UInt32.toNat_sub, hindex, hnextIndex]
    omega
  | true =>
    show (s.rb.capacity - 1 - s.rb.lastByteReadIndex +
      (s.rb.nextByteExpectedIndex + 1)).toNat = _
    simp only [UInt32.toNat_add, UInt32.toNat_sub, UInt32.toNat_one, hindex, hnextIndex,
      hcapacity, Bool.true_and, decide_eq_true_iff, hcompare]
    split at hdist
    · rename_i hlap
      rw [if_pos hlap]
      omega
    · rename_i hlap
      rw [if_neg hlap]
      omega

/-- `last_byte_read_seqnum` is added, which may be ahead of the index. -/
theorem Invariant.loadAdd (h : s.Invariant isn r₀ r) {next : UInt32} (hw : s.window = .add next) :
    ({ s with window := .minus (next + s.rb.lastByteReadSeqnum) } :
      UnlockedRun).Invariant isn r₀ r := by
  obtain ⟨-, -, -, hseq, hroom⟩ := h.fields
  have hlast := h.last
  have hloaded := h.loaded
  unfold Loaded at hloaded
  rw [hw] at hloaded
  obtain ⟨p, hlo, hhi, hval⟩ := hloaded
  refine { h with loaded := ⟨p, r.read + (s.reader.getD 0).toNat, hlo, by omega, le_refl _, ?_⟩ }
  show (next + s.rb.lastByteReadSeqnum).toNat = (isn + (r.read + (s.reader.getD 0).toNat) +
    (r.next - p) + if s.torn then r.capacity else 0) % 2 ^ 32
  rw [UInt32.toNat_add, hval, hseq]
  congr 1
  omega

/-- `last_byte_read_seqnum` is subtracted, which may have moved on. -/
theorem Invariant.loadMinus (h : s.Invariant isn r₀ r) (hcap : r₀.capacity ≤ 2 ^ 15)
    {next : UInt32} (hw : s.window = .minus next) :
    ({ s with window := .done (s.rb.capacity - (next - s.rb.lastByteReadSeqnum)) } :
      UnlockedRun).Invariant isn r₀ r := by
  obtain ⟨-, -, hcapacity, hseq, hroom⟩ := h.fields
  have hcap' : r.capacity ≤ 2 ^ 15 := h.capacity ▸ hcap
  have hlast := h.last
  have hle₀ := r₀.next_le
  rw [← h.next, ← h.capacity] at hle₀
  have hloaded := h.loaded
  unfold Loaded at hloaded
  -- the two loads of the number were of positions `p` and `q`, and this one is of the last
  rw [hw] at hloaded
  obtain ⟨p, q, hlo, hpq, hhi, hval⟩ := hloaded
  -- so what comes out is the window at a position between the first and the last
  have hbetween : r₀.read ≤ p + (r.read + (s.reader.getD 0).toNat) - q ∧
      p + (r.read + (s.reader.getD 0).toNat) - q ≤ r.read + (s.reader.getD 0).toNat := by
    omega
  refine { h with loaded :=
    ⟨p + (r.read + (s.reader.getD 0).toNat) - q, hbetween.1, hbetween.2, ?_⟩ }
  show (s.rb.capacity - (next - s.rb.lastByteReadSeqnum)).toNat = if s.torn then _ else _
  simp only [UInt32.toNat_sub, hcapacity, hseq, hval]
  -- with the comparison on the same lap the sum is exact
  cases s.torn with
  | false =>
    simp only [Bool.false_eq_true, if_false]
    omega
  -- with a lap in between a capacity too much is subtracted
  | true =>
    simp only [if_true]
    omega

/-- The next load of the call. -/
theorem Invariant.load (h : s.Invariant isn r₀ r) (hcap : r₀.capacity ≤ 2 ^ 15) {s' : UnlockedRun}
    (hload : s.load = some s') : s'.Invariant isn r₀ r := by
  unfold UnlockedRun.load at hload
  cases hw : s.window with
  | compare =>
    rw [hw] at hload
    obtain rfl := Option.some.inj hload
    exact h.loadCompare hw
  | subtract wraps =>
    rw [hw] at hload
    obtain rfl := Option.some.inj hload
    exact h.loadSubtract hcap hw
  | add next =>
    rw [hw] at hload
    obtain rfl := Option.some.inj hload
    exact h.loadAdd hw
  | minus next =>
    rw [hw] at hload
    obtain rfl := Option.some.inj hload
    exact h.loadMinus hcap hw
  | done w =>
    rw [hw] at hload
    exact absurd hload (by simp)

/-- The store of the sequence number, which the index follows. -/
theorem Invariant.storeSeqnum (h : s.Invariant isn r₀ r) {len : UInt32} (hnone : s.reader = none)
    (hpos : 0 < len) (hlen : len ≤ recvBufferMaxRead s.rb) :
    ({ s with
      rb := { s.rb with lastByteReadSeqnum := s.rb.lastByteReadSeqnum + len }
      reader := some len } : UnlockedRun).Invariant isn r₀ r := by
  obtain ⟨rb, href, hrb⟩ := h.refines
  rw [hnone] at hrb
  have hsame : s.rb = rb := by
    rw [hrb]
    simp
  have hlt := r.read_lt_next
  have hlast : r.read + len.toNat < r.next := by
    rw [hsame, UInt32.le_iff_toNat_le, href.recvBufferMaxRead] at hlen
    omega
  have hsome : some len ≠ some 0 := by
    rintro heq
    obtain rfl := Option.some.inj heq
    exact absurd hpos (by decide)
  refine { h with
    last := hlast, nonempty := hsome, refines := ⟨rb, href, by rw [hsame]; rfl⟩, loaded := ?_ }
  refine h.loaded.mono rfl rfl rfl rfl (le_refl _) ?_
  rw [hnone]
  exact Nat.le_add_right _ _

/-- The store of the index: the read is over. -/
theorem Invariant.storeIndex (h : s.Invariant isn r₀ r) {len : UInt32}
    (hsome : s.reader = some len) : ∃ r', ({ s with
      rb := { s.rb with lastByteReadIndex := (s.rb.lastByteReadIndex + len) % s.rb.capacity }
      reader := none } : UnlockedRun).Invariant isn r₀ r' := by
  obtain ⟨rb, href, hrb⟩ := h.refines
  -- the reader has stored the number already, so `last` does not move
  have hlast := h.last
  have hread := h.read
  have hloaded := h.loaded
  have hne : len ≠ 0 := fun hzero => h.nonempty (hzero ▸ hsome)
  rw [hsome] at hrb hlast hloaded
  have hn : r.read + len.toNat < r.next := hlast
  -- the two stores together are what `recv_buffer_read` does to the buffer
  obtain ⟨rb', hreads, href', _⟩ := href.recvBufferRead hn
  have hrb' : rb' = { rb with
      lastByteReadSeqnum := rb.lastByteReadSeqnum + len
      lastByteReadIndex := (rb.lastByteReadIndex + len) % rb.capacity } := by
    obtain ⟨_, _, hreads⟩ := ok_of_bind_ok hreads
    rw [if_neg hne] at hreads
    obtain ⟨_, _, hreads⟩ := ok_of_bind_ok hreads
    exact (Prod.mk.inj (Except.ok.inj hreads)).2.symm
  refine ⟨r.consume len.toNat hn, {
    next := h.next
    capacity := h.capacity
    read := le_trans hread (Nat.le_add_right _ _)
    last := hn
    nonempty := by simp
    refines := ⟨rb', href', ?_⟩
    loaded := hloaded.mono rfl rfl rfl rfl (Nat.le_add_right _ _) (le_refl _) }⟩
  rw [hrb, hrb']
  simp

end Steps

/-- **Every interleaving** of the loads and the stores. -/
theorem Invariant.of_run {isn : ℕ} {r₀ : Reassembly} {rb : RecvBuffer} (href : rb.Refines isn r₀)
    (hcap : r₀.capacity ≤ 2 ^ 15) {tr : List (UnlockedRun × UnlockedLabel)} {s : UnlockedRun}
    (h : Run (unlockedFrom rb) (fun _ => True) tr s) : ∃ r, s.Invariant isn r₀ r := by
  refine h.invariant (I := fun s => ∃ r, s.Invariant isn r₀ r) ?_ ?_
  · rintro s rfl _
    exact ⟨r₀, rfl, rfl, le_refl _, r₀.read_lt_next, by simp, ⟨rb, href, by simp⟩, rfl⟩
  · rintro s l s' ⟨r, hinv⟩ _ _ hstep
    cases l with
    | storeSeqnum len =>
      unfold unlockedFrom UnlockedRun.step at hstep
      dsimp only at hstep
      split at hstep
      · rename_i hguard
        obtain rfl := Except.ok.inj (Option.some.inj hstep)
        exact ⟨r, hinv.storeSeqnum hguard.1 hguard.2.1 hguard.2.2⟩
      · exact absurd hstep (by simp)
    | storeIndex =>
      unfold unlockedFrom UnlockedRun.step at hstep
      dsimp only at hstep
      split at hstep
      · obtain rfl := Except.ok.inj (Option.some.inj hstep)
        exact hinv.storeIndex ‹_›
      · exact absurd hstep (by simp)
    | load =>
      obtain ⟨t, hload, ht⟩ := Option.map_eq_some_iff.mp hstep
      obtain rfl := Except.ok.inj ht
      exact ⟨r, hinv.load hcap hload⟩

end UnlockedRun

/-- **The window without the lock**: however its loads fall between the stores of any number
    of reads, what is advertised lies between the window before the call and the one at its
    end if and only if the two loads of the index are on the same lap of the ring; otherwise
    it is one of the `capacity` greatest windows that sixteen bits can say. -/
theorem unlocked_window_iff {capacity : UInt32} {mem : Garbage} {fresh : Ptr → Segment}
    {isn : UInt32} (hcap : 2 ≤ capacity.toNat) (hcap' : capacity.toNat ≤ 2 ^ 15)
    (hnull : ∀ p, (fresh p).prev = none ∧ (fresh p).next = none)
    (hisn : isn.toNat + 1 < 2 ^ 32) {tr₀ : List (RecvBuffer × RecvCall)} {rb : RecvBuffer}
    (h₀ : Run (recvCalls capacity mem fresh isn) (fun _ => True) tr₀ rb)
    (hwrap : ∀ p ∈ tr₀, p.2.NoWrap) {tr : List (UnlockedRun × UnlockedLabel)} {s : UnlockedRun}
    (h : Run (unlockedFrom rb) (fun _ => True) tr s) {w : UInt32} (hdone : s.window = .done w) :
    ((recvBufferMaxReceive rb).toNat ≤ w.toUInt16.toNat ∧
      (getNextByteExpectedSeqnum rb).toNat + w.toUInt16.toNat ≤
        s.rb.lastByteReadSeqnum.toNat + capacity.toNat ↔ s.torn = false) ∧
    (s.torn = true → 2 ^ 16 - capacity.toNat ≤ w.toUInt16.toNat) := by
  obtain ⟨r₀, href, hr₀⟩ := recvCalls_refines hcap hnull hisn h₀ hwrap
  obtain ⟨r, hinv⟩ := UnlockedRun.Invariant.of_run href (by omega) h
  obtain ⟨-, -, -, hseq, hroom⟩ := hinv.fields
  have hloaded := hinv.loaded
  unfold UnlockedRun.Loaded at hloaded
  rw [hdone] at hloaded
  obtain ⟨p, hlo, hhi, hval⟩ := hloaded
  have hlast := hinv.last
  have hnext := hinv.next
  have hcapacity := hinv.capacity
  have hle₀ := r₀.next_le
  have hlt₀ := r₀.read_lt_next
  rw [href.recvBufferMaxReceive, href.getNextByteExpectedSeqnum, hseq, UInt32.toNat_toUInt16]
  cases htorn : s.torn with
  | false =>
    rw [htorn] at hval
    simp only [Bool.false_eq_true, if_false] at hval
    refine ⟨iff_of_true ?_ rfl, by simp⟩
    omega
  | true =>
    rw [htorn] at hval
    simp only [if_true] at hval
    refine ⟨iff_of_false ?_ (by simp), fun _ => ?_⟩
    · omega
    · omega

/-- A ring of four cells, all readable across its end, is read between the two loads: 65535
    bytes are advertised. -/
theorem unlocked_window_iff_torn : ∃ tr₀ rb tr s w,
    Run (recvCalls 4 (SocketEnv.zeroed 100).recvMem (SocketEnv.zeroed 100).freshSegment 100)
      (fun _ => True) tr₀ rb ∧ Run (unlockedFrom rb) (fun _ => True) tr s ∧
    s.window = .done w ∧ w.toUInt16 = 65535 ∧
    ¬ ((recvBufferMaxReceive rb).toNat ≤ w.toUInt16.toNat ∧
      (getNextByteExpectedSeqnum rb).toNat + w.toUInt16.toNat ≤
        s.rb.lastByteReadSeqnum.toNat + (4 : UInt32).toNat) := by
  obtain ⟨rb, hrb⟩ : ∃ rb, recvBufferInitialize (recvBufferCreate 4 (SocketEnv.zeroed 100).recvMem
      (SocketEnv.zeroed 100).freshSegment) 100 = .ok rb := ⟨_, rfl⟩
  have hinit : Run (recvCalls 4 (SocketEnv.zeroed 100).recvMem
      (SocketEnv.zeroed 100).freshSegment 100) (fun _ => True) [] rb := .init hrb trivial
  obtain rfl := Except.ok.inj hrb
  have hstart : ∀ {tr₀ rb}, Run (recvCalls 4 (SocketEnv.zeroed 100).recvMem
      (SocketEnv.zeroed 100).freshSegment 100) (fun _ => True) tr₀ rb →
      Run (unlockedFrom rb) (fun _ => True) [] ⟨rb, none, .compare, false⟩ :=
    fun _ => .init rfl trivial
  have h₀ := hinit.exec ([.receive 101 3 [1, 2, 3], .read 3, .receive 104 3 [4, 5, 6]] :
    List RecvCall) rfl
  have h := (hstart h₀).exec ([.load, .storeSeqnum 3, .storeIndex, .load, .load, .load] :
    List UnlockedLabel) rfl
  refine ⟨_, _, _, _, _, h₀, h, rfl, rfl, fun hbetween => ?_⟩
  have htorn := (unlocked_window_iff (by decide) (by decide) (fun _ => ⟨rfl, rfl⟩) (by decide) h₀
    (by decide) h rfl).1.mp hbetween
  exact absurd htorn (by decide)

end CmuTcp
