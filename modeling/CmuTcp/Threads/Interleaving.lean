import CmuTcp.Connection.Safety
import CmuTcp.Connection.Delivery
import CmuTcp.Threads.Locks

/-!
# Every Interleaving of the Threads

Between the critical sections of `handle_message` the two copies of the ack state disagree,
and the packet that it handles is neither in flight nor handled.  With the ack state that
the send buffer has, and the packet in hand put back among those in flight, two sockets
with their threads are two endpoints, and every step of a thread keeps the invariant of a
connection.

1. `Threads.endpoint` and `ThreadedSys.sys` are that view: what a thread still has to do with
   a packet in hand is, for the endpoint, a packet that has not arrived yet.
2. Each thing that a thread does to a buffer is what one of the streams does
   (`continues_ack`, `continues_take`, `continues_transmit`, `continues_write`,
   `continues_read`), and everything else leaves the streams as they are.
3. `ThreadedSys.Sound` is the invariant: the endpoints have that of a connection, the threads
   are where they can be, and the two ack states differ in between only.
4. There is one lemma for each critical section of the backend thread, one for the threads of
   the application, and one for the network; `ThreadedSys.Sound.step` collects them.
-/

namespace CmuTcp

open FaultSystem CircularBuffer

variable {T : Type}

/-! ## The threads as an endpoint -/

/-- The packet that the backend thread has read and not handled. -/
def LoopPc.hand : LoopPc → List Packet
  | .updateAck pkt => [pkt]
  | .receiveData pkt => [pkt]
  | _ => []

/-- What of the program counter matters to an endpoint: whether the thread leaves its loop,
    and whether the process has died. -/
def LoopPc.phase : LoopPc → BackendPc
  | .exitTest death => .exitTest death
  | .exited => .exited
  | .crashed => .crashed
  | _ => .loopTop

/-- The endpoint that the threads make up: its ack state is that of the send buffer, and
    what threads have left to write is none of its business. -/
def Threads.endpoint (h : Threads T) : Endpoint where
  sock := { h.sock with
    window := { h.sock.window with lastAckReceived := h.sock.sendBuf.lastByteAckedSeqnum + 1 } }
  pc := h.pc.phase
  pending := []
  passed := h.written.map Prod.snd
  delivered := h.read.map Prod.snd
  initCalls := []
  acksHandled := []
  strayed := h.strayed

/-- The two endpoints, and the packets in flight or in hand. -/
def ThreadedSys.sys (s : ThreadedSys T) : Sys where
  ep x := (s.host x).endpoint
  addr := s.addr
  net x := s.net x ++ (s.host x).pc.hand

theorem LoopPc.phase_eq (pc : LoopPc) : pc.phase ≠ .entry ∧
    (∀ packet, pc.phase ≠ .handshake packet) ∧
    (∀ death, pc.phase = .exitTest death ↔ pc = .exitTest death) ∧
    (pc.phase = .exited ↔ pc = .exited) ∧ (pc.phase = .crashed ↔ pc = .crashed) := by
  cases pc <;> simp [LoopPc.phase]

section Endpoint

variable {h : Threads T} {isn peerIsn : ℕ} {o : SendStream UInt8} {i : Reassembly}

/-- The ack state of the send buffer. -/
theorem toNat_acked_succ {sb : SendBuffer} (hsb : sb.Refines isn o)
    (hroom : isn + o.acked + 1 < 2 ^ 32) :
    (sb.lastByteAckedSeqnum + 1).toNat = isn + o.acked + 1 := by
  rw [UInt32.toNat_add, hsb.acked, UInt32.toNat_one]
  exact Nat.mod_eq_of_lt hroom

theorem Threads.endpoint_refines [DecidableEq T] (h₀ : h.Tidy) (hsb : h.sock.sendBuf.Refines isn o)
    (hrb : h.sock.recvBuf.Refines peerIsn i)
    (hnext : h.sock.window.nextSeqExpected.toNat = peerIsn + i.next)
    (hroom : isn + o.acked + 1 < 2 ^ 32) (hwritten : h.written.map Prod.snd = o.written)
    (hexited : h.pc = .exited → o.acked = o.written.length) :
    h.endpoint.Refines isn peerIsn o i := by
  obtain ⟨hentry, hhandshake, htest, hexit, hcrash⟩ := h.pc.phase_eq
  exact {
    sock := ⟨hsb, hrb, toNat_acked_succ hsb hroom, hnext⟩
    passed := hwritten.trans (List.append_nil _).symm
    pending := Nat.two_pow_pos 31
    notEntry := hentry
    notHandshake := hhandshake
    dying := fun _ => rfl
    leaving := fun hpc => h₀.leaving (hpc.imp (htest true).mp hexit.mp)
    exited := fun hpc => hexited (hexit.mp hpc)
    crashed := fun hpc => h₀.crashed (hcrash.mp hpc) }

end Endpoint

/-! ## Putting the threads back -/

section Put

variable {cfg : Config} {s t : ThreadedSys T} {out : Side → SendStream UInt8}
  {inn : Side → Reassembly} {x : Side} {h : Threads T} {packets : List Packet}
  {o : SendStream UInt8} {i : Reassembly}

theorem ThreadedSys.host_put_self : (s.put x h packets).host x = h :=
  Function.update_self ..

theorem ThreadedSys.host_put_other : (s.put x h packets).host x.other = s.host x.other :=
  Function.update_of_ne (Side.other_ne x) ..

/-- The threads of `x` go on to `h`, with a packet in hand that was in flight or in hand,
    and send `packets`. -/
theorem ThreadedSys.put_invariant (hs : s.sys.Invariant cfg out inn) (hhost : t.host = s.host)
    (hnet : ∀ y, ∀ p ∈ t.net y, p ∈ s.net y) (hhand : ∀ p ∈ h.pc.hand, p ∈ s.sys.net x)
    (hc : s.sys.Continues cfg out inn x h.endpoint [] o i)
    (hhonest : ∀ p ∈ packets,
      p.Honest (cfg.isn x).toNat (cfg.isn x.other).toNat o.sent i.next)
    (hslice : h.strayed = false → ∀ p ∈ packets, ∀ k n, p.Carries (cfg.isn x).toNat k n →
      IsSlice (fromOne o.written) k (getPayload p)) :
    (t.put x h packets).sys.Invariant cfg (Function.update out x o) (Function.update inn x i) := by
  have hne := Side.other_ne x
  have hhonest' : ∀ p ∈ packets, p.Honest (cfg.isn x).toNat (cfg.isn x.other).toNat
      (Function.update out x o x).sent (Function.update inn x i x).next := by
    simpa using hhonest
  -- the endpoint is put back first, and then the packets join those in flight
  have hput := (hs.put hc).send x hhonest' (by simpa [Threads.endpoint] using hslice)
  refine hput.of_net (funext (Side.forall_of x ?_ ?_)) (Side.forall_of x ?_ ?_)
  · simp [ThreadedSys.sys, ThreadedSys.put]
  · simp [ThreadedSys.sys, ThreadedSys.put, hhost]
  -- what flies to `x` has been there, or is the packet in hand
  · intro p hp
    simp only [ThreadedSys.sys, ThreadedSys.put, Function.update_self,
      Function.update_of_ne hne.symm, List.mem_append] at hp
    rw [Sys.net_put_self, Sys.net_put_self]
    rcases hp with hflying | hin
    · exact List.mem_append_left _ (hnet x p hflying)
    · exact hhand p hin
  -- what flies to its peer is what did, what is new, and what the peer has in hand
  · intro p hp
    simp only [ThreadedSys.sys, ThreadedSys.put, Function.update_self,
      Function.update_of_ne hne, List.mem_append, hhost] at hp
    rw [Sys.net_put_other, Sys.net_put_other, List.append_nil]
    rcases hp with (hflying | hnew) | hin
    · exact List.mem_append_left _ (List.mem_append_left _ (hnet x.other p hflying))
    · exact List.mem_append_right _ hnew
    · exact List.mem_append_left _ (List.mem_append_right _ hin)

theorem ThreadedSys.mem_net_takePacket {s : ThreadedSys T} {x y : Side} {k : ℕ} {p : Packet}
    (hp : p ∈ (s.takePacket x k).net y) : p ∈ s.net y := by
  by_cases hy : y = x
  · subst hy
    simp only [ThreadedSys.takePacket, Function.update_self] at hp
    exact List.mem_of_mem_eraseIdx hp
  · simpa only [ThreadedSys.takePacket, Function.update_of_ne hy] using hp

end Put

/-! ## What a step does to the streams -/

section Continues

variable [DecidableEq T] {cfg : Config} {s : ThreadedSys T} {out : Side → SendStream UInt8}
  {inn : Side → Reassembly} {x : Side} {h : Threads T}

omit [DecidableEq T] in
/-- The buffers hold what the endpoint refines. -/
theorem ThreadedSys.buffers (hs : s.sys.Invariant cfg out inn) (hw : s.sys.NoWrap) (x : Side) :
    (s.host x).sock.sendBuf.Refines (cfg.isn x).toNat (out x) ∧
      (s.host x).sock.recvBuf.Refines (cfg.isn x.other).toNat (inn x) ∧
      (s.host x).sock.window.nextSeqExpected.toNat = (cfg.isn x.other).toNat + (inn x).next ∧
      (s.host x).written.map Prod.snd = (out x).written ∧
      (cfg.isn x).toNat + (out x).written.length + 1 < 2 ^ 32 := by
  have href := hs.endpoint x
  have hroom := href.sock.sendBuf.noWrap (hw.sendBuf x)
  have hwritten := (out x).room
  have hpassed : (s.host x).written.map Prod.snd = (out x).written ++ [] := href.passed
  rw [List.append_nil] at hpassed
  exact ⟨href.sock.sendBuf, href.sock.recvBuf, href.sock.nextSeq, hpassed, by omega⟩

/-- Nothing happens to the streams. -/
theorem ThreadedSys.continues_same (hs : s.sys.Invariant cfg out inn) (hw : s.sys.NoWrap)
    (hsend : h.sock.sendBuf = (s.host x).sock.sendBuf)
    (hrecv : h.sock.recvBuf = (s.host x).sock.recvBuf)
    (hnext : h.sock.window.nextSeqExpected = (s.host x).sock.window.nextSeqExpected)
    (hwritten : h.written = (s.host x).written) (hread : h.read = (s.host x).read)
    (hstrayed : h.strayed = (s.host x).strayed) (htidy : h.Tidy)
    (hexited : h.pc = .exited → (out x).acked = (out x).written.length) :
    s.sys.Continues cfg out inn x h.endpoint [] (out x) (inn x) := by
  obtain ⟨hsb, hrb, hseq, hpassed, hroom⟩ := ThreadedSys.buffers hs hw x
  have hacked := (out x).acked_le_written
  exact {
    refines := Threads.endpoint_refines htidy (hsend ▸ hsb) (hrecv ▸ hrb) (hnext ▸ hseq)
      (by omega) (hwritten ▸ hpassed) hexited
    sendCapacity := rfl
    recvCapacity := rfl
    written := List.prefix_refl _
    sent := le_refl _
    next := le_refl _
    -- no stream moves, so every comparison of counters is the one before
    acked_lt := hs.acked_lt x
    within := by simpa using hs.within x.other
    sentFrom := by simp
    honest := by simp
    strayed := fun hx => hstrayed.symm.trans hx
    -- and so are the bytes: no buffer has changed
    stream := fun _ hlap => ⟨hlap, by simp⟩
    received := fun hx => by
      show h.sock.recvBuf.Holds _ _ ∧ h.read.map Prod.snd = _
      rw [hrecv, hread]
      exact hs.received x hx }

/-- `send_buffer_update_ack` takes the ack of a packet in hand. -/
theorem ThreadedSys.continues_ack (hs : s.sys.Invariant cfg out inn) (hw : s.sys.NoWrap)
    {pkt : Packet} (hpkt : pkt ∈ s.sys.net x) (now : Int) :
    ∃ sb a, ∃ ha : a ≤ (out x).sent,
      sendBufferUpdateAck (s.host x).sock.sendBuf pkt.header.ackNum now = .ok sb ∧
      pkt.header.ackNum.toNat = (cfg.isn x).toNat + a + 1 ∧
      sb.Refines (cfg.isn x).toNat ((out x).ack a ha) ∧
      ∀ h : Threads T, h.sock.sendBuf = sb → h.sock.recvBuf = (s.host x).sock.recvBuf →
        h.sock.window.nextSeqExpected = (s.host x).sock.window.nextSeqExpected →
        h.written = (s.host x).written → h.read = (s.host x).read →
        h.strayed = (s.host x).strayed → h.Tidy → h.pc ≠ .exited →
        s.sys.Continues cfg out inn x h.endpoint [] ((out x).ack a ha) (inn x) := by
  obtain ⟨hsb, hrb, hseq, hpassed, hroom⟩ := ThreadedSys.buffers hs hw x
  have hsent := (out x).sent_le_written
  have hacked := (out x).acked_le_written
  have hlt := hs.acked_lt x
  have hwithin := (hs.within x).next
  -- the packet in hand is one of those in flight to the endpoint, so it is honest
  have hhonest := hs.inFlight x.other
  rw [Side.other_other] at hhonest
  obtain ⟨a, hack, hpos, hle⟩ := (hhonest pkt hpkt).ack
  have ha : a - 1 ≤ (out x).sent := by omega
  have hnum : (pkt.header.ackNum - 1).toNat = (cfg.isn x).toNat + (a - 1) := by
    have := pkt.header.ackNum.toNat_lt
    rw [UInt32.toNat_sub, UInt32.toNat_one, hack]
    omega
  -- an honest packet acknowledges at most what has been sent, so the asserts hold
  obtain ⟨sb, hupdate, hsb', _⟩ := hsb.sendBufferUpdateAck (hw.sendBuf x)
    (show (pkt.header.ackNum - 1).toNat ≤ _ by omega) now
  have harg : (pkt.header.ackNum - 1).toNat - (cfg.isn x).toNat = a - 1 := by omega
  -- the stream takes the same ack
  simp only [harg] at hsb'
  refine ⟨sb, a - 1, ha, hupdate, by omega, hsb', ?_⟩
  intro h hsend hrecv hnext hwritten hread hstrayed htidy hexited
  -- only what is acknowledged changes
  exact {
    refines := Threads.endpoint_refines htidy (hsend ▸ hsb') (hrecv ▸ hrb) (hnext ▸ hseq)
      (show _ + max (out x).acked (a - 1) + 1 < _ by omega) (hwritten ▸ hpassed)
      (absurd · hexited)
    sendCapacity := rfl
    recvCapacity := rfl
    written := List.prefix_refl _
    sent := le_refl _
    next := le_refl _
    acked_lt := show max (out x).acked (a - 1) < _ by omega
    within := by simpa using hs.within x.other
    sentFrom := by simp
    honest := by simp
    strayed := fun hx => hstrayed.symm.trans hx
    stream := fun _ hlap => ⟨hlap, by simp⟩
    received := fun hx => by
      show h.sock.recvBuf.Holds _ _ ∧ h.read.map Prod.snd = _
      rw [hrecv, hread]
      exact hs.received x hx }

/-- `recv_buffer_receive` takes the data of a packet in hand, or refuses it. -/
theorem ThreadedSys.continues_take (hs : s.sys.Invariant cfg out inn) (hw : s.sys.NoWrap)
    {pkt : Packet} (hpkt : pkt ∈ s.sys.net x) (hlen : getPayloadLen pkt ≠ 0) :
    ∃ rb i, receivePayload (s.host x).sock.recvBuf pkt.header.seqNum
        (getPayloadLen pkt).toUInt32 (getPayload pkt) = .ok rb ∧
      ∀ h : Threads T, h.sock.sendBuf = (s.host x).sock.sendBuf → h.sock.recvBuf = rb →
        h.sock.window.nextSeqExpected = getNextByteExpectedSeqnum rb →
        h.written = (s.host x).written → h.read = (s.host x).read →
        h.strayed = (s.host x).strayed → h.Tidy → h.pc ≠ .exited →
        s.sys.Continues cfg out inn x h.endpoint [] (out x) i := by
  obtain ⟨hsb, hrb, hseq, hpassed, hroom⟩ := ThreadedSys.buffers hs hw x
  obtain ⟨_, _, _, _, hroom'⟩ := ThreadedSys.buffers hs hw x.other
  have hacked := (out x).acked_le_written
  have hsent := (out x.other).sent_le_written
  have hhonest := hs.inFlight x.other
  have hwithin := hs.within x.other
  rw [Side.other_other] at hhonest hwithin
  -- the packet in hand is honest, and it has data
  have hp := hhonest pkt hpkt
  obtain ⟨k, hcar, _, hkn⟩ := hp.data hlen
  obtain ⟨rb, i, reply, hpayload, htakes, _⟩ := handlePayload_spec (s.host x).sock hrb hcar
    (by omega) (le_of_eq hp.payload.symm)
  -- `handle_message` takes data by `receivePayload`, of which it is known what it does
  obtain ⟨rb', hreceive, hret⟩ := ok_of_bind_ok hpayload
  obtain ⟨hsock, _⟩ := Prod.mk.inj (Except.ok.inj hret)
  obtain rfl : rb' = rb := congrArg CmuSocket.recvBuf hsock
  refine ⟨rb', i, hreceive, ?_⟩
  intro h hsend hrecv hnext hwritten hread hstrayed htidy hexited
  exact {
    refines := Threads.endpoint_refines htidy (hsend ▸ hsb) (hrecv ▸ htakes.refines)
      (by rw [hnext]; exact htakes.refines.getNextByteExpectedSeqnum) (by omega)
      (hwritten ▸ hpassed) (absurd · hexited)
    sendCapacity := rfl
    recvCapacity := htakes.capacity
    written := List.prefix_refl _
    sent := le_refl _
    next := htakes.next_le
    acked_lt := hs.acked_lt x
    within := htakes.within hp hwithin
    sentFrom := by simp
    honest := by simp
    strayed := fun hx => hstrayed.symm.trans hx
    stream := fun _ hlap => ⟨hlap, by simp⟩
    -- its bytes are those of the stream if the peer has never strayed
    received := fun hx => by
      obtain ⟨hholds, hdelivered⟩ := hs.received x hx
      have hf := hs.faithful x.other hx
      rw [Side.other_other] at hf
      show h.sock.recvBuf.Holds _ _ ∧ h.read.map Prod.snd = _
      rw [hrecv, hread, htakes.read]
      exact ⟨htakes.holds hrb hholds hp.payload (hf.inFlight pkt hpkt), hdelivered⟩ }

/-- The sending part of an iteration, whatever it sees of the receive buffer. -/
theorem ThreadedSys.continues_transmit (hs : s.sys.Invariant cfg out inn) (hw : s.sys.NoWrap)
    (x : Side) (rb : RecvBuffer) (now : Int) (beyond : ℕ → UInt8) :
    ∃ sent o, transmit { (s.host x).sock with recvBuf := rb } now beyond = .ok sent ∧
      (∀ p ∈ sent.packets,
        p.Honest (cfg.isn x).toNat (cfg.isn x.other).toNat o.sent (inn x).next) ∧
      (sent.inBounds = true → ∀ p ∈ sent.packets, ∀ k n, p.Carries (cfg.isn x).toNat k n →
        IsSlice (fromOne o.written) k (getPayload p)) ∧
      sent.sendBuf.lastByteAckedSeqnum = (s.host x).sock.sendBuf.lastByteAckedSeqnum ∧
      ∀ h : Threads T, h.sock.sendBuf = sent.sendBuf →
        h.sock.recvBuf = (s.host x).sock.recvBuf →
        h.sock.window.nextSeqExpected = (s.host x).sock.window.nextSeqExpected →
        h.written = (s.host x).written → h.read = (s.host x).read →
        h.strayed = ((s.host x).strayed || !sent.inBounds) → h.Tidy → h.pc ≠ .exited →
        s.sys.Continues cfg out inn x h.endpoint [] o (inn x) := by
  obtain ⟨hsb, hrb, hseq, hpassed, hroom⟩ := ThreadedSys.buffers hs hw x
  have hacked := (out x).acked_le_written
  have hsb' : ({ (s.host x).sock with recvBuf := rb } : CmuSocket).sendBuf.Refines
      (cfg.isn x).toNat (out x) := hsb
  -- what the sending part does does not depend on the receive buffer, which may be torn here
  obtain ⟨sent, m, htransmit, hdone⟩ := transmit_spec hsb' (hw.sendBuf x) now beyond
  have hsends := hdone.packets
  have hdump := hdone.sendBuf
  refine ⟨sent, (out x).dump _ hdone.written, htransmit, fun p hp => ?_,
    fun hin p hp k n hcar => ?_, UInt32.toNat_inj.mp (hdump.acked.trans hsb.acked.symm), ?_⟩
  -- the packets are data packets of the stream, with the ack of what is expected
  · obtain ⟨hfrom, k, n, hcar, hlo, hhi, _⟩ := hsends p hp
    obtain rfl := hcar.len
    exact ⟨hfrom.flags, hfrom.payload, fun _ => ⟨k, hcar, by omega, hhi⟩, (inn x).next,
      by rw [hfrom.ack, hseq], lt_of_le_of_lt (Nat.zero_le _) (inn x).read_lt_next, le_refl _⟩
  · obtain ⟨_, k', n', hcar', _, _, hslice⟩ := hsends p hp
    obtain rfl : k' = k := Nat.add_left_cancel (hcar'.seq.symm.trans hcar.seq)
    exact hslice hin
  · intro h hsend hrecv hnext hwritten hread hstrayed htidy hexited
    -- the thread has not strayed before, and not in this step
    have hboth : h.strayed = false ↔ (s.host x).strayed = false ∧ sent.inBounds = true := by
      rw [hstrayed, Bool.or_eq_false_iff, Bool.not_eq_false']
    exact {
      refines := Threads.endpoint_refines htidy (hsend ▸ hdump) (hrecv ▸ hrb) (hnext ▸ hseq)
        (show _ + (out x).acked + 1 < _ by omega) (hwritten ▸ hpassed) (absurd · hexited)
      sendCapacity := rfl
      recvCapacity := rfl
      written := List.prefix_refl _
      sent := Nat.le_add_right _ _
      next := le_refl _
      acked_lt := hs.acked_lt x
      within := by simpa using hs.within x.other
      sentFrom := by simp
      honest := by simp
      strayed := fun hx => (hboth.mp hx).1
      -- bytes that are sent for the first time on the first lap end on it
      stream := fun hx hfirst => ⟨lt_of_le_of_lt (Nat.add_le_add_left hdone.le _)
        ((hdone.lap hfirst).mp (hboth.mp hx).2), by simp⟩
      received := fun hx => by
        show h.sock.recvBuf.Holds _ _ ∧ h.read.map Prod.snd = _
        rw [hrecv, hread]
        exact hs.received x hx }

/-- An iteration of the loop of `cmu_write`. -/
theorem ThreadedSys.continues_write (hs : s.sys.Invariant cfg out inn) (hw : s.sys.NoWrap)
    (x : Side) {buf : List UInt8} (hbuf : buf.length < 2 ^ 31) :
    ∃ rest sb o, cmuWriteIteration (s.host x).sock buf =
        .ok (rest, { (s.host x).sock with sendBuf := sb }) ∧
      sb.lastByteAckedSeqnum = (s.host x).sock.sendBuf.lastByteAckedSeqnum ∧
      ∀ (h : Threads T) (t : T), h.sock = { (s.host x).sock with sendBuf := sb } →
        h.written =
          (s.host x).written ++ (buf.take (buf.length - rest.length)).map (t, ·) →
        h.read = (s.host x).read → h.strayed = (s.host x).strayed → h.Tidy → h.pc ≠ .exited →
        s.sys.Continues cfg out inn x h.endpoint [] o (inn x) := by
  obtain ⟨hsb, hrb, hseq, hpassed, hroom⟩ := ThreadedSys.buffers hs hw x
  have hacked := (out x).acked_le_written
  obtain ⟨n, sb, hn, hmin, hwrite, hsb', hsame, _⟩ := cmuWriteIteration_refines hsb
    (hsb.indicesFit (hw.sendBuf x)) (lt_trans hbuf (by decide))
  refine ⟨buf.drop n, sb, (out x).write (buf.take n) hn, hwrite, hsame, ?_⟩
  intro h t hsock hwritten hread hstrayed htidy hexited
  -- what has been written is what `cmu_write` has taken off the front of its buffer
  have htake : buf.take (buf.length - (buf.drop n).length) = buf.take n := by
    rw [List.length_drop, List.take_eq_take_iff]
    omega
  rw [htake] at hwritten
  exact {
    refines := Threads.endpoint_refines htidy (by rw [hsock]; exact hsb')
      (by rw [hsock]; exact hrb) (by rw [hsock]; exact hseq)
      -- the tags of the threads do not matter to the stream
      (show _ + (out x).acked + 1 < _ by omega) (by
        rw [hwritten, List.map_append, map_snd_tag, hpassed]
        rfl) (absurd · hexited)
    sendCapacity := rfl
    recvCapacity := rfl
    written := List.prefix_append _ _
    sent := le_refl _
    next := le_refl _
    acked_lt := hs.acked_lt x
    within := by simpa using hs.within x.other
    sentFrom := by simp
    honest := by simp
    strayed := fun hx => hstrayed.symm.trans hx
    stream := fun _ hlap => ⟨hlap, by simp⟩
    received := fun hx => by
      show h.sock.recvBuf.Holds _ _ ∧ h.read.map Prod.snd = _
      rw [hsock, hread]
      exact hs.received x hx }

/-- A call of `cmu_read` takes the next bytes. -/
theorem ThreadedSys.continues_read (hs : s.sys.Invariant cfg out inn) (hw : s.sys.NoWrap)
    (x : Side) (length : Int) (flags : CmuReadMode) :
    ∃ count data rb i, cmuRead (s.host x).sock length flags =
        .ok (count, data, { (s.host x).sock with recvBuf := rb }) ∧
      ∀ (h : Threads T) (t : T), h.sock = { (s.host x).sock with recvBuf := rb } →
        h.written = (s.host x).written → h.read = (s.host x).read ++ data.map (t, ·) →
        h.strayed = (s.host x).strayed → h.Tidy →
        (h.pc = .exited → (out x).acked = (out x).written.length) →
        s.sys.Continues cfg out inn x h.endpoint [] (out x) i := by
  obtain ⟨hsb, hrb, hseq, hpassed, hroom⟩ := ThreadedSys.buffers hs hw x
  have hacked := (out x).acked_le_written
  obtain ⟨count, n, hn, rb, hread, hrb', hbuf⟩ := cmuRead_spec hrb length flags
  refine ⟨count, _, rb, (inn x).consume n hn, hread, ?_⟩
  intro h t hsock hwritten hdata hstrayed htidy hexited
  have hwithin : (inn x).Within (out x.other).sent := by simpa using hs.within x.other
  exact {
    refines := Threads.endpoint_refines htidy (by rw [hsock]; exact hsb)
      (by rw [hsock]; exact hrb') (by rw [hsock]; exact hseq) (by omega) (hwritten ▸ hpassed)
      hexited
    sendCapacity := rfl
    recvCapacity := rfl
    written := List.prefix_refl _
    sent := le_refl _
    next := le_refl _
    acked_lt := hs.acked_lt x
    within := ⟨hwithin.next, hwithin.held⟩
    sentFrom := by simp
    honest := by simp
    strayed := fun hx => hstrayed.symm.trans hx
    stream := fun _ hlap => ⟨hlap, by simp⟩
    received := fun hx => by
      obtain ⟨hholds, hdelivered⟩ := hs.received x hx
      obtain ⟨hlen, hslice⟩ := hholds.readWrap hrb hn
      show h.sock.recvBuf.Holds _ _ ∧ h.read.map Prod.snd = _
      rw [hsock, hdata, List.map_append, map_snd_tag]
      refine ⟨hholds.consume hn hbuf, ?_⟩
      -- what is returned is the next stretch of what was written
      have hsent := (out x.other).sent_le_written
      have hnext := hwithin.next
      have htake := take_append_of_isSlice hslice (by rw [hlen]; omega)
      rw [hlen] at htake
      have hdelivered' : (s.host x).read.map Prod.snd = (out x.other).written.take (inn x).read :=
        hdelivered
      rw [hdelivered']
      exact htake }

end Continues

/-! ## What the thread has in hand -/

/-- A packet arrives: the asserts hold, and the thread has it in hand. -/
theorem handleArrival_spec {sock : CmuSocket} {pkt : Packet}
    (hflags : pkt.header.flags = ackFlagMask) : handleArrival sock pkt = .ok
      (if pkt.header.ackNum = sock.window.lastAckReceived then takeWindow sock pkt
        else ({ sock with
          window := { sock.window with
            lastAckReceived := cMax sock.window.lastAckReceived pkt.header.ackNum } },
          .updateAck pkt)) := by
  have hflag : ∀ mask, pkt.hasFlag mask = (ackFlagMask &&& mask != 0) := by
    intro mask
    rw [Packet.hasFlag, hflags]
  have hack : pkt.hasFlag ackFlagMask = true := (hflag _).trans (by decide)
  have hsyn : (!pkt.hasFlag synFlagMask) = true := by
    rw [hflag]
    decide
  have hfin : ¬ pkt.hasFlag finFlagMask = true := by
    rw [hflag]
    decide
  unfold handleArrival
  rw [cAssert_of hack, cAssert_of hsyn, if_neg hfin]
  by_cases hdup : pkt.header.ackNum = sock.window.lastAckReceived
  · rw [if_pos hdup, if_pos hdup]
    rfl
  · rw [if_neg hdup, if_neg hdup]
    rfl

/-- After the ack of a packet its data is next, if it has any. -/
theorem takeWindow_pc (sock : CmuSocket) (pkt : Packet) :
    (∀ p, (takeWindow sock pkt).2 ≠ .updateAck p) ∧
      (∀ p ∈ (takeWindow sock pkt).2.hand, p = pkt) ∧
      ∀ p, (takeWindow sock pkt).2 = .receiveData p → getPayloadLen p ≠ 0 := by
  unfold takeWindow
  dsimp only
  split
  · rename_i hdata
    refine ⟨by simp, by simp [LoopPc.hand], fun p hp => ?_⟩
    obtain rfl := LoopPc.receiveData.inj hp
    exact hdata
  · exact ⟨by simp, by simp [LoopPc.hand], by simp⟩

/-- The greater of two ack numbers. -/
theorem toNat_cMax (a b : UInt32) : (cMax a b).toNat = max a.toNat b.toNat := by
  unfold cMax
  split
  · rename_i hgt
    rw [gt_iff_lt, UInt32.lt_iff_toNat_lt] at hgt
    omega
  · rename_i hgt
    rw [gt_iff_lt, UInt32.lt_iff_toNat_lt] at hgt
    omega

/-- What `last_ack_received` is: one past the last byte acknowledged, or about to be. -/
def Threads.lastAck (h : Threads T) : UInt32 :=
  match h.pc with
  | .updateAck pkt => cMax (h.sock.sendBuf.lastByteAckedSeqnum + 1) pkt.header.ackNum
  | _ => h.sock.sendBuf.lastByteAckedSeqnum + 1

theorem Threads.lastAck_of {h : Threads T} (hpc : ∀ pkt, h.pc ≠ .updateAck pkt) :
    h.lastAck = h.sock.sendBuf.lastByteAckedSeqnum + 1 := by
  unfold Threads.lastAck
  split
  · exact absurd ‹_› (hpc _)
  · rfl

/-! ## The invariant -/

variable [DecidableEq T]

/-- The endpoints that the threads make up have the invariant of a connection, and the
    threads are where they can be. -/
structure ThreadedSys.Sound (s : ThreadedSys T) (cfg : Config) (out : Side → SendStream UInt8)
    (inn : Side → Reassembly) : Prop where
  sys : s.sys.Invariant cfg out inn
  tidy : ∀ x, (s.host x).Tidy
  lastAck : ∀ x, (s.host x).sock.window.lastAckReceived = (s.host x).lastAck
  hasData : ∀ x pkt, (s.host x).pc = .receiveData pkt → getPayloadLen pkt ≠ 0

section Steps

variable {cfg : Config} {s t : ThreadedSys T} {out : Side → SendStream UInt8}
  {inn : Side → Reassembly} {x : Side} {h : Threads T} {packets : List Packet}
  {o : SendStream UInt8} {i : Reassembly}

theorem ThreadedSys.Sound.put (hs : s.Sound cfg out inn) (hhost : t.host = s.host)
    (hnet : ∀ y, ∀ p ∈ t.net y, p ∈ s.net y) (hhand : ∀ p ∈ h.pc.hand, p ∈ s.sys.net x)
    (hc : s.sys.Continues cfg out inn x h.endpoint [] o i)
    (hhonest : ∀ p ∈ packets,
      p.Honest (cfg.isn x).toNat (cfg.isn x.other).toNat o.sent i.next)
    (hslice : h.strayed = false → ∀ p ∈ packets, ∀ k n, p.Carries (cfg.isn x).toNat k n →
      IsSlice (fromOne o.written) k (getPayload p))
    (htidy : h.Tidy) (hlast : h.sock.window.lastAckReceived = h.lastAck)
    (hdata : ∀ pkt, h.pc = .receiveData pkt → getPayloadLen pkt ≠ 0) :
    ∃ out' inn', (t.put x h packets).Sound cfg out' inn' := by
  have hother : (t.put x h packets).host x.other = s.host x.other :=
    ThreadedSys.host_put_other.trans (congrFun hhost _)
  refine ⟨_, _, ThreadedSys.put_invariant hs.sys hhost hnet hhand hc hhonest hslice,
    Side.forall_of x ?_ ?_, Side.forall_of x ?_ ?_, Side.forall_of x ?_ ?_⟩
  · rwa [ThreadedSys.host_put_self]
  · rw [hother]
    exact hs.tidy x.other
  · rwa [ThreadedSys.host_put_self]
  · rw [hother]
    exact hs.lastAck x.other
  · rwa [ThreadedSys.host_put_self]
  · rw [hother]
    exact hs.hasData x.other

/-- A thread goes on without a packet, and leaves the streams alone. -/
theorem ThreadedSys.Sound.quiet (hs : s.Sound cfg out inn) (hw : s.sys.NoWrap)
    (hsock : h.sock = (s.host x).sock) (hwritten : h.written = (s.host x).written)
    (hread : h.read = (s.host x).read) (hstrayed : h.strayed = (s.host x).strayed)
    (htidy : h.Tidy) (hhand : h.pc.hand = [] ∨ h.pc = (s.host x).pc)
    (hlast : h.lastAck = (s.host x).lastAck)
    (hexited : h.pc = .exited → (out x).acked = (out x).written.length) :
    ∃ out' inn', (s.put x h []).Sound cfg out' inn' := by
  refine hs.put rfl (fun _ _ hp => hp) ?_ (ThreadedSys.continues_same hs.sys hw (by rw [hsock])
    (by rw [hsock]) (by rw [hsock]) hwritten hread hstrayed htidy hexited) (by simp)
    (by simp) htidy ?_ ?_
  · intro p hp
    rcases hhand with hnone | hsame
    · rw [hnone] at hp
      exact absurd hp (by simp)
    · rw [hsame] at hp
      exact List.mem_append_right _ hp
  · rw [hsock, hlast]
    exact hs.lastAck x
  · intro pkt hpc
    rcases hhand with hnone | hsame
    · rw [hpc] at hnone
      exact absurd hnone (by simp [LoopPc.hand])
    · exact hs.hasData x pkt (hsame ▸ hpc)

/-- A thread that has left its loop has left nothing behind. -/
theorem ThreadedSys.Sound.exited (hs : s.Sound cfg out inn) (x : Side)
    (hpc : (s.host x).pc = .exited) : (out x).acked = (out x).written.length :=
  (hs.sys.endpoint x).exited ((s.host x).pc.phase_eq.2.2.2.1.mpr hpc)

/-! ## The backend thread -/

variable {now : Int} {beyond : ℕ → UInt8} {torn : Option RecvBuffer} {k : ℕ}
  {r : Except Fault (Threads T × List Packet)}

/-- The thread takes an ack: the two copies of the ack state agree again. -/
theorem ThreadedSys.Sound.updateAck (hs : s.Sound cfg out inn) (hw : s.sys.NoWrap) {pkt : Packet}
    (hpc : (s.host x).pc = .updateAck pkt)
    (hstep : (s.host x).proceed now beyond torn k = some r)
    (htidy : ∀ h' packets, r = .ok (h', packets) → h'.Tidy) :
    ∃ h' packets, r = .ok (h', packets) ∧
      ∃ out' inn', (s.put x h' packets).Sound cfg out' inn' := by
  have hhand : pkt ∈ s.sys.net x :=
    List.mem_append_right _ (by rw [hpc]; exact List.mem_singleton_self _)
  obtain ⟨sb, a, ha, hupdate, hack, hsb, hc⟩ := ThreadedSys.continues_ack hs.sys hw hhand now
  unfold Threads.proceed at hstep
  rw [hpc] at hstep
  dsimp only at hstep
  rw [hupdate] at hstep
  obtain rfl := Option.some.inj hstep
  -- behind the ack comes the data, or the window if there is none
  obtain ⟨hnot, hsame, hdata⟩ := takeWindow_pc { (s.host x).sock with sendBuf := sb } pkt
  have hstays := takeWindow_stays { (s.host x).sock with sendBuf := sb } pkt
  refine ⟨_, _, rfl, hs.put rfl (fun _ _ hp => hp) (fun p hp => ?_)
    (hc _ rfl rfl rfl rfl rfl rfl (htidy _ _ rfl) hstays.exited) (by simp) (by simp)
    (htidy _ _ rfl) ?_ hdata⟩
  · rw [hsame p hp]
    exact hhand
  -- `last_ack_received` was ahead of the send buffer, which has caught up with it now
  · rw [Threads.lastAck_of hnot]
    show (s.host x).sock.window.lastAckReceived = sb.lastByteAckedSeqnum + 1
    obtain ⟨holdsb, _, _, _, hroom⟩ := ThreadedSys.buffers hs.sys hw x
    have hacked := (out x).acked_le_written
    have hsent := (out x).sent_le_written
    have hnew : (sb.lastByteAckedSeqnum + 1).toNat =
        (cfg.isn x).toNat + max (out x).acked a + 1 :=
      toNat_acked_succ hsb (show _ + max (out x).acked a + 1 < _ by omega)
    rw [hs.lastAck x, Threads.lastAck, hpc]
    apply UInt32.toNat_inj.mp
    rw [toNat_cMax, toNat_acked_succ holdsb (by omega), hnew, hack]
    omega

/-- The thread takes the data of a packet, or refuses it. -/
theorem ThreadedSys.Sound.receiveData (hs : s.Sound cfg out inn) (hw : s.sys.NoWrap)
    {pkt : Packet} (hpc : (s.host x).pc = .receiveData pkt)
    (hstep : (s.host x).proceed now beyond torn k = some r)
    (htidy : ∀ h' packets, r = .ok (h', packets) → h'.Tidy) :
    ∃ h' packets, r = .ok (h', packets) ∧
      ∃ out' inn', (s.put x h' packets).Sound cfg out' inn' := by
  have hhand : pkt ∈ s.sys.net x :=
    List.mem_append_right _ (by rw [hpc]; exact List.mem_singleton_self _)
  obtain ⟨rb, i, hreceive, hc⟩ := ThreadedSys.continues_take hs.sys hw hhand (hs.hasData x pkt hpc)
  unfold Threads.proceed at hstep
  rw [hpc] at hstep
  obtain ⟨woken, hwoken, hret⟩ := Option.map_eq_some_iff.mp hstep
  obtain ⟨waiters, rfl, _⟩ := Threads.signal_or hwoken
  dsimp only at hret
  rw [hreceive] at hret
  subst hret
  -- the thread has no packet in hand any more: its data is in the ring, or refused
  refine ⟨_, _, rfl, hs.put rfl (fun _ _ hp => hp) (by simp [Threads.unlock, LoopPc.hand])
    (hc _ rfl rfl rfl rfl rfl rfl (htidy _ _ rfl) (by simp [Threads.unlock])) (by simp) (by simp)
    (htidy _ _ rfl) ?_ (by simp [Threads.unlock])⟩
  rw [Threads.lastAck_of (by simp [Threads.unlock])]
  refine (hs.lastAck x).trans (Threads.lastAck_of ?_)
  simp [hpc]

/-- The thread answers a packet with the window that it finds. -/
theorem ThreadedSys.Sound.answer (hs : s.Sound cfg out inn) (hw : s.sys.NoWrap)
    (hpc : (s.host x).pc = .answer) (hstep : (s.host x).proceed now beyond torn k = some r)
    (htidy : ∀ h' packets, r = .ok (h', packets) → h'.Tidy) :
    ∃ h' packets, r = .ok (h', packets) ∧
      ∃ out' inn', (s.put x h' packets).Sound cfg out' inn' := by
  obtain ⟨reply, hreply, hfrom, hnone⟩ := pureAck_eq (s.host x).sock
  unfold Threads.proceed at hstep
  rw [hpc] at hstep
  dsimp only at hstep
  rw [hreply] at hstep
  obtain rfl := Option.some.inj hstep
  obtain ⟨_, _, hseq, _, _⟩ := ThreadedSys.buffers hs.sys hw x
  refine ⟨_, _, rfl, hs.put rfl (fun _ _ hp => hp) (by simp [Threads.unlock, LoopPc.hand])
    (ThreadedSys.continues_same hs.sys hw rfl rfl rfl rfl rfl rfl (htidy _ _ rfl)
      (by simp [Threads.unlock])) ?_ ?_ (htidy _ _ rfl) ?_ (by simp [Threads.unlock])⟩
  -- the answer is a pure ACK of the byte expected
  · intro p hp
    obtain rfl := List.mem_singleton.mp hp
    exact ⟨hfrom.flags, hfrom.payload, fun hne => absurd hnone hne, (inn x).next,
      by rw [hfrom.ack, hseq], lt_of_le_of_lt (Nat.zero_le _) (inn x).read_lt_next, le_refl _⟩
  -- it has no data, so there are no bytes to compare
  · intro _ p hp j n hcar
    obtain rfl := List.mem_singleton.mp hp
    exact absurd hnone hcar.len_ne_zero
  · rw [Threads.lastAck_of (by simp [Threads.unlock])]
    exact (hs.lastAck x).trans (Threads.lastAck_of (by simp [hpc]))

/-- The sending part of an iteration. -/
theorem ThreadedSys.Sound.transmit (hs : s.Sound cfg out inn) (hw : s.sys.NoWrap)
    (hpc : (s.host x).pc = .transmit) (hstep : (s.host x).proceed now beyond torn k = some r)
    (htidy : ∀ h' packets, r = .ok (h', packets) → h'.Tidy) :
    ∃ h' packets, r = .ok (h', packets) ∧
      ∃ out' inn', (s.put x h' packets).Sound cfg out' inn' := by
  unfold Threads.proceed at hstep
  rw [hpc] at hstep
  obtain ⟨rb, _, hret⟩ := Option.map_eq_some_iff.mp hstep
  obtain ⟨sent, o, htransmit, hhonest, hslice, hacked, hc⟩ :=
    ThreadedSys.continues_transmit hs.sys hw x rb now beyond
  rw [htransmit] at hret
  -- wherever the thread goes, it has the send buffer and the packets
  have hgoes : ∀ {pc : LoopPc} {holder : Mutex → Option (Thread T)}, pc.hand = [] →
      pc ≠ .exited → r = .ok ({ s.host x with
        sock := { (s.host x).sock with sendBuf := sent.sendBuf }, pc := pc, holder := holder,
        strayed := (s.host x).strayed || !sent.inBounds }, sent.packets) →
      ∃ h' packets, r = .ok (h', packets) ∧
        ∃ out' inn', (s.put x h' packets).Sound cfg out' inn' := by
    intro pc holder hhand hexited hr
    have hnot : ∀ pkt, pc ≠ .updateAck pkt := fun pkt hpc' => by
      rw [hpc'] at hhand
      exact absurd hhand (by simp [LoopPc.hand])
    refine ⟨_, _, hr, hs.put rfl (fun _ _ hp => hp) (fun p hp => ?_)
      (hc _ rfl rfl rfl rfl rfl rfl (htidy _ _ hr) hexited) hhonest (fun hx => hslice ?_)
      (htidy _ _ hr) ?_ fun pkt hpc' => ?_⟩
    · rw [hhand] at hp
      exact absurd hp (by simp)
    · simpa using (Bool.or_eq_false_iff.mp hx).2
    · rw [Threads.lastAck_of hnot]
      show _ = sent.sendBuf.lastByteAckedSeqnum + 1
      rw [hacked]
      exact (hs.lastAck x).trans (Threads.lastAck_of (by simp [hpc]))
    · rw [show pc = .receiveData pkt from hpc'] at hhand
      exact absurd hhand (by simp [LoopPc.hand])
  change (if sent.fault = none then _ else _) = r at hret
  split at hret
  · exact hgoes rfl (by simp) hret.symm
  · exact hgoes rfl (by simp) hret.symm

/-- **Every step** of the backend thread succeeds. -/
theorem ThreadedSys.Sound.backend (hs : s.Sound cfg out inn) (hw : s.sys.NoWrap)
    (hstep : (s.host x).backend now beyond torn k = some r) :
    ∃ h' packets, r = .ok (h', packets) ∧
      ∃ out' inn', (s.put x h' packets).Sound cfg out' inn' := by
  have htidy : ∀ h' packets, r = .ok (h', packets) → h'.Tidy := fun h' packets hr =>
    (hs.tidy x).backendStep (Threads.backend_ok (hstep.trans (congrArg some hr)))
  unfold Threads.backend at hstep
  split at hstep
  case isFalse => exact absurd hstep (by simp)
  case isTrue =>
    -- what a thread that has nothing in hand does without the streams
    have hquiet : ∀ {pc pc' : LoopPc} {holder : Mutex → Option (Thread T)} {waiters : List T},
        (s.host x).pc = pc → (∀ pkt, pc ≠ .updateAck pkt) → (∀ pkt, pc' ≠ .updateAck pkt) →
        pc'.hand = [] → (pc' = .exited → (out x).acked = (out x).written.length) →
        r = .ok ({ s.host x with pc := pc', holder := holder, waiters := waiters }, []) →
        ∃ h' packets, r = .ok (h', packets) ∧
          ∃ out' inn', (s.put x h' packets).Sound cfg out' inn' := by
      intro pc pc' holder waiters hpc hnot hnot' hhand hexited hr
      refine ⟨_, _, hr, hs.quiet hw rfl rfl rfl rfl (htidy _ _ hr) (Or.inl hhand) ?_ hexited⟩
      rw [Threads.lastAck_of hnot', Threads.lastAck_of (hpc ▸ hnot)]
    have hproceed := hstep
    unfold Threads.proceed at hstep
    split at hstep
    -- the top of the loop
    case h_1 hpc =>
      exact hquiet hpc (by simp) (by simp) rfl (by simp) (Option.some.inj hstep).symm
    -- the exit test: a thread that leaves has everything acknowledged
    case h_2 death hpc =>
      refine hquiet hpc (by simp) ?_ ?_ ?_ (Option.some.inj hstep).symm
      · split <;> simp
      · split <;> rfl
      · intro hexited
        split at hexited
        · rename_i htest
          exact ((exitTest_iff (hs.sys.endpoint x).sock (hw.sendBuf x) death).mp htest).2
        · exact absurd hexited (by simp)
    -- no packet has arrived
    case h_3 hpc =>
      exact hquiet hpc (by simp) (by simp) rfl (by simp) (Option.some.inj hstep).symm
    case h_4 pkt hpc => exact hs.updateAck hw hpc hproceed htidy
    case h_5 pkt hpc => exact hs.receiveData hw hpc hproceed htidy
    case h_6 hpc => exact hs.answer hw hpc hproceed htidy
    case h_7 hpc => exact hs.transmit hw hpc hproceed htidy
    -- `recv_lock` is given back, and what there is to read is known
    case h_8 hpc =>
      exact hquiet hpc (by simp) (by simp) rfl (by simp) (Option.some.inj hstep).symm
    -- a reader may be woken
    case h_9 available hpc =>
      obtain ⟨woken, hwoken, hret⟩ := Option.map_eq_some_iff.mp hstep
      obtain ⟨waiters, rfl, _⟩ := Threads.signal_or hwoken
      exact hquiet hpc (by simp) (by simp) rfl (by simp) hret.symm
    -- a thread that has left, and a process that has died, take no step
    case h_10 => exact absurd hstep (by simp)
    case h_11 => exact absurd hstep (by simp)

/-- **A packet arrives**: the asserts hold. -/
theorem ThreadedSys.Sound.receive (hs : s.Sound cfg out inn) (hw : s.sys.NoWrap) {pkt : Packet}
    (hpkt : (s.net x)[k]? = some pkt) {source : SockAddr} {r : Except Fault (Threads T)}
    (hstep : (s.host x).receive source pkt = some r) :
    ∃ h', r = .ok h' ∧ ∃ out' inn', ((s.takePacket x k).put x h' []).Sound cfg out' inn' := by
  have hflying := List.mem_of_getElem? hpkt
  have hhand : pkt ∈ s.sys.net x := List.mem_append_left _ hflying
  have hhonest := hs.sys.inFlight x.other
  rw [Side.other_other] at hhonest
  have hflags := (hhonest pkt hhand).flags
  have htidy : ∀ h', r = .ok h' → h'.Tidy := fun h' hr =>
    (hs.tidy x).backendStep (Threads.receive_ok (hstep.trans (congrArg some hr))).1
  have hrest : ∀ y, ∀ p ∈ (s.takePacket x k).net y, p ∈ s.net y := fun _ _ hp =>
    ThreadedSys.mem_net_takePacket hp
  unfold Threads.receive at hstep
  split at hstep
  case h_2 => exact absurd hstep (by simp)
  case h_1 hpc =>
    have hlast := (hs.lastAck x).trans (Threads.lastAck_of (by simp [hpc]))
    obtain ⟨hnot, hsame, hdata⟩ := takeWindow_pc ((s.host x).sock.heardFrom source) pkt
    have hexited := (takeWindow_stays ((s.host x).sock.heardFrom source) pkt).exited
    rw [handleArrival_spec hflags] at hstep
    -- a repeated ack is not looked at, and the data is next
    by_cases hdup : pkt.header.ackNum = ((s.host x).sock.heardFrom source).window.lastAckReceived
    · rw [if_pos hdup] at hstep
      obtain rfl := Option.some.inj hstep
      have htidy' := htidy _ rfl
      refine ⟨_, rfl, hs.put rfl hrest (fun p hp => ?_) (ThreadedSys.continues_same hs.sys hw rfl
        rfl rfl rfl rfl rfl htidy' (absurd · hexited)) (by simp) (by simp) htidy' ?_ hdata⟩
      · rw [hsame p hp]
        exact hhand
      · rw [Threads.lastAck_of hnot]
        exact hlast
    -- a new one is recorded in `last_ack_received` before the send buffer gets it
    · rw [if_neg hdup] at hstep
      obtain rfl := Option.some.inj hstep
      have htidy' := htidy _ rfl
      refine ⟨_, rfl, hs.put rfl hrest (by simpa [LoopPc.hand] using hhand)
        (ThreadedSys.continues_same hs.sys hw rfl rfl rfl rfl rfl rfl htidy' (by simp))
        (by simp) (by simp) htidy' ?_ (by simp)⟩
      show cMax (s.host x).sock.window.lastAckReceived _ = cMax _ _
      rw [hlast]
      rfl

/-! ## The threads of the application -/

omit [DecidableEq T] in
theorem Threads.lastAck_congr {h h' : Threads T} (hpc : h'.pc = h.pc)
    (hacked : h'.sock.sendBuf.lastByteAckedSeqnum = h.sock.sendBuf.lastByteAckedSeqnum) :
    h'.lastAck = h.lastAck := by
  unfold Threads.lastAck
  rw [hpc, hacked]

/-- A socket with a call in progress is open, so its backend thread is in its loop. -/
theorem Threads.Tidy.not_exited (h₀ : h.Tidy) {u : T} (hidle : h.app u ≠ .idle)
    (hclosing : h.app u ≠ .closing) (hjoining : h.app u ≠ .joining) : h.pc ≠ .exited := by
  intro hpc
  have hclosed := h₀.dying (h₀.leaving (Or.inr hpc))
  exact (h₀.closed hclosed u).elim hidle fun hrest => hrest.elim hclosing hjoining

/-- **Every step** of a thread of the application succeeds. -/
theorem ThreadedSys.Sound.app (hs : s.Sound cfg out inn) (hw : s.sys.NoWrap) {u : T}
    {r : Except Fault (Threads T)} (hstep : (s.host x).appStep u = some r) :
    ∃ h', r = .ok h' ∧ ∃ out' inn', (s.put x h' []).Sound cfg out' inn' := by
  have hact := Threads.appStep_cases hstep
  have htidy : ∀ h', r = .ok h' → h'.Tidy := fun h' hr => (hs.tidy x).appStep hact hr
  -- what changes neither a buffer nor the record leaves the streams alone
  have hquiet : ∀ {h' : Threads T}, r = .ok h' → h'.sock = (s.host x).sock →
      h'.written = (s.host x).written → h'.read = (s.host x).read →
      h'.strayed = (s.host x).strayed → h'.pc = (s.host x).pc →
      ∃ h', r = .ok h' ∧ ∃ out' inn', (s.put x h' []).Sound cfg out' inn' := by
    intro h' hr hsock hwritten hread hstrayed hpc
    exact ⟨h', hr, hs.quiet hw hsock hwritten hread hstrayed (htidy h' hr) (Or.inr hpc)
      (Threads.lastAck_congr hpc (by rw [hsock])) fun hexited =>
        hs.exited x (hpc.symm.trans hexited)⟩
  have hhand : ∀ p ∈ (s.host x).pc.hand, p ∈ s.sys.net x := fun _ hp =>
    List.mem_append_right _ hp
  cases hact with
  | returns => exact hquiet rfl rfl rfl rfl rfl rfl
  | refuses => exact hquiet rfl rfl rfl rfl rfl rfl
  | joins => exact hquiet rfl rfl rfl rfl rfl rfl
  | sleeps => exact hquiet rfl rfl rfl rfl rfl rfl
  | closes =>
    have htidy' := htidy _ rfl
    exact ⟨_, rfl, hs.put rfl (fun _ _ hp => hp) hhand (ThreadedSys.continues_same hs.sys hw rfl rfl
      rfl rfl rfl rfl htidy' (hs.exited x)) (by simp) (by simp) htidy' (hs.lastAck x)
      (hs.hasData x)⟩
  -- an iteration of `cmu_write` on a buffer that is shorter than `2 ^ 31`
  | @writes buf happ =>
    have hshort : buf.length < 2 ^ 31 := by
      have hleft := (hs.tidy x).short u
      rwa [happ] at hleft
    obtain ⟨rest, sb, o, hwrite, hsame, hc⟩ := ThreadedSys.continues_write hs.sys hw x hshort
    rw [hwrite] at htidy ⊢
    have htidy' := htidy _ rfl
    have hlast : ((s.host x).wrote u buf (rest, { (s.host x).sock with sendBuf := sb })).lastAck =
        (s.host x).lastAck := Threads.lastAck_congr rfl hsame
    -- the socket is open while a call is in progress, so its thread is in its loop
    have hloop : (s.host x).pc ≠ .exited :=
      (hs.tidy x).not_exited (u := u) (by simp [happ]) (by simp [happ]) (by simp [happ])
    exact ⟨_, rfl, hs.put rfl (fun _ _ hp => hp) hhand (hc _ u rfl rfl rfl rfl htidy'
      hloop) (by simp) (by simp) htidy' ((hs.lastAck x).trans hlast.symm) (hs.hasData x)⟩
  | @reads length flags happ =>
    obtain ⟨count, data, rb, i, hread, hc⟩ := ThreadedSys.continues_read hs.sys hw x length flags
    rw [hread] at htidy ⊢
    have htidy' := htidy _ rfl
    exact ⟨_, rfl, hs.put rfl (fun _ _ hp => hp) hhand (hc _ u rfl rfl rfl rfl htidy'
      (hs.exited x)) (by simp) (by simp) htidy' (hs.lastAck x) (hs.hasData x)⟩

/-- Packets are lost and duplicated. -/
theorem ThreadedSys.Sound.of_net (hs : s.Sound cfg out inn) (hhost : t.host = s.host)
    (hnet : ∀ y, ∀ p ∈ t.net y, p ∈ s.net y) : t.Sound cfg out inn where
  sys := hs.sys.of_net (funext fun y => by simp [ThreadedSys.sys, hhost]) fun y p hp => by
    simp only [ThreadedSys.sys, hhost, List.mem_append] at hp ⊢
    exact hp.imp_left (hnet y p)
  tidy := hhost ▸ hs.tidy
  lastAck := hhost ▸ hs.lastAck
  hasData := hhost ▸ hs.hasData

/-! ## Runs -/

theorem ThreadedSys.step_eq_some {l : ThreadLabel T} {r : Except Fault (ThreadedSys T)} :
    s.step l = some r ↔
      (∀ x ∈ l.process, (s.host x).pc ≠ .crashed) ∧ s.act l = some r := by
  unfold ThreadedSys.step
  split
  · rename_i hcrashed
    obtain ⟨x, hx, hpc⟩ := hcrashed
    exact iff_of_false (by simp) fun hlives => hlives.1 x hx hpc
  · rename_i hlives
    exact ⟨fun hact => ⟨fun x hx hpc => hlives ⟨x, hx, hpc⟩, hact⟩, And.right⟩

/-- **Every step** of the threads and the network fails no assertion, and leaves two sound
    sides. -/
theorem ThreadedSys.Sound.step (hs : s.Sound cfg out inn) (hw : s.sys.NoWrap)
    {l : ThreadLabel T} (hlast : s.ClosesLast l) {r : Except Fault (ThreadedSys T)}
    (hstep : s.step l = some r) :
    ∃ s', r = .ok s' ∧ ∃ out' inn', s'.Sound cfg out' inn' := by
  -- a thread that leaves the streams and its socket alone
  have hquiet : ∀ {x : Side} {h : Threads T}, h.Tidy → h.sock = (s.host x).sock →
      h.written = (s.host x).written → h.read = (s.host x).read →
      h.strayed = (s.host x).strayed → h.pc = (s.host x).pc → r = .ok (s.put x h []) →
      ∃ s', r = .ok s' ∧ ∃ out' inn', s'.Sound cfg out' inn' := by
    intro x h htidy hsock hwritten hread hstrayed hpc hr
    exact ⟨_, hr, hs.quiet hw hsock hwritten hread hstrayed htidy (Or.inr hpc)
      (Threads.lastAck_congr hpc (by rw [hsock])) fun hexited =>
        hs.exited x (hpc.symm.trans hexited)⟩
  replace hstep := (ThreadedSys.step_eq_some.mp hstep).2
  cases l with
  | lock x th =>
    obtain ⟨h, hlock, hr⟩ := Option.map_eq_some_iff.mp hstep
    obtain ⟨htidy, m, rfl, _⟩ := (hs.tidy x).lock hlock
    exact hquiet htidy rfl rfl rfl rfl rfl hr.symm
  | backend x now beyond torn i =>
    obtain ⟨r', hback, rfl⟩ := Option.map_eq_some_iff.mp hstep
    obtain ⟨h', packets, rfl, hsound⟩ := hs.backend hw hback
    exact ⟨_, rfl, hsound⟩
  | receive x i =>
    unfold ThreadedSys.act at hstep
    dsimp only at hstep
    split at hstep
    · obtain ⟨r', hreceive, rfl⟩ := Option.map_eq_some_iff.mp hstep
      obtain ⟨h', rfl, hsound⟩ := hs.receive hw ‹_› hreceive
      exact ⟨_, rfl, hsound⟩
    · exact absurd hstep (by simp)
  | writeCall x u data =>
    obtain ⟨h, hcall, hr⟩ := Option.map_eq_some_iff.mp hstep
    have htidy := (hs.tidy x).writeCall hlast hcall
    obtain ⟨_, _, rfl⟩ := Threads.writeCall_ok hcall
    exact hquiet htidy rfl rfl rfl rfl rfl hr.symm
  | readCall x u length flags =>
    obtain ⟨h, hcall, hr⟩ := Option.map_eq_some_iff.mp hstep
    have htidy := (hs.tidy x).readCall hlast hcall
    obtain ⟨_, rfl⟩ := Threads.readCall_ok hcall
    exact hquiet htidy rfl rfl rfl rfl rfl hr.symm
  | closeCall x u =>
    obtain ⟨h, hcall, hr⟩ := Option.map_eq_some_iff.mp hstep
    have htidy := (hs.tidy x).closeCall hlast.2 hcall
    obtain ⟨_, rfl⟩ := Threads.closeCall_ok hcall
    exact hquiet htidy rfl rfl rfl rfl rfl hr.symm
  | app x u =>
    obtain ⟨r', happ, rfl⟩ := Option.map_eq_some_iff.mp hstep
    obtain ⟨h', rfl, hsound⟩ := hs.app hw happ
    exact ⟨_, rfl, hsound⟩
  | wakeUp x i =>
    unfold ThreadedSys.act at hstep
    dsimp only at hstep
    split at hstep
    · exact hquiet ((hs.tidy x).wakeUp (List.eraseIdx_sublist ..)) rfl rfl rfl rfl rfl
        (Option.some.inj hstep).symm
    · exact absurd hstep (by simp)
  | lose x i =>
    unfold ThreadedSys.act at hstep
    dsimp only at hstep
    split at hstep
    · exact ⟨_, (Option.some.inj hstep).symm, out, inn,
        hs.of_net rfl fun _ _ hp => ThreadedSys.mem_net_takePacket hp⟩
    · exact absurd hstep (by simp)
  | duplicate x i =>
    unfold ThreadedSys.act at hstep
    dsimp only at hstep
    split at hstep
    · rename_i pkt hpkt
      refine ⟨_, (Option.some.inj hstep).symm, out, inn, hs.of_net rfl ?_⟩
      refine Side.forall_of x (fun p hp => ?_) fun p hp => ?_
      · simp only [Function.update_self, List.mem_append, List.mem_singleton] at hp
        exact hp.elim id fun hcopy => hcopy ▸ List.mem_of_getElem? hpkt
      · simpa only [Function.update_of_ne (Side.other_ne x)] using hp
    · exact absurd hstep (by simp)

end Steps

variable {cfg : Config}

/-- At the end of the handshake no thread has done anything yet. -/
theorem Config.Valid.establishedThreads (hcfg : cfg.Valid)
    (hw : (cfg.establishedThreads (T := T)).sys.NoWrap) :
    ∃ out inn, (cfg.establishedThreads (T := T)).Sound cfg out inn := by
  have hw' : cfg.established.NoWrap := hw
  obtain ⟨out, inn, hinv⟩ := hcfg.established hw'
  -- the handshake leaves the two copies of the ack state equal
  have hlast : ∀ x, (cfg.establishedSocket x).window.lastAckReceived =
      (cfg.establishedSocket x).sendBuf.lastByteAckedSeqnum + 1 := fun x =>
    (hinv.ackSafe hw' x).lastAck
  have hsock : ∀ x, ((cfg.establishedThreads (T := T)).host x).endpoint.sock =
      cfg.establishedSocket x := by
    intro x
    unfold Threads.endpoint
    dsimp only [Config.establishedThreads]
    rw [← hlast x]
  refine ⟨out, inn, ?_, fun x => ?_, hlast, by simp [Config.establishedThreads]⟩
  -- the two endpoints are those of the connection, with nothing in hand
  · exact {
      endpoint := fun x => {
        sock := (hsock x).symm ▸ (hinv.endpoint x).sock
        passed := (hinv.endpoint x).passed
        pending := (hinv.endpoint x).pending
        notEntry := by simp [ThreadedSys.sys, Threads.endpoint, Config.establishedThreads,
          LoopPc.phase]
        notHandshake := by simp [ThreadedSys.sys, Threads.endpoint, Config.establishedThreads,
          LoopPc.phase]
        dying := fun _ => rfl
        leaving := by simp [ThreadedSys.sys, Threads.endpoint, Config.establishedThreads,
          LoopPc.phase]
        crashed := by simp [ThreadedSys.sys, Threads.endpoint, Config.establishedThreads,
          LoopPc.phase]
        exited := by simp [ThreadedSys.sys, Threads.endpoint, Config.establishedThreads,
          LoopPc.phase] }
      sendCapacity := hinv.sendCapacity
      recvCapacity := hinv.recvCapacity
      acked_lt := hinv.acked_lt
      within := hinv.within
      inFlight := by simp [ThreadedSys.sys, Config.establishedThreads, LoopPc.hand]
      faithful := fun x hx => by
        have hf := hinv.faithful x hx
        exact ⟨hf.firstLap, by simp [ThreadedSys.sys, Config.establishedThreads, LoopPc.hand],
          hf.holds, hf.delivered⟩ }
  -- no thread has done anything
  · exact {
      held := by simp [Config.establishedThreads]
      nodup := List.nodup_nil
      asleep := by simp [Config.establishedThreads]
      passed := fun _ => rfl
      short := fun _ => Nat.two_pow_pos 31
      closed := by simp [Config.establishedThreads]
      closing := by simp [Config.establishedThreads]
      dying := fun hdying => absurd hdying Bool.false_ne_true
      leaving := by simp [Config.establishedThreads]
      crashed := by simp [Config.establishedThreads] }

/-- **Every run** of the threads in which each socket is closed last. -/
theorem ThreadedSys.Sound.of_run (hcfg : cfg.Valid)
    {tr : List (ThreadedSys T × ThreadLabel T)} {s : ThreadedSys T}
    (h : Run (threadsFrom cfg.establishedThreads) (fun t => t.sys.NoWrap) tr s)
    (hlast : ∀ p ∈ tr, p.1.ClosesLast p.2) : ∃ out inn, s.Sound cfg out inn := by
  refine h.invariant_of_steps (I := fun s => ∃ out inn, s.Sound cfg out inn)
    (C := ThreadedSys.ClosesLast) ?_ ?_ hlast
  · rintro s rfl hw
    exact hcfg.establishedThreads hw
  · rintro s l s' ⟨out, inn, hs⟩ hw _ hC hstep
    obtain ⟨t, ht, hsound⟩ := hs.step hw hC hstep
    obtain rfl := Except.ok.inj ht
    exact hsound

end CmuTcp
