import CmuTcp.Connection.Invariant

/-!
# The Steps of a Connection

From a state with the invariant, no enabled step fails, and `Sys.Moves` says all that it
can do: the streams and the reassemblies take the step that their endpoint took, and a
packet is handled, sent, lost or duplicated.  Every theorem about connections is a case
analysis of it.

1. `Sys.Moves` is the relation, and `Sys.Moves.invariant` says that it keeps the invariant.
2. Then there is one lemma for each kind of step: those without packets, the calls of the
   application, a packet that is received, and the sending part of an iteration.  The last
   either comes to its end or dies in a copy; `Sent.Transmits` covers both, with the number
   of bytes that have gone out before.
3. `Sys.Invariant.step` collects them, and `Sys.Invariant.of_run` is the induction over runs.
-/

namespace CmuTcp

open CircularBuffer

/-- The fresh bytes that the sending part of an iteration sends. -/
def freshCount (sock : CmuSocket) (now : Int) : ℕ :=
  if resendDue sock now then 0 else (freshSendLen sock).toNat

/-- The step concerns neither a packet nor the data of an application. -/
def Label.Idle (s : Sys) : Label → Prop
  | .backend x _ _ => (s.ep x).pc ≠ .transmit
  | .writeCall _ _ => True
  | .close _ => True
  | _ => False

/-- Nothing happens to the buffers and the window of the endpoint. -/
structure Endpoint.Idles (e e' : Endpoint) : Prop where
  sendBuf : e'.sock.sendBuf = e.sock.sendBuf
  recvBuf : e'.sock.recvBuf = e.sock.recvBuf
  window : e'.sock.window = e.sock.window
  strayed : e'.strayed = e.strayed
  delivered : e'.delivered = e.delivered

/-- What a step does. -/
inductive Sys.Moves (cfg : Config) (s : Sys) (out : Side → SendStream UInt8)
    (inn : Side → Reassembly) :
    Label → Sys → (Side → SendStream UInt8) → (Side → Reassembly) → Prop
  | idle {l : Label} {x : Side} {e : Endpoint} (hl : l.Idle s) (hidle : (s.ep x).Idles e)
      (hc : s.Continues cfg out inn x e [] (out x) (inn x)) :
      Moves cfg s out inn l (s.put x (e, [])) (Function.update out x (out x))
        (Function.update inn x (inn x))
  | write {x : Side} {e : Endpoint} {o : SendStream UInt8}
      (hc : s.Continues cfg out inn x e [] o (inn x)) (hacked : o.acked = (out x).acked)
      (hwindow : e.sock.window = (s.ep x).sock.window)
      (hstrayed : e.strayed = (s.ep x).strayed) :
      Moves cfg s out inn (.write x) (s.put x (e, [])) (Function.update out x o)
        (Function.update inn x (inn x))
  | read {x : Side} {length : Int} {flags : CmuReadMode} {e : Endpoint} {n : ℕ}
      {hn : (inn x).read + n < (inn x).next}
      (hc : s.Continues cfg out inn x e [] (out x) ((inn x).consume n hn))
      (hwindow : e.sock.window = (s.ep x).sock.window)
      (hstrayed : e.strayed = (s.ep x).strayed) :
      Moves cfg s out inn (.read x length flags) (s.put x (e, []))
        (Function.update out x (out x)) (Function.update inn x ((inn x).consume n hn))
  | receive {x : Side} {now : Int} {i : ℕ} {p : Packet} {e : Endpoint} {replies : List Packet}
      {a : ℕ} {ha : a ≤ (out x).sent} {r : Reassembly} (hp : (s.net x)[i]? = some p)
      (hc : (s.takePacket x i).Continues cfg out inn x e replies ((out x).ack a ha) r)
      (hack : p.header.ackNum.toNat = (cfg.isn x).toNat + a + 1)
      (htakes : TakesData p (cfg.isn x.other).toNat (s.ep x).sock.recvBuf (inn x)
        e.sock.recvBuf r)
      (hreplies : Replies p e.sock replies)
      (hwindow : e.sock.window.rcvdAdvertisedWindow = p.header.advertisedWindow)
      (hstrayed : e.strayed = (s.ep x).strayed) :
      Moves cfg s out inn (.receive x now i) ((s.takePacket x i).put x (e, replies))
        (Function.update out x ((out x).ack a ha)) (Function.update inn x r)
  | transmit {x : Side} {now : Int} {beyond : ℕ → UInt8} {e : Endpoint}
      {packets : List Packet} {n : ℕ} {ht : (out x).sent + n ≤ (out x).written.length}
      (hpc : (s.ep x).pc = .transmit) (hle : n ≤ freshCount (s.ep x).sock now)
      (hall : e.pc ≠ .crashed → n = freshCount (s.ep x).sock now)
      (hc : s.Continues cfg out inn x e packets ((out x).dump n ht) (inn x))
      (hwindow : e.sock.window = (s.ep x).sock.window)
      (hedge : ∀ p ∈ packets, ∀ k n, p.Carries (cfg.isn x).toNat k n →
        k + n ≤ (out x).acked + (s.ep x).sock.window.rcvdAdvertisedWindow.toNat + 1 ∨
          (s.ep x).sock.window.rcvdAdvertisedWindow.toNat = 0 ∧ n = 1)
      (hlap : (out x).sent < (out x).capacity → (e.strayed = false ↔
        (s.ep x).strayed = false ∧
          (out x).sent + freshCount (s.ep x).sock now < (out x).capacity)) :
      Moves cfg s out inn (.backend x now beyond) (s.put x (e, packets))
        (Function.update out x ((out x).dump n ht))
        (Function.update inn x (inn x))
  | lose {x : Side} {i : ℕ} : Moves cfg s out inn (.lose x i) (s.takePacket x i) out inn
  | duplicate {x : Side} {i : ℕ} {p : Packet} (hp : (s.net x)[i]? = some p) :
      Moves cfg s out inn (.duplicate x i)
        { s with net := Function.update s.net x (s.net x ++ [p]) } out inn

section Moves

variable {cfg : Config} {s : Sys} {out : Side → SendStream UInt8} {inn : Side → Reassembly}

/-- What a move leads to has the invariant. -/
theorem Sys.Moves.invariant {l : Label} {s' : Sys} {out' : Side → SendStream UInt8}
    {inn' : Side → Reassembly} (hm : Sys.Moves cfg s out inn l s' out' inn')
    (h : s.Invariant cfg out inn) : s'.Invariant cfg out' inn' := by
  cases hm with
  | idle _ _ hc => exact h.put hc
  | write hc _ _ _ => exact h.put hc
  | read hc _ _ => exact h.put hc
  | receive _ hc _ _ _ _ _ => exact (h.takePacket _ _).put hc
  | transmit _ _ _ hc _ _ _ => exact h.put hc
  | lose => exact h.takePacket _ _
  | duplicate hp => exact h.of_net rfl fun _ _ => Sys.mem_net_duplicate hp

/-! ## Steps without packets -/

/-- An endpoint that only goes on refines what it refined. -/
theorem Endpoint.Idles.sockRefines {e e' : Endpoint} (hidle : e.Idles e') {isn peerIsn : ℕ}
    {o : SendStream UInt8} {r : Reassembly} (h : e.sock.Refines isn peerIsn o r) :
    e'.sock.Refines isn peerIsn o r :=
  ⟨hidle.sendBuf ▸ h.sendBuf, hidle.recvBuf ▸ h.recvBuf, hidle.window ▸ h.lastAck,
    hidle.window ▸ h.nextSeq⟩

theorem Sys.Invariant.received (h : s.Invariant cfg out inn) (x : Side)
    (hx : (s.ep x.other).strayed = false) :
    (s.ep x).sock.recvBuf.Holds (inn x) (fromOne (out x.other).written) ∧
      (s.ep x).delivered = (out x.other).written.take (inn x).read := by
  have hf := h.faithful x.other hx
  rw [Side.other_other] at hf
  exact ⟨hf.holds, hf.delivered⟩

theorem Sys.Invariant.continues_idle (h : s.Invariant cfg out inn) {x : Side} {e : Endpoint}
    (hidle : (s.ep x).Idles e)
    (href : e.Refines (cfg.isn x).toNat (cfg.isn x.other).toNat (out x) (inn x)) :
    s.Continues cfg out inn x e [] (out x) (inn x) where
  refines := href
  sendCapacity := rfl
  recvCapacity := rfl
  written := List.prefix_refl _
  sent := le_refl _
  next := le_refl _
  acked_lt := h.acked_lt x
  within := by simpa using h.within x.other
  sentFrom := by simp
  honest := by simp
  strayed hx := hidle.strayed ▸ hx
  stream _ hlap := ⟨hlap, by simp⟩
  received hx := by
    rw [hidle.recvBuf, hidle.delivered]
    exact h.received x hx

/-- `writeCall` -/
theorem Sys.Invariant.writeCall (h : s.Invariant cfg out inn) {x : Side} {data : List UInt8}
    {e : Endpoint} (hstep : appWriteCall (s.ep x) data = some e) :
    (s.ep x).Idles e ∧ s.Continues cfg out inn x e [] (out x) (inn x) := by
  have href := h.endpoint x
  obtain ⟨⟨_, hdying, hpending, hlen, _⟩, rfl⟩ := appWriteCall_eq_some hstep
  have hidle : (s.ep x).Idles
      { s.ep x with pending := data, passed := (s.ep x).passed ++ data } :=
    ⟨rfl, rfl, rfl, rfl, rfl⟩
  refine ⟨hidle, h.continues_idle hidle { href with
    passed := ?_
    pending := hlen
    dying := fun hd => absurd (hdying.symm.trans hd) (by decide) }⟩
  show (s.ep x).passed ++ data = (out x).written ++ data
  rw [href.passed, hpending, List.append_nil]

/-- `close` -/
theorem Sys.Invariant.close (h : s.Invariant cfg out inn) {x : Side} {e : Endpoint}
    (hstep : appClose (s.ep x) = some e) :
    (s.ep x).Idles e ∧ s.Continues cfg out inn x e [] (out x) (inn x) := by
  have href := h.endpoint x
  obtain ⟨⟨_, _, hpending, _⟩, rfl⟩ := appClose_eq_some hstep
  have hidle : (s.ep x).Idles
      { s.ep x with sock := { (s.ep x).sock with dying := true } } :=
    ⟨rfl, rfl, rfl, rfl, rfl⟩
  exact ⟨hidle, h.continues_idle hidle { href with
    sock := hidle.sockRefines href.sock
    dying := fun _ => hpending
    leaving := fun _ => rfl }⟩

/-- The steps of the backend thread around the sending part of its iterations. -/
theorem Sys.Invariant.backendSilent (h : s.Invariant cfg out inn) (hw : s.NoWrap) {x : Side}
    {now : Int} {beyond : ℕ → UInt8} {r : Except Fault (Endpoint × List Packet)}
    (hstep : backendSilent (s.ep x) now beyond = some r) (hpc : (s.ep x).pc ≠ .transmit) :
    ∃ e, r = .ok (e, []) ∧ (s.ep x).Idles e ∧
      s.Continues cfg out inn x e [] (out x) (inn x) := by
  have href := h.endpoint x
  obtain ⟨htransmit, _⟩ | ⟨pc, hadvances, rfl⟩ :=
    backendSilent_cases href.notEntry href.notHandshake hstep
  · exact absurd htransmit hpc
  · obtain ⟨hentry, hhandshake, hcrashed⟩ := hadvances.pc_ne
    have hidle : (s.ep x).Idles { s.ep x with pc := pc } := ⟨rfl, rfl, rfl, rfl, rfl⟩
    -- what a thread that leaves, or has left, knows
    obtain ⟨hleaving, hexited⟩ : (pc = .exitTest true ∨ pc = .exited →
        (s.ep x).sock.dying = true) ∧ (pc = .exited → (out x).acked = (out x).written.length) := by
      cases hadvances with
      | loopTop _ => exact ⟨by simp, by simp⟩
      | @exits death heq hexit =>
        obtain ⟨hdeath, hacked⟩ := (exitTest_iff href.sock (hw.sendBuf x) death).mp hexit
        exact ⟨fun _ => href.leaving (Or.inl (hdeath ▸ heq)), fun _ => hacked⟩
      | stays _ _ => exact ⟨by simp, by simp⟩
      | looks _ => exact ⟨by simp, by simp⟩
    exact ⟨_, rfl, hidle, h.continues_idle hidle { href with
      notEntry := hentry
      notHandshake := hhandshake
      leaving := hleaving
      exited := hexited
      crashed := fun hpc => absurd hpc hcrashed }⟩

/-! ## Writing and reading -/

/-- An iteration of the loop of `cmu_write`. -/
theorem Sys.Invariant.write (h : s.Invariant cfg out inn) (hw : s.NoWrap) {x : Side}
    {r : Except Fault Endpoint} (hstep : appWrite (s.ep x) = some r) :
    ∃ e o, r = .ok e ∧ s.Continues cfg out inn x e [] o (inn x) ∧ o.acked = (out x).acked ∧
      e.sock.window = (s.ep x).sock.window ∧ e.strayed = (s.ep x).strayed := by
  have href := h.endpoint x
  -- `cmu_write` takes `n` bytes off the front of what is left to write
  obtain ⟨_, hpc, rfl⟩ := appWrite_eq_some hstep
  obtain ⟨n, sb', hn, _, hwrite, hsb, _, _⟩ := cmuWriteIteration_refines href.sock.sendBuf
    (href.sock.sendBuf.indicesFit (hw.sendBuf x)) (lt_trans href.pending (by decide))
  rw [hwrite]
  refine ⟨_, (out x).write ((s.ep x).pending.take n) hn, rfl, ?_, rfl, rfl, rfl⟩
  -- the stream is longer by these, and all comparisons are as before
  exact {
    refines := { href with
      sock := ⟨hsb, href.sock.recvBuf, href.sock.lastAck, href.sock.nextSeq⟩
      passed := by
        show _ = ((out x).written ++ (s.ep x).pending.take n) ++ (s.ep x).pending.drop n
        rw [List.append_assoc, List.take_append_drop]
        exact href.passed
      pending := lt_of_le_of_lt (by
        rw [List.length_drop]
        exact Nat.sub_le _ _) href.pending
      dying := fun hd => by simp [href.dying hd]
      exited := fun hex => absurd hex (BackendPc.ne_exited hpc) }
    sendCapacity := rfl
    recvCapacity := rfl
    written := List.prefix_append _ _
    sent := le_refl _
    next := le_refl _
    acked_lt := h.acked_lt x
    within := by simpa using h.within x.other
    sentFrom := by simp
    honest := by simp
    strayed := id
    stream := fun _ hlap => ⟨hlap, by simp⟩
    received := h.received x }

/-- A call of `cmu_read`. -/
theorem Sys.Invariant.read (h : s.Invariant cfg out inn) {x : Side} {length : Int}
    {flags : CmuReadMode} {r : Except Fault Endpoint}
    (hstep : appRead (s.ep x) length flags = some r) :
    ∃ e n, ∃ hn : (inn x).read + n < (inn x).next, r = .ok e ∧
      s.Continues cfg out inn x e [] (out x) ((inn x).consume n hn) ∧
      e.sock.window = (s.ep x).sock.window ∧ e.strayed = (s.ep x).strayed := by
  have href := h.endpoint x
  obtain ⟨_, _, rfl⟩ := appRead_eq_some hstep
  obtain ⟨count, n, hn, rb', hread, hrb, hbuf⟩ := cmuRead_spec href.sock.recvBuf length flags
  rw [hread]
  refine ⟨_, n, hn, rfl, ?_, rfl, rfl⟩
  have hwithin : (inn x).Within (out x.other).sent := by simpa using h.within x.other
  exact {
    refines := { href with
      sock := ⟨href.sock.sendBuf, hrb, href.sock.lastAck, href.sock.nextSeq⟩ }
    sendCapacity := rfl
    recvCapacity := rfl
    written := List.prefix_refl _
    sent := le_refl _
    next := le_refl _
    acked_lt := h.acked_lt x
    within := ⟨hwithin.next, hwithin.held⟩
    sentFrom := by simp
    honest := by simp
    strayed := id
    stream := fun _ hlap => ⟨hlap, by simp⟩
    received := fun hx => by
      obtain ⟨hholds, hdelivered⟩ := h.received x hx
      obtain ⟨hlen, hslice⟩ := hholds.readWrap href.sock.recvBuf hn
      refine ⟨hholds.consume hn hbuf, ?_⟩
      -- what is returned is the next stretch of what was written
      have hsent := (out x.other).sent_le_written
      have hnext := hwithin.next
      have htake := take_append_of_isSlice hslice (by rw [hlen]; omega)
      rw [hlen] at htake
      show (s.ep x).delivered ++ _ = _
      rw [hdelivered, htake]
      rfl }

/-! ## Receiving -/

/-- The data of an honest packet of a sender that has not strayed is held. -/
theorem TakesData.holds {p : Packet} {peerIsn : ℕ} {rb rb' : RecvBuffer}
    {r r' : Reassembly} (h : TakesData p peerIsn rb r rb' r') (href : rb.Refines peerIsn r)
    {S : ℕ → Option UInt8} (hholds : rb.Holds r S)
    (hpay : (getPayload p).length = (getPayloadLen p).toNat)
    (hdata : ∀ k n, p.Carries peerIsn k n → IsSlice S k (getPayload p)) : rb'.Holds r' S := by
  cases h with
  | @accept rb' k n hcar hacc href' hbuf =>
    have hlen : n ≤ (getPayload p).length := by
      rw [hpay, hcar.len]
    refine hholds.accept href hacc hlen ?_ hbuf
    rw [List.take_of_length_le (by rw [hpay, hcar.len])]
    exact hdata k n hcar
  | refuse _ _ => exact hholds

theorem TakesData.capacity {p : Packet} {peerIsn : ℕ} {rb rb' : RecvBuffer}
    {r r' : Reassembly} (h : TakesData p peerIsn rb r rb' r') : r'.capacity = r.capacity := by
  cases h with
  | accept _ hacc _ _ => exact Reassembly.accept_capacity hacc
  | refuse _ _ => rfl

theorem TakesData.read {p : Packet} {peerIsn : ℕ} {rb rb' : RecvBuffer}
    {r r' : Reassembly} (h : TakesData p peerIsn rb r rb' r') : r'.read = r.read := by
  cases h with
  | accept _ hacc _ _ => exact Reassembly.accept_read hacc
  | refuse _ _ => rfl

theorem TakesData.next_le {p : Packet} {peerIsn : ℕ} {rb rb' : RecvBuffer}
    {r r' : Reassembly} (h : TakesData p peerIsn rb r rb' r') : r.next ≤ r'.next := by
  cases h with
  | accept _ hacc _ _ => exact Reassembly.next_le_accept hacc
  | refuse _ _ => exact le_refl _

/-- What an honest packet brings was sent. -/
theorem TakesData.within {p : Packet} {isn peerIsn sent next : ℕ} {rb rb' : RecvBuffer}
    {r r' : Reassembly} (h : TakesData p peerIsn rb r rb' r')
    (hp : p.Honest peerIsn isn sent next) (hwithin : r.Within sent) : r'.Within sent := by
  cases h with
  | @accept rb' k n hcar hacc _ _ =>
    have hle := (hp.carries hcar).2
    exact hwithin.accept hacc (by omega)
  | refuse _ _ => exact hwithin

/-- The backend thread receives a packet. -/
theorem Sys.Invariant.receive (h : s.Invariant cfg out inn) (hw : s.NoWrap) {x : Side}
    {now : Int} {source : SockAddr} {i : ℕ} {p : Packet} (hp : (s.net x)[i]? = some p)
    {r : Except Fault (Endpoint × List Packet)}
    (hstep : backendReceive (s.ep x) now source p = some r) :
    ∃ e replies a ha inn', r = .ok (e, replies) ∧
      (s.takePacket x i).Continues cfg out inn x e replies ((out x).ack a ha) inn' ∧
      p.header.ackNum.toNat = (cfg.isn x).toNat + a + 1 ∧
      TakesData p (cfg.isn x.other).toNat (s.ep x).sock.recvBuf (inn x) e.sock.recvBuf inn' ∧
      Replies p e.sock replies ∧
      e.sock.window.rcvdAdvertisedWindow = p.header.advertisedWindow ∧
      e.strayed = (s.ep x).strayed := by
  have href := h.endpoint x
  have hmem : p ∈ s.net x := List.mem_of_getElem? hp
  have hhonest := h.inFlight x.other
  have hwithin := h.within x.other
  have hacked := h.acked_lt x
  rw [Side.other_other] at hhonest hwithin
  have hroom := (h.endpoint x.other).sock.sendBuf.noWrap (hw.sendBuf x.other)
  have hsent := (out x.other).sent_le_written
  have hwritten := (out x.other).room
  obtain ⟨_, hr⟩ := backendReceive_eq_some href.notHandshake hstep
  -- `recvfrom` overwrites the address of the peer and nothing else
  have hheard : ((s.ep x).sock.heardFrom source).Refines (cfg.isn x).toNat
      (cfg.isn x.other).toNat (out x) (inn x) :=
    ⟨href.sock.sendBuf, href.sock.recvBuf, href.sock.lastAck, href.sock.nextSeq⟩
  obtain ⟨a, ha, sb', rb', inn', window', replies, hhandle, hack, href', hcap, hwindow,
    htakes, hreplies⟩ := handleMessage_spec hheard (hw.sendBuf x) (hhonest p hmem)
      (by have := (h.within x).next; omega) (by omega) now
  simp only [checkForData, hhandle, bind, Except.bind, pure, Except.pure] at hr
  refine ⟨_, replies, a, ha, inn', hr, ?_, hack, htakes, hreplies, hwindow, rfl⟩
  obtain ⟨a', ha', _, hle⟩ := (hhonest p hmem).ack
  exact {
    refines := { href with
      sock := href'
      notEntry := by simp
      notHandshake := by simp
      leaving := by simp
      exited := by simp
      crashed := by simp }
    sendCapacity := rfl
    recvCapacity := htakes.capacity
    written := List.prefix_refl _
    sent := le_refl _
    next := htakes.next_le
    acked_lt := by
      show max (out x).acked a < _
      omega
    within := htakes.within (hhonest p hmem) hwithin
    sentFrom := fun q hq => (hreplies.sent q hq).1
    honest := fun q hq => (hreplies.sent q hq).1.honest href'
      (fun hne => absurd (hreplies.sent q hq).2 hne)
    strayed := id
    -- the answers carry no data
    stream := by
      intro _ hlap
      refine ⟨hlap, fun q hq k n hcar => ?_⟩
      exact absurd (hreplies.sent q hq).2 hcar.len_ne_zero
    received := fun hx => by
      obtain ⟨hholds, hdelivered⟩ := h.received x hx
      have hf := h.faithful x.other hx
      rw [Side.other_other] at hf
      refine ⟨htakes.holds href.sock.recvBuf hholds (hhonest p hmem).payload
        (hf.inFlight p hmem), ?_⟩
      rw [htakes.read]
      exact hdelivered }

/-! ## Sending -/

/-- A retransmission is made only when something is unacknowledged. -/
theorem acked_lt_sent_of_resendDue {sock : CmuSocket} {isn : ℕ} {o : SendStream UInt8}
    (h : sock.sendBuf.Refines isn o) {now : Int} (hdue : resendDue sock now = true) :
    o.acked < o.sent := by
  have hpos := (Bool.and_eq_true_iff.mp hdue).2
  rw [decide_eq_true_eq, gt_iff_lt, UInt32.lt_iff_toNat_lt, h.getUnacknowledgedCount,
    UInt32.toNat_zero] at hpos
  omega

/-- What the sending part of an iteration has done: it has sent the next `n` of the
    `freshCount` bytes that it was to send for the first time, or some of the unacknowledged
    ones again, up to the window and a probe byte. -/
structure Sent.Transmits (r : Sent) (sock : CmuSocket) (isn : ℕ) (o : SendStream UInt8)
    (now : Int) (n : ℕ) : Prop where
  le : n ≤ freshCount sock now
  written : o.sent + n ≤ o.written.length
  sendBuf : r.sendBuf.Refines isn (o.dump n written)
  packets : SendsWithin r.packets r.inBounds sock isn o o.acked (o.sent + n)
  edge : ∀ p ∈ r.packets, ∀ k n, p.Carries isn k n →
    k + n ≤ o.acked + sock.window.rcvdAdvertisedWindow.toNat + 1 ∨
      sock.window.rcvdAdvertisedWindow.toNat = 0 ∧ n = 1
  lap : o.sent < o.capacity → (r.inBounds = true ↔ o.sent + freshCount sock now < o.capacity)
  all : r.fault = none → n = freshCount sock now
  fault : r.inBounds = true → r.fault = none

section Transmit

variable {sock : CmuSocket} {isn : ℕ} {o : SendStream UInt8}

/-- A retransmission. -/
theorem resend_transmits (h : sock.sendBuf.Refines isn o) (hw : sock.sendBuf.NoWrap) {now : Int}
    (hdue : resendDue sock now = true) (beyond : ℕ → UInt8) :
    ∃ r, resendUnacknowledged sock beyond = .ok r ∧ r.Transmits sock isn o now 0 := by
  have hlt := acked_lt_sent_of_resendDue h hdue
  have hlen := resendLen_toNat h
  -- a retransmission sends nothing for the first time
  have hfresh : freshCount sock now = 0 := if_pos hdue
  obtain ⟨r, hr, hsb, hnone, hsends, hbounds, _⟩ :=
    resendUnacknowledged_spec h (h.indicesFit hw) (h.sent_lt hw) beyond hlt
  refine ⟨r, hr, ?_⟩
  exact {
    le := Nat.zero_le _
    written := o.sent_le_written
    sendBuf := hsb ▸ h
    packets := hsends.mono id (le_refl _) (by omega)
    -- what it covers has been sent before, within the window or as the probe
    edge := by
      intro p hp k n hcar
      obtain ⟨_, k', n', hcar', hlo, hhi, _⟩ := hsends p hp
      have hseq := hcar.seq
      have hseq' := hcar'.seq
      have hn := hcar.len
      have hn' := hcar'.len
      have hpos := hcar.pos
      omega
    -- on the first lap no stretch of the ring crosses its end
    lap := fun hfirst => by
      rw [hfresh]
      exact ⟨fun _ => hfirst, fun _ => hbounds.mpr (segmentsFit_of_le (by omega))⟩
    all := fun _ => hfresh.symm
    fault := fun _ => hnone }

/-- A first transmission. -/
theorem fresh_transmits (h : sock.sendBuf.Refines isn o) (hw : sock.sendBuf.NoWrap) {now : Int}
    (hdue : ¬ resendDue sock now = true) (beyond : ℕ → UInt8) :
    ∃ n, (multipleSend sock beyond).Transmits sock isn o now n := by
  obtain ⟨n, hsends⟩ := multipleSend_spec h hw beyond
  obtain ⟨hle, hwindow⟩ := freshSendLen_le h
  have hfresh : freshCount sock now = (freshSendLen sock).toNat := if_neg hdue
  have hn := hsends.le
  refine ⟨n, ?_⟩
  exact {
    le := hfresh ▸ hsends.le
    written := hsends.written
    sendBuf := hsends.sendBuf
    packets := hsends.packets.mono id o.acked_le_sent (le_refl _)
    -- a packet of fresh data ends inside the window
    edge := by
      intro p hp k m hcar
      obtain ⟨_, k', n', hcar', hlo, hhi, _⟩ := hsends.packets p hp
      have hseq := hcar.seq
      have hseq' := hcar'.seq
      have hn := hcar.len
      have hn' := hcar'.len
      have hpos := hcar.pos
      left
      omega
    -- on the first lap positions are cells, so the stretch is before the end if it is on that
    -- lap
    lap := fun hfirst => by
      have hacked := o.acked_le_sent
      rw [hsends.inBounds, hfresh, Nat.mod_eq_of_lt hfirst,
        Nat.mod_eq_of_lt (show o.acked < o.capacity by omega)]
      omega
    all := fun hnone => hfresh ▸ hsends.all hnone
    fault := multipleSendLoop_fault }

/-- **The sending part of an iteration** fails no assertion, whichever of the two it does. -/
theorem transmit_spec (h : sock.sendBuf.Refines isn o) (hw : sock.sendBuf.NoWrap) (now : Int)
    (beyond : ℕ → UInt8) :
    ∃ r n, transmit sock now beyond = .ok r ∧ r.Transmits sock isn o now n := by
  unfold transmit
  by_cases hdue : resendDue sock now = true
  · obtain ⟨r, hr, htransmits⟩ := resend_transmits h hw hdue beyond
    exact ⟨r, 0, by rw [if_pos hdue, hr], htransmits⟩
  · obtain ⟨n, htransmits⟩ := fresh_transmits h hw hdue beyond
    exact ⟨_, n, if_neg hdue, htransmits⟩

end Transmit

/-- The endpoint after the sending part of an iteration. -/
def Endpoint.transmitted (e : Endpoint) (r : Sent) : Endpoint :=
  { e with
    sock := { e.sock with sendBuf := r.sendBuf }
    pc := r.pc
    strayed := e.strayed || !r.inBounds }

theorem Endpoint.strayed_transmitted {e : Endpoint} {r : Sent} :
    (e.transmitted r).strayed = false ↔ e.strayed = false ∧ r.inBounds = true := by
  rw [transmitted, Bool.or_eq_false_iff, Bool.not_eq_false']

/-- A process that dies in the sending part dies in a copy that is recorded. -/
theorem Sent.Transmits.crashed {r : Sent} {sock : CmuSocket} {isn : ℕ} {o : SendStream UInt8}
    {now : Int} {n : ℕ} (h : r.Transmits sock isn o now n) (hpc : r.pc = .crashed) :
    r.inBounds = false := by
  rw [← Bool.not_eq_true]
  intro hin
  rw [Sent.pc, if_pos (h.fault hin)] at hpc
  exact absurd hpc (by simp)

/-- The sending part of an iteration. -/
theorem Sys.Invariant.transmit (h : s.Invariant cfg out inn) (hw : s.NoWrap) (x : Side)
    (now : Int) (beyond : ℕ → UInt8) :
    ∃ r n, ∃ ht : (out x).sent + n ≤ (out x).written.length,
      transmitStep (s.ep x) now beyond = .ok ((s.ep x).transmitted r, r.packets) ∧
      r.Transmits (s.ep x).sock (cfg.isn x).toNat (out x) now n ∧
      s.Continues cfg out inn x ((s.ep x).transmitted r) r.packets ((out x).dump n ht)
        (inn x) := by
  have href := h.endpoint x
  obtain ⟨r, n, hr, hsent⟩ := transmit_spec href.sock.sendBuf (hw.sendBuf x) now beyond
  have htransmit : transmitStep (s.ep x) now beyond =
      .ok ((s.ep x).transmitted r, r.packets) := by
    simp only [transmitStep, hr]
    rfl
  have hsends := hsent.packets
  obtain ⟨hentry, hhandshake, hexited, hexitTest⟩ := r.pc_ne
  refine ⟨r, n, hsent.written, htransmit, hsent, ?_⟩
  exact {
    refines := { href with
      sock := ⟨hsent.sendBuf, href.sock.recvBuf, href.sock.lastAck, href.sock.nextSeq⟩
      notEntry := hentry
      notHandshake := hhandshake
      leaving := fun hpc => absurd hpc (not_or.mpr ⟨hexitTest true, hexited⟩)
      exited := fun hpc => absurd hpc hexited
      crashed := fun hpc => Bool.or_eq_true_iff.mpr (Or.inr (by rw [hsent.crashed hpc]; rfl)) }
    sendCapacity := rfl
    recvCapacity := rfl
    written := List.prefix_refl _
    sent := Nat.le_add_right _ _
    next := le_refl _
    acked_lt := h.acked_lt x
    within := by simpa using h.within x.other
    sentFrom := fun p hp =>
      ⟨(hsends p hp).1.flags, (hsends p hp).1.ack, (hsends p hp).1.window,
        (hsends p hp).1.payload⟩
    honest := fun p hp => by
      obtain ⟨hfrom, k, n, hcar, hlo, hhi, _⟩ := hsends p hp
      exact hfrom.honest href.sock (fun _ => ⟨k, n, hcar, by omega, hhi⟩)
    strayed := fun hx => (Endpoint.strayed_transmitted.mp hx).1
    -- as long as no copy has left the ring, the packets hold the bytes written
    stream := fun hx hfirst => by
      have hin := (Endpoint.strayed_transmitted.mp hx).2
      have hn := hsent.le
      refine ⟨lt_of_le_of_lt (Nat.add_le_add_left hn _) ((hsent.lap hfirst).mp hin),
        fun p hp k n hcar => ?_⟩
      obtain ⟨_, k', n', hcar', _, _, hslice⟩ := hsends p hp
      obtain rfl : k' = k := Nat.add_left_cancel (hcar'.seq.symm.trans hcar.seq)
      exact hslice hin
    received := h.received x }

/-! ## Every step -/

/-- **No step faults**, and what it does is a move. -/
theorem Sys.Invariant.step (h : s.Invariant cfg out inn) (hw : s.NoWrap) {l : Label}
    {r : Except Fault Sys} (hstep : s.step l = some r) :
    ∃ s' out' inn', r = .ok s' ∧ Sys.Moves cfg s out inn l s' out' inn' := by
  cases l with
  | backend x now beyond =>
    simp only [Sys.step, Option.map_eq_some_iff] at hstep
    obtain ⟨r', hr', rfl⟩ := hstep
    by_cases hpc : (s.ep x).pc = .transmit
    · obtain ⟨r, n, ht, htransmit, hsent, hc⟩ := h.transmit hw x now beyond
      simp only [CmuTcp.backendSilent, hpc, htransmit, Option.some.injEq] at hr'
      obtain rfl := hr'
      -- the one location of the loop at which data is sent
      refine ⟨_, _, _, rfl, .transmit hpc hsent.le (fun hlives => hsent.all ?_) hc rfl hsent.edge
        fun hfirst => Endpoint.strayed_transmitted.trans (and_congr_right fun _ =>
          hsent.lap hfirst)⟩
      by_contra hfault
      exact hlives (if_neg hfault)
    · obtain ⟨e, rfl, hidle, hc⟩ := h.backendSilent hw hr' hpc
      exact ⟨_, _, _, rfl, .idle hpc hidle hc⟩
  | receive x now i =>
    simp only [Sys.step] at hstep
    split at hstep
    · rename_i p hp
      simp only [Option.map_eq_some_iff] at hstep
      obtain ⟨r', hr', rfl⟩ := hstep
      obtain ⟨e, replies, a, ha, inn', rfl, hc, hack, htakes, hreplies, hwindow,
        hstrayed⟩ :=
        h.receive hw hp hr'
      exact ⟨_, _, _, rfl, .receive hp hc hack htakes hreplies hwindow hstrayed⟩
    · exact absurd hstep (by simp)
  | writeCall x data =>
    simp only [Sys.step, Option.map_eq_some_iff] at hstep
    obtain ⟨e, he, rfl⟩ := hstep
    obtain ⟨hidle, hc⟩ := h.writeCall he
    exact ⟨_, _, _, rfl, .idle trivial hidle hc⟩
  | write x =>
    simp only [Sys.step, Option.map_eq_some_iff] at hstep
    obtain ⟨r', hr', rfl⟩ := hstep
    obtain ⟨e, o, rfl, hc, hacked, hwindow, hstrayed⟩ := h.write hw hr'
    exact ⟨_, _, _, rfl, .write hc hacked hwindow hstrayed⟩
  | read x length flags =>
    simp only [Sys.step, Option.map_eq_some_iff] at hstep
    obtain ⟨r', hr', rfl⟩ := hstep
    obtain ⟨e, n, hn, rfl, hc, hwindow, hstrayed⟩ := h.read hr'
    exact ⟨_, _, _, rfl, .read hc hwindow hstrayed⟩
  | close x =>
    simp only [Sys.step, Option.map_eq_some_iff] at hstep
    obtain ⟨e, he, rfl⟩ := hstep
    obtain ⟨hidle, hc⟩ := h.close he
    exact ⟨_, _, _, rfl, .idle trivial hidle hc⟩
  | lose x i =>
    simp only [Sys.step] at hstep
    split at hstep
    · exact ⟨_, _, _, (Option.some.inj hstep).symm, .lose⟩
    · exact absurd hstep (by simp)
  | duplicate x i =>
    simp only [Sys.step] at hstep
    split at hstep
    · rename_i p hp
      exact ⟨_, _, _, (Option.some.inj hstep).symm, .duplicate hp⟩
    · exact absurd hstep (by simp)

end Moves

/-! ## Runs -/

section Runs

variable {cfg : Config}

/-- The parameters of a connection for which its theorems hold. -/
structure Config.Valid (cfg : Config) : Prop where
  sendCapacity : ∀ x, 2 ≤ (cfg.sendCapacity x).toNat
  recvCapacity : ∀ x, 2 ≤ (cfg.recvCapacity x).toNat
  freshNull : cfg.FreshNull

/-- Right after the handshake nothing has been written and nothing has arrived. -/
theorem Config.Valid.established (hcfg : cfg.Valid) (hw : cfg.established.NoWrap) :
    ∃ out inn, cfg.established.Invariant cfg out inn := by
  have hpos : ∀ x, 0 < (cfg.sendCapacity x).toNat := fun x =>
    lt_of_lt_of_le Nat.two_pos (hcfg.sendCapacity x)
  have hpos' : ∀ x, 0 < (cfg.recvCapacity x).toNat := fun x =>
    lt_of_lt_of_le Nat.two_pos (hcfg.recvCapacity x)
  -- the greatest number that is used at the start
  have hwrap : ∀ x, (cfg.isn x).toNat + 1 < 2 ^ 32 := by
    intro x
    have hx : (cfg.isn x).toNat + (cfg.sendCapacity x).toNat < 2 ^ 32 := hw.sendBuf x
    have := hcfg.sendCapacity x
    omega
  refine ⟨fun x => .empty _ (hpos x), fun x => .empty _ (hpos' x), ?_⟩
  have hsucc : ∀ x, (cfg.isn x + 1).toNat = (cfg.isn x).toNat + 1 := by
    intro x
    rw [UInt32.toNat_add, UInt32.toNat_one]
    exact Nat.mod_eq_of_lt (hwrap x)
  -- the buffers hold a stream and a reassembly in which nothing has happened
  have hsend : ∀ x, (cfg.establishedSocket x).sendBuf.Refines (cfg.isn x).toNat
      (.empty _ (hpos x)) := by
    intro x
    obtain ⟨sb, hsb, href, _⟩ := refines_initialize (cfg.sendCapacity x) (cfg.env x).sendMem
      (cfg.isn x) (cfg.env x).now (hcfg.sendCapacity x)
    obtain rfl := Except.ok.inj hsb
    exact href
  have hrecv : ∀ x, (cfg.establishedSocket x).recvBuf.Refines (cfg.isn x.other).toNat
      (.empty _ (hpos' x)) := by
    intro x
    obtain ⟨rb, hrb, href⟩ := recv_refines_initialize (cfg.recvCapacity x) (cfg.env x).recvMem
      (cfg.env x).freshSegment (cfg.isn x.other) (hcfg.recvCapacity x) (hcfg.freshNull x)
      (hwrap x.other)
    obtain rfl := Except.ok.inj hrb
    exact href
  -- the threads are at the top of their loops
  exact {
    endpoint := fun x => {
      sock := ⟨hsend x, hrecv x, hsucc x, hsucc x.other⟩
      passed := rfl
      pending := Nat.two_pow_pos 31
      notEntry := by simp [Config.established]
      notHandshake := by simp [Config.established]
      dying := fun _ => rfl
      leaving := by simp [Config.established]
      exited := by simp [Config.established]
      crashed := by simp [Config.established] }
    sendCapacity := fun _ => rfl
    recvCapacity := fun _ => rfl
    acked_lt := fun _ => Nat.one_pos
    within := fun _ => ⟨le_refl _, by simp [Reassembly.empty]⟩
    -- nothing is in flight, and nothing has arrived
    inFlight := by simp [Config.established]
    faithful := fun x _ => {
      firstLap := hpos x
      inFlight := by simp [Config.established]
      holds := fun k hk => absurd hk.2 (by
        have hlt : 0 < k := hk.1
        simp only [Reassembly.Received, Reassembly.empty, IntervalList.Covers]
        simp
        omega)
      delivered := rfl } }

/-- **The invariant holds along every run** from the end of the handshake. -/
theorem Sys.Invariant.of_run (hcfg : cfg.Valid) {tr : List (Sys × Label)} {s : Sys}
    (h : FaultSystem.Run (systemFrom cfg.established) Sys.NoWrap tr s) :
    ∃ out inn, s.Invariant cfg out inn := by
  refine h.invariant (I := fun s => ∃ out inn, s.Invariant cfg out inn) ?_ ?_
  · rintro s rfl hw
    exact hcfg.established hw
  · rintro s l s' ⟨out, inn, hinv⟩ hw _ hstep
    obtain ⟨t, out', inn', ht, hm⟩ := hinv.step hw hstep
    obtain rfl := Except.ok.inj ht
    exact ⟨out', inn', hm.invariant hinv⟩

end Runs

/-! ## Small connections -/

theorem smallConfig_valid {capacity : UInt32} (hcap : 2 ≤ capacity.toNat) :
    (smallConfig capacity).Valid where
  sendCapacity _ := hcap
  recvCapacity _ := hcap
  freshNull x _ := by cases x <;> exact ⟨rfl, rfl⟩

/-- The acks of two packets arrive in the wrong order: the window of the first belongs to
    an ack of one byte, the greatest ack is that of three. -/
def staleWindowLabels : List Label :=
  [.writeCall .client [1], .write .client] ++ silentIteration .client (fun _ => 0) ++
    [.writeCall .client [2, 3], .write .client] ++ silentIteration .client (fun _ => 0) ++
    receivingIteration .server 0 ++ receivingIteration .server 0 ++
    receivingIteration .client 1 ++ [.writeCall .client [4, 5, 6], .write .client] ++
    receivingIteration .client 0

end CmuTcp
