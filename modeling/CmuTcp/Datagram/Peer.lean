import CmuTcp.Connection.Local
import CmuTcp.Model.Host

/-!
# Whom an Endpoint Talks To

Every `recvfrom` stores the address that it returns in `sock->conn`, and every `sendto`
goes there.  Nothing else touches the address, so it is the one of the last datagram that
any `recvfrom` returned, peeked at or not.

`Host.TalksTo addr h h'` says of two states of a host that between them packets went to
`addr` only, and that this is where the next would go.  Every step is one with the address
that it heard, or with the old one if it heard none (`Host.step_talksTo`).  The frames of
the packet level come first: none of its functions assigns `conn`.

Main result: `peer_fixed_iff`, with a run in which a stranger takes over the connection.
-/

namespace CmuTcp

open FaultSystem

/-! ## The packet level leaves the address alone -/

section Conn

variable {sock sock' : CmuSocket} {e e' : Endpoint} {packets : List Packet} {now : Int}

theorem handleMessage_conn {pkt : Packet} (h : handleMessage sock pkt now = .ok (sock', packets)) :
    sock'.conn = sock.conn := by
  unfold handleMessage at h
  obtain ⟨_, _, h⟩ := ok_of_bind_ok h
  obtain ⟨_, _, h⟩ := ok_of_bind_ok h
  split at h
  · obtain ⟨rfl, _⟩ := Prod.mk.inj (Except.ok.inj h)
    rfl
  · obtain ⟨sock₁, hack, hrest⟩ := ok_of_bind_ok h
    have hack' : sock₁.conn = sock.conn := by
      rcases handleAck_eq_ok hack with ⟨_, rfl⟩ | ⟨sb, _, rfl⟩
      · rfl
      · rfl
    dsimp only at hrest
    split at hrest
    · obtain ⟨_, _, hret⟩ := ok_of_bind_ok hrest
      obtain ⟨rfl, _⟩ := Prod.mk.inj (Except.ok.inj hret)
      exact hack'
    · obtain ⟨rfl, _⟩ := Prod.mk.inj (Except.ok.inj hrest)
      exact hack'

theorem clientIteration_conn {packet arrival : Option Packet}
    (h : clientIteration e packet arrival = .ok (e', packets)) :
    e'.sock.conn = e.sock.conn := by
  obtain ⟨⟨sock₁, sent⟩, hiter, hrest⟩ := ok_of_bind_ok h
  have hconn : sock₁.conn = e.sock.conn := by
    unfold initHandshakeClientIteration at hiter
    cases arrival with
    | none =>
      obtain ⟨rfl, _⟩ := Prod.mk.inj (Except.ok.inj hiter)
      rfl
    | some pkt =>
      obtain ⟨_, _, hiter⟩ := ok_of_bind_ok hiter
      obtain ⟨_, _, hiter⟩ := ok_of_bind_ok hiter
      obtain ⟨_, _, hiter⟩ := ok_of_bind_ok hiter
      obtain ⟨_, _, hiter⟩ := ok_of_bind_ok hiter
      obtain ⟨rfl, _⟩ := Prod.mk.inj (Except.ok.inj hiter)
      rfl
  cases arrival with
  | none =>
    obtain ⟨rfl, _⟩ := Prod.mk.inj (Except.ok.inj hrest)
    exact hconn
  | some pkt =>
    obtain ⟨rfl, _⟩ := Prod.mk.inj (Except.ok.inj hrest)
    exact hconn

theorem serverIteration_conn {packet : Option Packet} {pkt : Packet}
    (h : serverIteration e packet pkt now = .ok (e', packets)) :
    e'.sock.conn = e.sock.conn := by
  unfold serverIteration at h
  split at h
  -- in `LISTEN`: the SYN is answered
  · obtain ⟨⟨sock₁, synAck⟩, hlisten, hret⟩ := ok_of_bind_ok h
    obtain ⟨_, _, hlisten⟩ := ok_of_bind_ok hlisten
    obtain ⟨_, _, hlisten⟩ := ok_of_bind_ok hlisten
    obtain ⟨rfl, _⟩ := Prod.mk.inj (Except.ok.inj hlisten)
    obtain ⟨rfl, _⟩ := Prod.mk.inj (Except.ok.inj hret)
    rfl
  -- in `SYN_RCVD`: the packet is handled, or the SYN-ACK sent again
  · obtain ⟨⟨sock₁, sent⟩, hrcvd, hret⟩ := ok_of_bind_ok h
    have hconn : sock₁.conn = e.sock.conn := by
      obtain ⟨_, _, hrcvd⟩ := ok_of_bind_ok hrcvd
      split at hrcvd
      · exact (handleMessage_conn hrcvd :)
      · obtain ⟨_, _, hrcvd⟩ := ok_of_bind_ok hrcvd
        obtain ⟨rfl, _⟩ := Prod.mk.inj (Except.ok.inj hrcvd)
        rfl
    dsimp only at hret
    split at hret
    · obtain ⟨rfl, _⟩ := Prod.mk.inj (Except.ok.inj hret)
      exact hconn
    · obtain ⟨rfl, _⟩ := Prod.mk.inj (Except.ok.inj hret)
      exact hconn

theorem checkForData_conn {arrival : Option Packet}
    (h : checkForData e arrival now = .ok (e', packets)) : e'.sock.conn = e.sock.conn := by
  unfold checkForData at h
  cases arrival with
  | none =>
    obtain ⟨rfl, _⟩ := Prod.mk.inj (Except.ok.inj h)
    rfl
  | some pkt =>
    obtain ⟨⟨sock₁, sent⟩, hmsg, hret⟩ := ok_of_bind_ok h
    obtain ⟨rfl, _⟩ := Prod.mk.inj (Except.ok.inj hret)
    exact handleMessage_conn hmsg

theorem backendSilent_conn {beyond : ℕ → UInt8}
    (h : backendSilent e now beyond = some (.ok (e', packets))) :
    e'.sock.conn = e.sock.conn := by
  unfold backendSilent at h
  split at h
  -- the client builds its SYN, and the server waits for one
  case h_1 =>
    have hentry := Option.some.inj h
    unfold enterHandshake at hentry
    split at hentry
    · obtain ⟨⟨sock₁, packet⟩, hinit, hret⟩ := ok_of_bind_ok hentry
      obtain ⟨_, _, hinit⟩ := ok_of_bind_ok hinit
      obtain ⟨rfl, _⟩ := Prod.mk.inj (Except.ok.inj hinit)
      obtain ⟨rfl, _⟩ := Prod.mk.inj (Except.ok.inj hret)
      rfl
    · obtain ⟨sock₁, hinit, hret⟩ := ok_of_bind_ok hentry
      obtain ⟨_, _, hinit⟩ := ok_of_bind_ok hinit
      obtain rfl := Except.ok.inj hinit
      obtain ⟨rfl, _⟩ := Prod.mk.inj (Except.ok.inj hret)
      rfl
  -- the client sends its SYN again
  case h_2 =>
    split at h
    · exact clientIteration_conn (Option.some.inj h)
    · exact absurd h (by simp)
  -- the loop up to the exit test
  case h_3 =>
    obtain ⟨rfl, _⟩ := Prod.mk.inj (Except.ok.inj (Option.some.inj h))
    rfl
  case h_4 =>
    obtain ⟨rfl, _⟩ := Prod.mk.inj (Except.ok.inj (Option.some.inj h))
    rfl
  -- no packet has arrived
  case h_5 => exact checkForData_conn (Option.some.inj h)
  -- the sending part
  case h_6 =>
    obtain ⟨sent, _, hret⟩ := ok_of_bind_ok (Option.some.inj h)
    obtain ⟨rfl, _⟩ := Prod.mk.inj (Except.ok.inj hret)
    rfl
  case h_7 => exact absurd h (by simp)
  case h_8 => exact absurd h (by simp)

end Conn

/-! ## One step -/

/-- The address that the step leaves in `sock->conn`: that of the datagram that a
    `recvfrom` returns. -/
def HostLabel.heard (h : Host) : HostLabel → SockAddr
  | .recvfrom _ =>
    match h.queue with
    | [] => h.ep.sock.conn
    | d :: _ => d.source
  | _ => h.ep.sock.conn

/-- From `h` to `h'`, packets have been sent to `addr` alone, and it is in `sock->conn`. -/
structure Host.TalksTo (h h' : Host) (addr : SockAddr) : Prop where
  conn : h'.ep.sock.conn = addr
  sent : ∃ later, h'.sentTo = h.sentTo ++ later ∧ ∀ a ∈ later, a = addr

section Steps

variable {h h' : Host} {l : HostLabel}

theorem Host.TalksTo.put {r : Endpoint × List Packet} {addr : SockAddr}
    (hconn : r.1.sock.conn = addr) : h.TalksTo (h.put r) addr := by
  refine ⟨hconn, _, rfl, fun a ha => ?_⟩
  obtain ⟨_, _, rfl⟩ := List.mem_map.mp ha
  exact hconn

theorem Host.TalksTo.of_sentTo_eq {addr : SockAddr} (hconn : h'.ep.sock.conn = addr)
    (hsent : h'.sentTo = h.sentTo) : h.TalksTo h' addr :=
  ⟨hconn, [], by rw [hsent, List.append_nil], nofun⟩

theorem Host.TalksTo.trans {h'' : Host} {addr addr' : SockAddr} (hfirst : h.TalksTo h' addr)
    (hnext : h'.TalksTo h'' addr') (heq : addr' = addr) : h.TalksTo h'' addr := by
  obtain ⟨first, hfirstSent, hfirstTo⟩ := hfirst.sent
  obtain ⟨next, hnextSent, hnextTo⟩ := hnext.sent
  refine ⟨hnext.conn.trans heq, first ++ next, ?_, fun a ha => ?_⟩
  · rw [hnextSent, hfirstSent, List.append_assoc]
  · rcases List.mem_append.mp ha with hold | hnew
    · exact hfirstTo a hold
    · exact (hnextTo a hnew).trans heq

theorem Host.TalksTo.putResult {r : Except Fault (Endpoint × List Packet)} {addr : SockAddr}
    (hput : h.putResult r = .ok h') (hconn : ∀ e packets, r = .ok (e, packets) →
      e.sock.conn = addr) : h.TalksTo h' addr := by
  cases r with
  | error f => exact absurd hput (by simp [Host.putResult, Except.mapError, Except.map])
  | ok r =>
    obtain rfl := Except.ok.inj hput
    exact .put (hconn r.1 r.2 rfl)

theorem Host.recvfrom_talksTo {now : Int} (hstep : h.recvfrom now = some (.ok h')) :
    h.TalksTo h' ((HostLabel.recvfrom now).heard h) := by
  unfold Host.recvfrom at hstep
  split at hstep
  -- it waits while the queue is empty
  · exact absurd hstep (by simp)
  -- the address is that of the head of the queue
  · rename_i d rest hqueue
    have hheard : (HostLabel.recvfrom now).heard h = d.source := by
      simp only [HostLabel.heard, hqueue]
    rw [hheard]
    dsimp only at hstep
    split at hstep
    -- a read loop takes what is missing
    · split at hstep
      · obtain rfl := Except.ok.inj (Option.some.inj hstep)
        exact .of_sentTo_eq rfl rfl
      · exact absurd hstep (by simp)
    -- a handshake: the client reads a header, and so does the server in `LISTEN`
    · split at hstep
      · split at hstep
        · split at hstep
          · have hput := Host.TalksTo.putResult (Option.some.inj hstep)
              fun e packets hr => clientIteration_conn hr
            exact ⟨hput.conn, hput.sent⟩
          · obtain rfl := Except.ok.inj (Option.some.inj hstep)
            exact .of_sentTo_eq rfl rfl
        · split at hstep
          · split at hstep
            · have hput := Host.TalksTo.putResult (Option.some.inj hstep)
                fun e packets hr => serverIteration_conn hr
              exact ⟨hput.conn, hput.sent⟩
            · exact absurd hstep (by simp)
          -- in `SYN_RCVD` the peek is followed by a read loop
          · split at hstep
            · obtain rfl := Except.ok.inj (Option.some.inj hstep)
              exact .of_sentTo_eq rfl rfl
            · obtain rfl := Except.ok.inj (Option.some.inj hstep)
              exact .of_sentTo_eq rfl rfl
      -- the peek of `check_for_data`
      · split at hstep
        · obtain rfl := Except.ok.inj (Option.some.inj hstep)
          exact .of_sentTo_eq rfl rfl
        · obtain rfl := Except.ok.inj (Option.some.inj hstep)
          exact .of_sentTo_eq rfl rfl
      · exact absurd hstep (by simp)

theorem Host.backend_talksTo {now : Int} {beyond : ℕ → UInt8}
    (hstep : h.backend now beyond = some (.ok h')) : h.TalksTo h' h.ep.sock.conn := by
  unfold Host.backend at hstep
  split at hstep
  · dsimp only at hstep
    split at hstep
    · exact absurd hstep (by simp)
    · split at hstep
      · split at hstep
        · exact absurd hstep (by simp)
        · have hput := Host.TalksTo.putResult (Option.some.inj hstep)
            fun e packets hr => serverIteration_conn hr
          exact ⟨hput.conn, hput.sent⟩
      · split at hstep
        · exact absurd hstep (by simp)
        · have hput := Host.TalksTo.putResult (Option.some.inj hstep)
            fun e packets hr => checkForData_conn hr
          exact ⟨hput.conn, hput.sent⟩
      · exact absurd hstep (by simp)
  · split at hstep
    · exact absurd hstep (by simp)
    · obtain ⟨r, hr, hput⟩ := Option.map_eq_some_iff.mp hstep
      exact .putResult hput fun e packets hok => backendSilent_conn (hok ▸ hr)

/-- **Every step** leaves the address it heard, and sends there. -/
theorem Host.step_talksTo (hstep : h.step l = some (.ok h')) : h.TalksTo h' (l.heard h) := by
  -- a datagram that arrives is only put into the queue
  cases l with
  | arrive d =>
    obtain rfl := Except.ok.inj (Option.some.inj hstep)
    exact .of_sentTo_eq rfl rfl
  | recvfrom now => exact Host.recvfrom_talksTo hstep
  | backend now beyond => exact Host.backend_talksTo hstep
  -- calls of the application send nothing and leave the address alone
  | writeCall data =>
    obtain ⟨e, he, hret⟩ := Option.map_eq_some_iff.mp hstep
    obtain rfl := Except.ok.inj hret
    refine .put ?_
    obtain ⟨_, rfl⟩ := appWriteCall_eq_some he
    rfl
  | write =>
    obtain ⟨r, hr, hret⟩ := Option.map_eq_some_iff.mp hstep
    refine .putResult hret fun e packets hok => ?_
    obtain ⟨e', rfl, hpair⟩ := ok_of_map_ok hok
    obtain ⟨rfl, _⟩ := Prod.mk.inj hpair
    obtain ⟨_, _, _, _, _, rfl⟩ := appWrite_ok hr
    rfl
  | read length flags =>
    obtain ⟨r, hr, hret⟩ := Option.map_eq_some_iff.mp hstep
    refine .putResult hret fun e packets hok => ?_
    obtain ⟨e', rfl, hpair⟩ := ok_of_map_ok hok
    obtain ⟨rfl, _⟩ := Prod.mk.inj hpair
    obtain ⟨_, _, _, _, rfl⟩ := appRead_ok hr
    rfl
  | close =>
    obtain ⟨e, he, hret⟩ := Option.map_eq_some_iff.mp hstep
    obtain rfl := Except.ok.inj hret
    refine .put ?_
    obtain ⟨_, rfl⟩ := appClose_eq_some he
    rfl

/-- A datagram that the step returns comes from `addr`. -/
def HostLabel.ReturnsFrom (addr : SockAddr) (h : Host) : HostLabel → Prop
  | .recvfrom _ => ∀ d ∈ h.queue.head?, d.source = addr
  | _ => True

theorem HostLabel.heard_eq_iff {addr : SockAddr} (hconn : h.ep.sock.conn = addr) :
    l.heard h = addr ↔ l.ReturnsFrom addr h := by
  cases l with
  | recvfrom now =>
    cases hqueue : h.queue with
    | nil => simp [HostLabel.heard, HostLabel.ReturnsFrom, hqueue, hconn]
    | cons d rest => simp [HostLabel.heard, HostLabel.ReturnsFrom, hqueue]
  | arrive d => exact iff_of_true hconn trivial
  | backend now beyond => exact iff_of_true hconn trivial
  | writeCall data => exact iff_of_true hconn trivial
  | write => exact iff_of_true hconn trivial
  | read length flags => exact iff_of_true hconn trivial
  | close => exact iff_of_true hconn trivial

end Steps

/-! ## Runs -/

/-- **When the peer is fixed.**  From any host (an initiator that `cmu_socket` has just
    made, a listener that has just answered its first SYN), whatever arrives: `sock->conn`
    stays as it is, and every packet goes there, if and only if no `recvfrom` returns a
    datagram from another address. -/
theorem peer_fixed_iff {h₀ h : Host} {tr : List (Host × HostLabel)}
    (hrun : Run (hostSystem h₀) (fun _ => True) tr h) :
    (∀ t ∈ visited tr h, h₀.TalksTo t h₀.ep.sock.conn) ↔
      ∀ p ∈ tr, p.2.ReturnsFrom h₀.ep.sock.conn p.1 := by
  refine Run.forall_visited_iff (I := fun _ => True) (fun _ _ _ => trivial) ?_ ?_ hrun
  · rintro h rfl _
    exact .of_sentTo_eq rfl rfl
  · intro s l s' _ htalks _ hstep
    have hnext := Host.step_talksTo hstep
    rw [← HostLabel.heard_eq_iff htalks.conn]
    constructor
    · intro htalks'
      exact hnext.conn.symm.trans htalks'.conn
    · intro hheard
      exact htalks.trans hnext hheard

/-- An initiator that has sent its SYN to `⟨0, 0⟩`. -/
def helloLabels : List HostLabel := [.backend 0 (fun _ => 0)]

/-- The SYN-ACK that answers it, from `source`. -/
def synAckFrom (source : SockAddr) : Datagram where
  source := source
  bytes := CmuTcpHeader.bytes
    ⟨packetIdentifier, 0, 0, 500, 101, headerLen, headerLen, synFlagMask ||| ackFlagMask, 10, 0⟩

/-- The peer answers. -/
theorem peer_fixed_iff_answered : ∃ tr h,
    Run (hostSystem ((smallConfig 4).createdHost .client)) (fun _ => True) tr h ∧
    h.ep.sock.state = .established ∧
    ∀ t ∈ visited tr h, ((smallConfig 4).createdHost .client).TalksTo t ⟨0, 0⟩ := by
  have hinit : Run (hostSystem ((smallConfig 4).createdHost .client)) (fun _ => True) []
      ((smallConfig 4).createdHost .client) := .init rfl trivial
  have hrun := hinit.exec (helloLabels ++ [.arrive (synAckFrom ⟨0, 0⟩), .recvfrom 0]) rfl
  refine ⟨_, _, hrun, rfl, (peer_fixed_iff hrun).mpr fun p hp => ?_⟩
  simp only [List.nil_append] at hp
  rcases List.mem_cons.mp hp with rfl | hp
  · trivial
  · rcases List.mem_cons.mp hp with rfl | hp
    · trivial
    · rcases List.mem_cons.mp hp with rfl | hp
      · intro d hd
        obtain rfl := Option.some.inj hd
        rfl
      · exact absurd hp List.not_mem_nil

/-- Somebody else answers, and gets the ACK; a byte from a third address, which is looked at
    and never received, then takes the data of the application to that address. -/
theorem peer_redirected : ∃ tr h,
    Run (hostSystem ((smallConfig 4).createdHost .client)) (fun _ => True) tr h ∧
    ((smallConfig 4).createdHost .client).ep.sock.conn = ⟨0, 0⟩ ∧
    h.ep.sock.conn = ⟨7, 8⟩ ∧ h.sentTo = [⟨0, 0⟩, ⟨5, 6⟩, ⟨7, 8⟩] := by
  have hinit : Run (hostSystem ((smallConfig 4).createdHost .client)) (fun _ => True) []
      ((smallConfig 4).createdHost .client) := .init rfl trivial
  have hrun := hinit.exec (helloLabels ++ [.arrive (synAckFrom ⟨5, 6⟩), .recvfrom 0,
    .writeCall [1], .write, .arrive ⟨⟨7, 8⟩, [0]⟩, .backend 0 (fun _ => 0),
    .backend 0 (fun _ => 0), .recvfrom 0, .backend 0 (fun _ => 0)]) rfl
  exact ⟨_, _, hrun, rfl, rfl, rfl⟩

end CmuTcp
