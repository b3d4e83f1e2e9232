import CmuTcp.Handshake.Endpoint
import CmuTcp.Model.Udp

/-!
# The Packets of an Endpoint Are Framed

Every packet that an endpoint sends, or keeps for retransmission, has a `plen` that counts
its header and its body.  So `sendto` sends all its bytes, and a read loop that believes
the header takes the datagram and nothing else.

Every packet comes from a call of `create_packet` with header length 25, and
`createPacket_framed` is about that call.  What remains is one lemma for each function that
sends: the two send loops, `handle_message`, and the two handshakes with the packet that
they keep.
-/

namespace CmuTcp

open FaultSystem

/-- `plen` counts the header and the body. -/
def Packet.Framed (p : Packet) : Prop :=
  p.header.plen.toNat = headerLen.toNat + p.body.length

theorem Packet.Framed.length_bytes {p : Packet} (h : p.Framed) :
    p.bytes.length = p.header.plen.toNat := by
  have hhdr : headerLen.toNat = 25 := rfl
  rw [Packet.length_bytes, h, hhdr]

theorem Packet.Framed.datagram {p : Packet} (h : p.Framed) (source : SockAddr) :
    p.datagram source = ⟨source, p.bytes⟩ := by
  rw [Packet.datagram, ← h.length_bytes, List.take_length]

theorem createPacket_framed {src dst : UInt16} {seq ack : UInt32} {flags : UInt8}
    {advWindow : UInt16} {payload : List UInt8} {payloadLen : UInt16} {p : Packet}
    (h : p ∈ createPacket src dst seq ack headerLen (headerLen + payloadLen) flags advWindow
      payload payloadLen) (hle : payloadLen.toNat ≤ 1375)
    (hpayload : payload.length = payloadLen.toNat) : p.Framed := by
  rw [Option.mem_def, createPacket] at h
  split at h
  · exact absurd h (by simp)
  · split at h
    · exact absurd h (by simp)
    · obtain rfl := Option.some.inj h
      have hhdr : headerLen.toNat = 25 := rfl
      show (headerLen + payloadLen).toNat = headerLen.toNat + (payload.take payloadLen.toNat).length
      rw [List.take_of_length_le (le_of_eq hpayload), hpayload, UInt16.toNat_add, hhdr]
      omega

/-- A packet without payload. -/
theorem createPacket_nil_framed {src dst : UInt16} {seq ack : UInt32} {flags : UInt8}
    {advWindow : UInt16} {p : Packet}
    (h : p ∈ createPacket src dst seq ack headerLen headerLen flags advWindow [] 0) :
    p.Framed := by
  have hplen : headerLen + 0 = headerLen := UInt16.add_zero _
  rw [← hplen] at h
  exact createPacket_framed h (by decide) rfl

/-! ## Every packet -/

/-- The data packets of the two send functions. -/
theorem transmit_framed {sock : CmuSocket} {beyond : ℕ → UInt8} {now : Int} {sent : Sent}
    (h : transmit sock now beyond = .ok sent) : ∀ p ∈ sent.packets, p.Framed := by
  intro p hp
  obtain ⟨_, _, _, hle, hlen, hmsg⟩ := transmit_isData h p hp
  exact createPacket_framed hmsg hle hlen

theorem handleMessage_framed {sock sock' : CmuSocket} {pkt : Packet} {now : Int}
    {packets : List Packet} (h : handleMessage sock pkt now = .ok (sock', packets)) :
    ∀ p ∈ packets, p.Framed := by
  obtain ⟨_, _, h⟩ := ok_of_bind_ok h
  obtain ⟨_, _, h⟩ := ok_of_bind_ok h
  split at h
  · obtain ⟨_, rfl⟩ := Prod.mk.inj (Except.ok.inj h)
    simp
  · obtain ⟨sock₁, _, h⟩ := ok_of_bind_ok h
    dsimp only at h
    split at h
    · obtain ⟨rb, _, h⟩ := ok_of_bind_ok h
      obtain ⟨_, rfl⟩ := Prod.mk.inj (Except.ok.inj h)
      exact fun p hp => createPacket_nil_framed (Option.mem_toList.mp hp)
    · obtain ⟨_, rfl⟩ := Prod.mk.inj (Except.ok.inj h)
      simp

/-- The packet that a handshake keeps for retransmission is framed. -/
def Endpoint.KeepsFramed (e : Endpoint) : Prop :=
  ∀ packet, e.pc = .handshake packet → ∀ p ∈ packet, p.Framed

section Steps

variable {e e' : Endpoint} {packets : List Packet}

theorem Endpoint.KeepsFramed.silent (h : e.KeepsFramed) {now : Int} {beyond : ℕ → UInt8}
    (hstep : backendSilent e now beyond = some (.ok (e', packets))) :
    e'.KeepsFramed ∧ ∀ p ∈ packets, p.Framed := by
  unfold backendSilent at hstep
  split at hstep
  case h_1 =>
    -- `enter_handshake`: the client keeps the SYN it sends, the server keeps nothing
    have henter := Option.some.inj hstep
    unfold enterHandshake at henter
    split at henter
    · obtain ⟨⟨sock, packet⟩, hinit, hret⟩ := ok_of_bind_ok henter
      obtain ⟨_, _, hinit⟩ := ok_of_bind_ok hinit
      obtain ⟨_, rfl⟩ := Prod.mk.inj (Except.ok.inj hinit)
      obtain ⟨rfl, rfl⟩ := Prod.mk.inj (Except.ok.inj hret)
      refine ⟨fun packet hpc p hp => ?_, fun p hp =>
        createPacket_nil_framed (Option.mem_toList.mp hp)⟩
      obtain rfl := BackendPc.handshake.inj hpc
      exact createPacket_nil_framed hp
    · obtain ⟨sock, _, hret⟩ := ok_of_bind_ok henter
      obtain ⟨rfl, rfl⟩ := Prod.mk.inj (Except.ok.inj hret)
      refine ⟨fun packet hpc p hp => ?_, by simp⟩
      obtain rfl := BackendPc.handshake.inj hpc
      exact absurd hp (by simp)
  case h_2 packet hpc =>
    split at hstep
    -- a timeout of the handshake sends the packet that is kept
    · obtain ⟨rfl, rfl⟩ := Prod.mk.inj (Except.ok.inj (Option.some.inj hstep))
      exact ⟨h, fun p hp => h packet hpc p (Option.mem_toList.mp hp)⟩
    · exact absurd hstep (by simp)
  case h_3 =>
    obtain ⟨rfl, rfl⟩ := Prod.mk.inj (Except.ok.inj (Option.some.inj hstep))
    exact ⟨fun _ hpc => absurd hpc (by simp), by simp⟩
  case h_4 =>
    obtain ⟨rfl, rfl⟩ := Prod.mk.inj (Except.ok.inj (Option.some.inj hstep))
    refine ⟨fun _ hpc => absurd hpc ?_, by simp⟩
    dsimp only
    split <;> simp
  case h_5 =>
    obtain ⟨rfl, rfl⟩ := Prod.mk.inj (Except.ok.inj (Option.some.inj hstep))
    exact ⟨fun _ hpc => absurd hpc (by simp), by simp⟩
  case h_6 =>
    -- `transmit` sends data packets, framed by `create_packet`
    obtain ⟨sent, htransmit, hret⟩ := ok_of_bind_ok (Option.some.inj hstep)
    obtain ⟨rfl, rfl⟩ := Prod.mk.inj (Except.ok.inj hret)
    exact ⟨fun packet hpc => absurd hpc (sent.pc_ne.2.1 packet), transmit_framed htransmit⟩
  case h_7 => exact absurd hstep (by simp)
  case h_8 => exact absurd hstep (by simp)

theorem clientIteration_framed {packet : Option Packet} {pkt : Packet}
    (h : clientIteration e packet (some pkt) = .ok (e', packets)) :
    e'.KeepsFramed ∧ ∀ p ∈ packets, p.Framed := by
  obtain ⟨⟨sock, sent⟩, hiteration, hret⟩ := ok_of_bind_ok h
  obtain ⟨rfl, rfl⟩ := Prod.mk.inj (Except.ok.inj hret)
  refine ⟨fun _ hpc => absurd hpc (by simp), ?_⟩
  obtain ⟨_, _, hiteration⟩ := ok_of_bind_ok hiteration
  obtain ⟨_, _, hiteration⟩ := ok_of_bind_ok hiteration
  obtain ⟨_, _, hiteration⟩ := ok_of_bind_ok hiteration
  obtain ⟨_, _, hiteration⟩ := ok_of_bind_ok hiteration
  obtain ⟨_, rfl⟩ := Prod.mk.inj (Except.ok.inj hiteration)
  exact fun p hp => createPacket_nil_framed (Option.mem_toList.mp hp)

theorem serverIteration_framed {packet : Option Packet} {pkt : Packet} {now : Int}
    (hpc : e.pc = .handshake packet) (hkeeps : e.KeepsFramed)
    (h : serverIteration e packet pkt now = .ok (e', packets)) :
    e'.KeepsFramed ∧ ∀ p ∈ packets, p.Framed := by
  unfold serverIteration at h
  -- a listening server answers the SYN and keeps its answer
  split at h
  · obtain ⟨⟨sock, synAck⟩, hlisten, hret⟩ := ok_of_bind_ok h
    obtain ⟨rfl, rfl⟩ := Prod.mk.inj (Except.ok.inj hret)
    obtain ⟨_, _, hlisten⟩ := ok_of_bind_ok hlisten
    obtain ⟨_, _, hlisten⟩ := ok_of_bind_ok hlisten
    obtain ⟨_, rfl⟩ := Prod.mk.inj (Except.ok.inj hlisten)
    refine ⟨fun packet hpc p hp => ?_, fun p hp =>
      createPacket_nil_framed (Option.mem_toList.mp hp)⟩
    obtain rfl := BackendPc.handshake.inj hpc
    exact createPacket_nil_framed hp
  · obtain ⟨⟨sock, sent⟩, hrcvd, hret⟩ := ok_of_bind_ok h
    -- an answered server enters the loop by a good ack, and sends its answer again otherwise
    obtain ⟨_, _, hrcvd⟩ := ok_of_bind_ok hrcvd
    dsimp only at hret
    split at hrcvd
    · rename_i hdone
      rw [if_pos hdone] at hret
      obtain ⟨rfl, rfl⟩ := Prod.mk.inj (Except.ok.inj hret)
      exact ⟨fun _ hpc => absurd hpc (by simp), handleMessage_framed hrcvd⟩
    · rename_i hdone
      rw [if_neg hdone] at hret
      obtain ⟨_, _, hrcvd⟩ := ok_of_bind_ok hrcvd
      obtain ⟨_, rfl⟩ := Prod.mk.inj (Except.ok.inj hrcvd)
      obtain ⟨rfl, rfl⟩ := Prod.mk.inj (Except.ok.inj hret)
      exact ⟨hkeeps, fun p hp => hkeeps packet hpc p (Option.mem_toList.mp hp)⟩

theorem checkForData_framed {pkt : Packet} {now : Int}
    (h : checkForData e (some pkt) now = .ok (e', packets)) :
    e'.KeepsFramed ∧ ∀ p ∈ packets, p.Framed := by
  obtain ⟨⟨sock, sent⟩, hmsg, hret⟩ := ok_of_bind_ok h
  obtain ⟨rfl, rfl⟩ := Prod.mk.inj (Except.ok.inj hret)
  exact ⟨fun _ hpc => absurd hpc (by simp), handleMessage_framed hmsg⟩

end Steps

end CmuTcp
