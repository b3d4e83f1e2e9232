import CmuTcp.Library.FaultSystem
import CmuTcp.Model.Network

/-!
# Which Asserts Can Fail Where

The asserts of `init_handshake_client`, `init_handshake_server`, `recv_buffer_initialize`
and `handle_message` look at the flags and numbers of handshake packets.  Everything else
that an endpoint does fails at other asserts or at memory, if it fails, whatever state its
buffers are in.

`Tolerates x` says that of a computation, and the library's rules for which faults a
computation can end with take it from the parts to the whole.  So there is one lemma for
each function, in the order in which they call each other.
-/

namespace CmuTcp

open FaultSystem

/-- Is it an assert of the handshakes, `recv_buffer_initialize` or `handle_message`? -/
def AssertSite.ofHandshake : AssertSite → Bool
  | .recvBufferInitialize => true
  | .handleMessageAck => true
  | .handleMessageSyn => true
  | .handshakeClientType => true
  | .handshakeClientSyn => true
  | .handshakeClientAck => true
  | .handshakeClientAckNumber => true
  | .handshakeServerType => true
  | .handshakeServerSyn => true
  | .handshakeServerState => true
  | .handshakeServerSynAgain => true
  | _ => false

def Fault.ofHandshake : Fault → Bool
  | .assertion site => site.ofHandshake
  | .memory => false

/-- The computation violates none of these asserts. -/
abbrev Tolerates {α : Type} (x : Except Fault α) : Prop :=
  FailsOnly (fun f => f.ofHandshake = false) x

theorem tolerates_cAssert {b : Prop} [Decidable b] {site : AssertSite}
    (h : site.ofHandshake = false) : Tolerates (cAssert b site) :=
  .ite (.ok ()) (.error h)

theorem tolerates_orMemoryFault {α : Type} (a : Option α) : Tolerates (orMemoryFault a) := by
  cases a with
  | none => exact .error rfl
  | some a => exact .ok a

/-! ## The send buffer -/

theorem tolerates_memcpyTo (dst : List UInt8) (dstOff : UInt32) (src : List UInt8)
    (srcOff len : UInt32) : Tolerates (memcpyTo dst dstOff src srcOff len) :=
  .ite (.ok _) (.error rfl)

theorem tolerates_sendBufferWrite (sb : SendBuffer) (buf : List UInt8) (len : UInt32) :
    Tolerates (sendBufferWrite sb buf len) := by
  refine .bind (tolerates_cAssert rfl) fun _ => .ite (.ok _) (.bind ?_ fun _ => .ok _)
  exact .ite (tolerates_memcpyTo ..)
    (.bind (tolerates_memcpyTo ..) fun _ => tolerates_memcpyTo ..)

theorem tolerates_sendBufferUpdateAck (sb : SendBuffer) (hdrAck : UInt32) (now : Int) :
    Tolerates (sendBufferUpdateAck sb hdrAck now) := by
  refine .ite (.bind ?_ fun _ => .ok _) (.ok _)
  exact .bind (tolerates_cAssert rfl) fun _ => .bind (tolerates_cAssert rfl) fun _ => .ok _

/-! ## The receive buffer -/

theorem tolerates_seqnumToIndexRecv (rb : RecvBuffer) (seqnum : UInt32) :
    Tolerates (seqnumToIndexRecv rb seqnum) :=
  .bind (tolerates_cAssert rfl) fun _ => .ok _

theorem tolerates_safeMemcpyToRecvbuf (rb : RecvBuffer) (startIndex len : UInt32)
    (data : List UInt8) : Tolerates (safeMemcpyToRecvbuf rb startIndex len data) :=
  .ite (tolerates_memcpyTo ..) (.bind (tolerates_memcpyTo ..) fun _ => tolerates_memcpyTo ..)

theorem tolerates_settleMerged (rb : RecvBuffer) (nextExpectedSeq : UInt32)
    (seg : LinkedHeap.Ptr) : Tolerates (settleMerged rb nextExpectedSeq seg) := by
  refine .bind (tolerates_orMemoryFault _) fun s => .ite ?_ (.ok _)
  refine .bind (tolerates_seqnumToIndexRecv ..) fun _ => ?_
  exact .bind (tolerates_orMemoryFault _) fun _ => .bind (tolerates_orMemoryFault _) fun _ => .ok _

theorem tolerates_recvBufferReceive (rb : RecvBuffer) (seqnum len : UInt32)
    (data : List UInt8) : Tolerates (recvBufferReceive rb seqnum len data) := by
  unfold recvBufferReceive
  refine .bind (tolerates_cAssert rfl) fun _ => ?_
  dsimp only
  split
  · refine .ite ?_ ?_
    · refine .bind (tolerates_seqnumToIndexRecv ..) fun _ => ?_
      refine .bind (tolerates_safeMemcpyToRecvbuf ..) fun _ => ?_
      exact .bind (tolerates_seqnumToIndexRecv ..) fun _ => .ok _
    · refine .bind (tolerates_seqnumToIndexRecv ..) fun _ => ?_
      refine .bind (tolerates_safeMemcpyToRecvbuf ..) fun _ => ?_
      exact .bind (tolerates_orMemoryFault _) fun _ => .ok _
  · refine .bind (tolerates_orMemoryFault _) fun _ => ?_
    refine .bind (tolerates_settleMerged ..) fun _ => ?_
    refine .bind (tolerates_seqnumToIndexRecv ..) fun _ => ?_
    exact .bind (tolerates_safeMemcpyToRecvbuf ..) fun _ => .ok _

theorem tolerates_memcpyFrom (src : List UInt8) (srcOff len : UInt32) :
    Tolerates (memcpyFrom src srcOff len) :=
  .ite (.ok _) (.error rfl)

theorem tolerates_recvBufferRead (rb : RecvBuffer) (len : UInt32) :
    Tolerates (recvBufferRead rb len) := by
  refine .bind (tolerates_cAssert rfl) fun _ => .ite (.ok _) (.bind ?_ fun _ => .ok _)
  refine .bind (tolerates_seqnumToIndexRecv ..) fun _ => .ite (tolerates_memcpyFrom ..) ?_
  exact .bind (tolerates_memcpyFrom ..) fun _ => .bind (tolerates_memcpyFrom ..) fun _ => .ok _

/-! ## The socket -/

theorem tolerates_cmuWriteIteration (sock : CmuSocket) (buf : List UInt8) :
    Tolerates (cmuWriteIteration sock buf) :=
  .ite (.bind (tolerates_sendBufferWrite ..) fun _ => .ok _) (.ok _)

theorem tolerates_cmuRead (sock : CmuSocket) (length : Int) (flags : CmuReadMode) :
    Tolerates (cmuRead sock length flags) := by
  have hread : Tolerates (cmuReadAvailable sock length) :=
    .ite (.bind (tolerates_recvBufferRead ..) fun _ => .ok _) (.ok _)
  refine .ite (.ok _) ?_
  cases flags with
  | timeout => exact .ok _
  | noFlag => exact hread
  | noWait => exact hread

theorem tolerates_transmit (sock : CmuSocket) (now : Int) (beyond : ℕ → UInt8) :
    Tolerates (transmit sock now beyond) :=
  .ite (.bind (tolerates_cAssert rfl) fun _ => .ite (.ok _) (.ok _)) (.ok _)

theorem tolerates_handleAck (sock : CmuSocket) (acknum : UInt32) (now : Int) :
    Tolerates (handleAck sock acknum now) :=
  .ite (.ok _) (.bind (tolerates_sendBufferUpdateAck ..) fun _ => .ok _)

theorem tolerates_handlePayload (sock : CmuSocket) (pkt : Packet) :
    Tolerates (handlePayload sock pkt) :=
  .bind (.ite (tolerates_recvBufferReceive ..) (.ok _)) fun _ => .ok _

end CmuTcp
