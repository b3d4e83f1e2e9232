import Mathlib.Algebra.Group.Nat.Defs
import Mathlib.Data.List.Basic
import CmuTcp.Library.BigEndian

/-!
# Packets

The packet format of `cmu_packet.h` and the functions of `cmu_packet.c` that the two
endpoints use on it, with the constants of `grading.h`.

A packet is its header, with the field values as the getters return them (host byte
order), and the bytes that follow the 25 header bytes.  The module also fixes what can
go wrong in the program: a failed `assert`, named by the function it stands in, and an
access to memory outside the object it is meant for.
-/

namespace CmuTcp

/-! ## Faults -/

/-- The `assert`s of the program, named by their function and what they check. -/
inductive AssertSite where
  -- `seqnum >= last_byte_read_seqnum` in `seqnum_to_index_recv`
  | seqnumToIndexRecv
  -- `last_byte_read_seqnum == 0` in `recv_buffer_initialize`
  | recvBufferInitialize
  -- `len <= recv_buffer_max_read` in `recv_buffer_read`
  | recvBufferRead
  -- `recv_buffer_can_receive == 0` in `recv_buffer_receive`
  | recvBufferReceive
  -- `seqnum >= last_byte_acked_seqnum` in `seqnum_to_index_send`
  | seqnumToIndexSendLow
  -- `seqnum < last_byte_acked_seqnum + capacity` in `seqnum_to_index_send`
  | seqnumToIndexSendHigh
  -- `last_byte_acked_seqnum == 0` in `send_buffer_initialize`
  | sendBufferInitialize
  -- `len <= send_buffer_max_write` in `send_buffer_write`
  | sendBufferWrite
  -- `get_flags(hdr) & ACK_FLAG_MASK` in `handle_message`
  | handleMessageAck
  -- `!(get_flags(hdr) & SYN_FLAG_MASK)` in `handle_message`
  | handleMessageSyn
  -- `sock->type == TCP_INITIATOR` in `init_handshake_client`
  | handshakeClientType
  -- `get_flags(&hdr) & SYN_FLAG_MASK` in `init_handshake_client`
  | handshakeClientSyn
  -- `get_flags(&hdr) & ACK_FLAG_MASK` in `init_handshake_client`
  | handshakeClientAck
  -- `get_ack(&hdr) == last_ack_received + 1` in `init_handshake_client`
  | handshakeClientAckNumber
  -- `sock->type == TCP_LISTENER` in `init_handshake_server`
  | handshakeServerType
  -- `get_flags(&hdr) == SYN_FLAG_MASK` in the `LISTEN` branch of `init_handshake_server`
  | handshakeServerSyn
  -- `sock->state == SYN_RCVD` in `init_handshake_server`
  | handshakeServerState
  -- `get_flags(&hdr) & SYN_FLAG_MASK` in the `SYN_RCVD` branch of `init_handshake_server`
  | handshakeServerSynAgain
  -- `num_unacknowledged > 0` in `resend_unacknowledged`
  | resendUnacknowledged
  deriving DecidableEq, Repr

/-- What ends a run of the program. -/
inductive Fault where
  /-- a failed `assert` -/
  | assertion (site : AssertSite)
  /-- a read or write outside the object it is meant for, or through a dead pointer -/
  | memory
  deriving DecidableEq, Repr

/-- `assert(b)` -/
def cAssert (b : Prop) [Decidable b] (site : AssertSite) : Except Fault Unit :=
  if b then .ok () else .error (.assertion site)

@[simp] theorem cAssert_of {b : Prop} [Decidable b] (h : b) (site : AssertSite) :
    cAssert b site = .ok () := if_pos h

/-- What the tests `len == 0` leave. -/
theorem toNat_pos_of_ne_zero {len : UInt32} (hne : len ≠ 0) : 0 < len.toNat :=
  Nat.pos_of_ne_zero fun h0 => hne (UInt32.toNat_inj.mp h0)

/-! ## Constants -/

/-- `sizeof(cmu_tcp_header_t)`: the packed fields take 25 bytes. -/
def headerLen : UInt16 := 25

/-- `MAX_LEN` -/
def maxLen : UInt32 := 1400

/-- `MSS`, that is `MAX_LEN - sizeof(cmu_tcp_header_t)` -/
def mss : UInt32 := maxLen - headerLen.toUInt32

/-- `CP1_WINDOW_SIZE`, that is `MSS * 32`, as the `uint16_t` it is stored in -/
def cp1WindowSize : UInt16 := (mss * 32).toUInt16

/-- `DEFAULT_TIMEOUT`, in milliseconds -/
def defaultTimeout : Int := 3000

/-- `IDENTIFIER` -/
def packetIdentifier : UInt32 := 15441

/-- `SYN_FLAG_MASK` -/
def synFlagMask : UInt8 := 0x8

/-- `ACK_FLAG_MASK` -/
def ackFlagMask : UInt8 := 0x4

/-- `FIN_FLAG_MASK` -/
def finFlagMask : UInt8 := 0x2

/-! ## Headers and packets -/

/-- `cmu_tcp_header_t` -/
structure CmuTcpHeader where
  identifier : UInt32
  sourcePort : UInt16
  destinationPort : UInt16
  seqNum : UInt32
  ackNum : UInt32
  hlen : UInt16
  plen : UInt16
  flags : UInt8
  advertisedWindow : UInt16
  extensionLength : UInt16
  deriving DecidableEq, Repr

/-- A packet: its header and the bytes after the header. -/
structure Packet where
  header : CmuTcpHeader
  body : List UInt8
  deriving DecidableEq, Repr

/-- `get_payload`: the bytes from the payload pointer to the end of the packet. -/
def getPayload (pkt : Packet) : List UInt8 :=
  pkt.body.drop pkt.header.extensionLength.toNat

/-- `get_payload_len` -/
def getPayloadLen (pkt : Packet) : UInt16 :=
  pkt.header.plen - pkt.header.hlen

theorem payloadLen_pos {pkt : Packet} (hne : getPayloadLen pkt ≠ 0) :
    0 < (getPayloadLen pkt).toNat :=
  Nat.pos_of_ne_zero fun h0 => hne (UInt16.toNat_inj.mp h0)

/-- `create_packet`, which every caller uses without extension data; `none` is the null
    pointer it returns for impossible lengths.  `payload` is what lies at the payload
    pointer, `payloadLen` of which is copied. -/
def createPacket (src dst : UInt16) (seq ack : UInt32) (hlen plen : UInt16) (flags : UInt8)
    (advWindow : UInt16) (payload : List UInt8) (payloadLen : UInt16) : Option Packet :=
  if hlen < headerLen then none
  else if plen < hlen then none
  else some {
    header := {
      identifier := packetIdentifier, sourcePort := src, destinationPort := dst
      seqNum := seq, ackNum := ack, hlen := hlen, plen := plen, flags := flags
      advertisedWindow := advWindow, extensionLength := 0 }
    body := payload.take payloadLen.toNat }

/-- Does the packet carry the flag? -/
def Packet.hasFlag (pkt : Packet) (mask : UInt8) : Bool :=
  pkt.header.flags &&& mask != 0

/-! ## Packets as bytes

The getters of `cmu_packet.c` on the bytes of a packet, in the layout of
`cmu_tcp_header_t`: packed fields, in network byte order. -/

section Wire

open BigEndian

/-- The header fields of a byte string, as `get_src`, `get_dst`, ... return them. -/
def parseHeader (bytes : List UInt8) : CmuTcpHeader where
  identifier := UInt32.ofNat (field bytes 0 4)
  sourcePort := UInt16.ofNat (field bytes 4 2)
  destinationPort := UInt16.ofNat (field bytes 6 2)
  seqNum := UInt32.ofNat (field bytes 8 4)
  ackNum := UInt32.ofNat (field bytes 12 4)
  hlen := UInt16.ofNat (field bytes 16 2)
  plen := UInt16.ofNat (field bytes 18 2)
  flags := UInt8.ofNat (field bytes 20 1)
  advertisedWindow := UInt16.ofNat (field bytes 21 2)
  extensionLength := UInt16.ofNat (field bytes 23 2)

/-- The packet in a byte string of at least 25 bytes. -/
def parsePacket (bytes : List UInt8) : Packet where
  header := parseHeader bytes
  body := bytes.drop headerLen.toNat

/-- The bytes that `set_header` writes. -/
def CmuTcpHeader.bytes (h : CmuTcpHeader) : List UInt8 :=
  write 4 h.identifier.toNat ++ (write 2 h.sourcePort.toNat ++ (write 2 h.destinationPort.toNat ++
    (write 4 h.seqNum.toNat ++ (write 4 h.ackNum.toNat ++ (write 2 h.hlen.toNat ++
      (write 2 h.plen.toNat ++ (write 1 h.flags.toNat ++ (write 2 h.advertisedWindow.toNat ++
        write 2 h.extensionLength.toNat))))))))

/-- The bytes of a packet. -/
def Packet.bytes (p : Packet) : List UInt8 :=
  p.header.bytes ++ p.body

@[simp] theorem CmuTcpHeader.length_bytes (h : CmuTcpHeader) : h.bytes.length = 25 := by
  simp [CmuTcpHeader.bytes]

@[simp] theorem Packet.length_bytes (p : Packet) : p.bytes.length = 25 + p.body.length := by
  simp [Packet.bytes]

/-- Every getter returns what the setter of its field was given. -/
theorem parseHeader_bytes (h : CmuTcpHeader) (rest : List UInt8) :
    parseHeader (h.bytes ++ rest) = h := by
  have hfield : ∀ offset len, offset + len ≤ 25 →
      field (h.bytes ++ rest) offset len = field h.bytes offset len := by
    intro offset len hle
    exact field_append_left (by rwa [h.length_bytes])
  unfold parseHeader
  simp only [hfield 0 4 (by omega), hfield 4 2 (by omega), hfield 6 2 (by omega),
    hfield 8 4 (by omega), hfield 12 4 (by omega), hfield 16 2 (by omega), hfield 18 2 (by omega),
    hfield 20 1 (by omega), hfield 21 2 (by omega), hfield 23 2 (by omega)]
  have hskip : ∀ k n rest offset len, k ≤ offset →
      field (write k n ++ rest) offset len = field rest (offset - k) len := by
    intro k n rest offset len hle
    rw [field_append_right (by rwa [length_write]), length_write]
  have hfirst : ∀ k n rest, field (write k n ++ rest) 0 k = n % 256 ^ k := by
    intro k n rest
    rw [field_append_left (by rw [length_write, Nat.zero_add]), field_write]
  -- each field lies behind those written before it
  simp (disch := omega) only [CmuTcpHeader.bytes, hskip, hfirst]
  simp

theorem parsePacket_bytes (p : Packet) : parsePacket p.bytes = p := by
  have hbody : p.bytes.drop headerLen.toNat = p.body :=
    List.drop_left' (by simp [headerLen])
  rw [parsePacket, hbody, Packet.bytes, parseHeader_bytes]

/-- The header is determined by the first 25 bytes. -/
theorem parseHeader_take (bytes : List UInt8) {n : ℕ} (h : 25 ≤ n) :
    parseHeader (bytes.take n) = parseHeader bytes := by
  have hfield : ∀ offset len, offset + len ≤ 25 →
      field (bytes.take n) offset len = field bytes offset len :=
    fun offset len hle => field_take (by omega)
  unfold parseHeader
  simp only [hfield 0 4 (by omega), hfield 4 2 (by omega), hfield 6 2 (by omega),
    hfield 8 4 (by omega), hfield 12 4 (by omega), hfield 16 2 (by omega), hfield 18 2 (by omega),
    hfield 20 1 (by omega), hfield 21 2 (by omega), hfield 23 2 (by omega)]

end Wire

end CmuTcp
