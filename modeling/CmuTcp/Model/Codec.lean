import CmuTcp.Model.Packet
import CmuTcp.Model.SendBuffer

/-!
# Packets in Memory

The functions of `cmu_packet.c` on the bytes of a packet in memory.  A `uint16_t` or
`uint32_t` field is kept in the byte order of the machine, which is a parameter; `htons`,
`htonl`, `ntohs` and `ntohl` convert between that order and the order on the network.

`create_packet` fills memory that `malloc` returns with arbitrary contents.
-/

namespace CmuTcp.Codec

open BigEndian CircularBuffer

/-! ## Byte order -/

def htons (o : ByteOrder) (x : UInt16) : UInt16 := UInt16.ofNat (o.hton 2 x.toNat)

def htonl (o : ByteOrder) (x : UInt32) : UInt32 := UInt32.ofNat (o.hton 4 x.toNat)

def ntohs (o : ByteOrder) (x : UInt16) : UInt16 := UInt16.ofNat (o.ntoh 2 x.toNat)

def ntohl (o : ByteOrder) (x : UInt32) : UInt32 := UInt32.ofNat (o.ntoh 4 x.toNat)

/-- The `uint16_t` in memory at an offset of the header, which need not be aligned. -/
def load16 (o : ByteOrder) (header : List UInt8) (offset : ℕ) : UInt16 :=
  UInt16.ofNat (o.value (slice header offset 2))

def load32 (o : ByteOrder) (header : List UInt8) (offset : ℕ) : UInt32 :=
  UInt32.ofNat (o.value (slice header offset 4))

def load8 (header : List UInt8) (offset : ℕ) : UInt8 :=
  UInt8.ofNat (read (slice header offset 1))

def store16 (o : ByteOrder) (header : List UInt8) (offset : ℕ) (x : UInt16) : List UInt8 :=
  overwrite header offset (o.image 2 x.toNat)

def store32 (o : ByteOrder) (header : List UInt8) (offset : ℕ) (x : UInt32) : List UInt8 :=
  overwrite header offset (o.image 4 x.toNat)

def store8 (header : List UInt8) (offset : ℕ) (x : UInt8) : List UInt8 :=
  overwrite header offset (write 1 x.toNat)

/-! ## The fields of the packed header -/

section Fields

variable (o : ByteOrder) (header : List UInt8)

/-- `get_src` -/
def getSrc : UInt16 := ntohs o (load16 o header 4)

/-- `get_dst` -/
def getDst : UInt16 := ntohs o (load16 o header 6)

/-- `get_seq` -/
def getSeq : UInt32 := ntohl o (load32 o header 8)

/-- `get_ack` -/
def getAck : UInt32 := ntohl o (load32 o header 12)

/-- `get_hlen` -/
def getHlen : UInt16 := ntohs o (load16 o header 16)

/-- `get_plen` -/
def getPlen : UInt16 := ntohs o (load16 o header 18)

/-- `get_flags` -/
def getFlags : UInt8 := load8 header 20

/-- `get_advertised_window` -/
def getAdvertisedWindow : UInt16 := ntohs o (load16 o header 21)

/-- `get_extension_length` -/
def getExtensionLength : UInt16 := ntohs o (load16 o header 23)

/-- `set_src` -/
def setSrc (src : UInt16) : List UInt8 := store16 o header 4 (htons o src)

/-- `set_dst` -/
def setDst (dst : UInt16) : List UInt8 := store16 o header 6 (htons o dst)

/-- `set_seq` -/
def setSeq (seq : UInt32) : List UInt8 := store32 o header 8 (htonl o seq)

/-- `set_ack` -/
def setAck (ack : UInt32) : List UInt8 := store32 o header 12 (htonl o ack)

/-- `set_hlen` -/
def setHlen (hlen : UInt16) : List UInt8 := store16 o header 16 (htons o hlen)

/-- `set_plen` -/
def setPlen (plen : UInt16) : List UInt8 := store16 o header 18 (htons o plen)

/-- `set_flags` -/
def setFlags (flags : UInt8) : List UInt8 := store8 header 20 flags

/-- `set_advertised_window` -/
def setAdvertisedWindow (advWindow : UInt16) : List UInt8 :=
  store16 o header 21 (htons o advWindow)

/-- `set_extension_length` -/
def setExtensionLength (ext : UInt16) : List UInt8 := store16 o header 23 (htons o ext)

/-- The identifier and what the getters return, field by field. -/
def fields : CmuTcpHeader where
  identifier := ntohl o (load32 o header 0)
  sourcePort := getSrc o header
  destinationPort := getDst o header
  seqNum := getSeq o header
  ackNum := getAck o header
  hlen := getHlen o header
  plen := getPlen o header
  flags := getFlags header
  advertisedWindow := getAdvertisedWindow o header
  extensionLength := getExtensionLength o header

end Fields

/-- `set_header` -/
def setHeader (o : ByteOrder) (header : List UInt8) (src dst : UInt16) (seq ack : UInt32)
    (hlen plen : UInt16) (flags : UInt8) (advWindow ext : UInt16) (extData : List UInt8) :
    Except Fault (List UInt8) :=
  let header := store32 o header 0 (htonl o packetIdentifier)
  let header := store16 o header 4 (htons o src)
  let header := store16 o header 6 (htons o dst)
  let header := store32 o header 8 (htonl o seq)
  let header := store32 o header 12 (htonl o ack)
  let header := store16 o header 16 (htons o hlen)
  let header := store16 o header 18 (htons o plen)
  let header := store8 header 20 flags
  let header := store16 o header 21 (htons o advWindow)
  let header := store16 o header 23 (htons o ext)
  memcpyTo header headerLen.toUInt32 extData 0 ext.toUInt32

/-- The offset that `get_payload` adds to the start of the packet. -/
def payloadOffset (o : ByteOrder) (pkt : List UInt8) : ℕ :=
  headerLen.toNat + (getExtensionLength o pkt).toNat

/-- `get_payload`: the bytes from the payload pointer to the end of the packet. -/
def getPayload (o : ByteOrder) (pkt : List UInt8) : List UInt8 :=
  pkt.drop (payloadOffset o pkt)

/-- `get_payload_len` -/
def getPayloadLen (o : ByteOrder) (pkt : List UInt8) : UInt16 :=
  getPlen o pkt - getHlen o pkt

/-- `get_extension_data`: the bytes from the extension to the end of the packet. -/
def getExtensionData (header : List UInt8) : List UInt8 :=
  header.drop headerLen.toNat

/-- `set_extension_data` -/
def setExtensionData (o : ByteOrder) (header extData : List UInt8) : Except Fault (List UInt8) :=
  memcpyTo header headerLen.toUInt32 extData 0 (getExtensionLength o header).toUInt32

/-- `set_payload` -/
def setPayload (o : ByteOrder) (pkt payload : List UInt8) (payloadLen : UInt16) :
    Except Fault (List UInt8) :=
  memcpyTo pkt (payloadOffset o pkt).toUInt32 payload 0 payloadLen.toUInt32

/-- `create_packet`: `none` is the null pointer it returns for impossible lengths, and `mem`
    what lies in the memory that `malloc` returns. -/
def createPacket (o : ByteOrder) (mem : Garbage) (src dst : UInt16) (seq ack : UInt32)
    (hlen plen : UInt16) (flags : UInt8) (advWindow extLen : UInt16)
    (extData payload : List UInt8) (payloadLen : UInt16) : Except Fault (Option (List UInt8)) :=
  if hlen < headerLen then return none
  else if plen < hlen then return none
  else do
    let packet := (List.range (headerLen.toNat + payloadLen.toNat)).map mem.byte
    let packet ← setHeader o packet src dst seq ack hlen plen flags advWindow extLen extData
    let packet ← memcpyTo packet (payloadOffset o packet).toUInt32 payload 0
      payloadLen.toUInt32
    return some packet

end CmuTcp.Codec
