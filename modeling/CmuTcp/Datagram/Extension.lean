import CmuTcp.Library.FaultSystem
import CmuTcp.Datagram.Codec

/-!
# Packets with an Extension

Between the header and the payload of a packet may lie an extension.  No caller in the
program makes one, but the functions on packets are written for it: in a block of memory that is
large enough, what is set is laid out one behind the other, and is what the getters return.
`create_packet` allocates no memory for the extension, so that it stays within its allocation
only without one.

1. `layout` is the bytes of such a packet.  The getters on a layout return its parts, and
   `set_payload` and `set_extension_data` exchange one part of it.
2. `set_header` and `set_payload` in a block of memory lay the packet out if the block is
   large enough, and leave it otherwise (`setPacket_eq`, `setPacket_overflow`).
3. `create_packet` is these two in a block that is as long as header and payload.

Main result: `extension_roundtrip`.
-/

namespace CmuTcp.Codec

open BigEndian CircularBuffer FaultSystem

/-! ## Copies behind a prefix -/

section Copies

variable {xs ys src : List UInt8} {dstOff len : UInt32}

theorem memcpyTo_append (hoff : dstOff.toNat = xs.length) (hsrc : len.toNat ≤ src.length)
    (hfits : len.toNat ≤ ys.length) :
    memcpyTo (xs ++ ys) dstOff src 0 len = .ok (xs ++ src.take len.toNat ++ ys.drop len.toNat) := by
  have htake : (src.take len.toNat).length = len.toNat := List.length_take_of_le hsrc
  rw [memcpyTo, if_pos, UInt32.toNat_zero, slice, List.drop_zero, overwrite_append hoff, htake]
  rw [hoff, List.length_append, UInt32.toNat_zero]
  omega

/-- A copy that is too long. -/
theorem memcpyTo_overflow {dst : List UInt8} (h : dst.length < dstOff.toNat + len.toNat) :
    memcpyTo dst dstOff src 0 len = .error .memory := by
  rw [memcpyTo, if_neg]
  omega

end Copies

/-! ## The layout -/

/-- The bytes of a packet: header, extension, payload. -/
def layout (header : CmuTcpHeader) (extension payload : List UInt8) : List UInt8 :=
  header.bytes ++ extension ++ payload

section Layout

variable (o : ByteOrder) (header : CmuTcpHeader) {extension : List UInt8}
  (payload rest : List UInt8)

/-- The extension length of the header says where the payload starts. -/
theorem payloadOffset_layout (hext : extension.length = header.extensionLength.toNat) :
    payloadOffset o (header.bytes ++ extension ++ rest) = (header.bytes ++ extension).length := by
  have hfields := congrArg CmuTcpHeader.extensionLength
    (fields_eq o (show 25 ≤ (header.bytes ++ (extension ++ rest)).length by simp))
  rw [parseHeader_bytes] at hfields
  have hlen : getExtensionLength o (header.bytes ++ (extension ++ rest)) =
    header.extensionLength := hfields
  rw [payloadOffset, List.append_assoc, hlen, ← hext, List.length_append,
    CmuTcpHeader.length_bytes]
  rfl

/-- It is a small number. -/
theorem toNat_payloadOffset (hext : extension.length = header.extensionLength.toNat) :
    (header.bytes ++ extension).length.toUInt32.toNat = (header.bytes ++ extension).length := by
  have hlt := header.extensionLength.toNat_lt
  apply UInt32.toNat_ofNat_of_lt'
  rw [List.length_append, CmuTcpHeader.length_bytes, hext]
  show _ < 2 ^ 32
  omega

/-- The getters return what is laid out. -/
theorem getters_layout (hext : extension.length = header.extensionLength.toNat) :
    fields o (layout header extension payload ++ rest) = header ∧
    (getExtensionData (layout header extension payload ++ rest)).take
      (getExtensionLength o (layout header extension payload ++ rest)).toNat = extension ∧
    (getPayload o (layout header extension payload ++ rest)).take payload.length = payload := by
  have hassoc : layout header extension payload ++ rest =
      header.bytes ++ (extension ++ (payload ++ rest)) := by
    simp only [layout, List.append_assoc]
  have hfields : fields o (layout header extension payload ++ rest) = header := by
    rw [hassoc, fields_eq o (by simp), parseHeader_bytes]
  have hlen : getExtensionLength o (layout header extension payload ++ rest) =
    header.extensionLength := congrArg CmuTcpHeader.extensionLength hfields
  refine ⟨hfields, ?_, ?_⟩
  · rw [hlen, ← hext, hassoc, getExtensionData]
    rw [List.drop_left' (by simp [headerLen]), List.take_left]
  · have hoffset : payloadOffset o (layout header extension payload ++ rest) =
        (header.bytes ++ extension).length := by
      rw [layout, List.append_assoc _ payload]
      exact payloadOffset_layout o header _ hext
    rw [getPayload, hoffset, layout, List.append_assoc _ payload, List.drop_left, List.take_left]

/-- `set_payload` copies the payload right behind the extension, if it fits. -/
theorem setPayload_layout (hext : extension.length = header.extensionLength.toNat)
    {payloadLen : UInt16} (hpayload : payloadLen.toNat ≤ payload.length)
    (hfits : payloadLen.toNat ≤ rest.length) :
    setPayload o (header.bytes ++ extension ++ rest) payload payloadLen =
      .ok (layout header extension (payload.take payloadLen.toNat) ++
        rest.drop payloadLen.toNat) := by
  have hlen32 : payloadLen.toUInt32.toNat = payloadLen.toNat := UInt16.toNat_toUInt32 _
  rw [setPayload, payloadOffset_layout o header rest hext,
    memcpyTo_append (toNat_payloadOffset header hext) (by rwa [hlen32]) (by rwa [hlen32]), hlen32]
  rfl

theorem setPayload_overflow (hext : extension.length = header.extensionLength.toNat)
    {payloadLen : UInt16} (hover : rest.length < payloadLen.toNat) :
    setPayload o (header.bytes ++ extension ++ rest) payload payloadLen = .error .memory := by
  have hlen32 : payloadLen.toUInt32.toNat = payloadLen.toNat := UInt16.toNat_toUInt32 _
  rw [setPayload, payloadOffset_layout o header rest hext]
  apply memcpyTo_overflow
  rw [toNat_payloadOffset header hext, hlen32, List.length_append]
  omega

/-- `set_extension_data` exchanges the extension. -/
theorem setExtensionData_layout (hext : extension.length = header.extensionLength.toNat)
    {extData : List UInt8} (hdata : extension.length ≤ extData.length) :
    setExtensionData o (layout header extension payload ++ rest) extData =
      .ok (layout header (extData.take extension.length) payload ++ rest) := by
  obtain ⟨hfields, -, -⟩ := getters_layout o header payload rest hext
  have hlen : getExtensionLength o (layout header extension payload ++ rest) =
    header.extensionLength := congrArg CmuTcpHeader.extensionLength hfields
  have hlen32 : header.extensionLength.toUInt32.toNat = extension.length := by
    rw [UInt16.toNat_toUInt32, hext]
  rw [setExtensionData, hlen, layout, List.append_assoc, List.append_assoc,
    memcpyTo_append (by simp [headerLen]) (by rwa [hlen32]) (by simp [hlen32]), hlen32,
    List.drop_left]
  simp only [layout, List.append_assoc]

end Layout

/-! ## Making a packet in a block of memory -/

/-- `set_header` and `set_payload`, one after the other. -/
def setPacket (o : ByteOrder) (block : List UInt8) (src dst : UInt16) (seq ack : UInt32)
    (hlen plen : UInt16) (flags : UInt8) (advWindow ext : UInt16) (extData payload : List UInt8)
    (payloadLen : UInt16) : Except Fault (List UInt8) := do
  let pkt ← setHeader o block src dst seq ack hlen plen flags advWindow ext extData
  setPayload o pkt payload payloadLen

section Making

variable (o : ByteOrder) {block : List UInt8} (src dst : UInt16) (seq ack : UInt32)
  (hlen plen : UInt16) (flags : UInt8) (advWindow : UInt16) {ext payloadLen : UInt16}
  {extData payload : List UInt8}

/-- `set_header` in a block that is large enough for header and extension. -/
theorem setHeader_layout (hext : ext.toNat ≤ extData.length)
    (hfits : 25 + ext.toNat ≤ block.length) :
    setHeader o block src dst seq ack hlen plen flags advWindow ext extData =
      .ok (CmuTcpHeader.bytes ⟨packetIdentifier, src, dst, seq, ack, hlen, plen, flags, advWindow,
        ext⟩ ++ extData.take ext.toNat ++ block.drop (25 + ext.toNat)) := by
  have hlen32 : ext.toUInt32.toNat = ext.toNat := UInt16.toNat_toUInt32 _
  rw [setHeader_stores, memcpyTo_append (by simp [headerLen]) (by rwa [hlen32])
    (by rw [hlen32, List.length_drop]; omega), hlen32, List.drop_drop]

/-- In a block that is large enough for all they lay the packet out, and leave what is behind
    it. -/
theorem setPacket_eq (hext : ext.toNat ≤ extData.length)
    (hpayload : payloadLen.toNat ≤ payload.length)
    (hfits : 25 + ext.toNat + payloadLen.toNat ≤ block.length) :
    setPacket o block src dst seq ack hlen plen flags advWindow ext extData payload payloadLen =
      .ok (layout ⟨packetIdentifier, src, dst, seq, ack, hlen, plen, flags, advWindow, ext⟩
        (extData.take ext.toNat) (payload.take payloadLen.toNat) ++
        block.drop (25 + ext.toNat + payloadLen.toNat)) := by
  rw [setPacket, setHeader_layout o src dst seq ack hlen plen flags advWindow hext (by omega)]
  show setPayload o _ _ _ = _
  rw [setPayload_layout o _ _ _ (List.length_take_of_le hext) hpayload
    (by rw [List.length_drop]; omega), List.drop_drop]

/-- In a smaller block one of the two copies leaves it. -/
theorem setPacket_overflow (hblock : 25 ≤ block.length) (hext : ext.toNat ≤ extData.length)
    (hover : block.length < 25 + ext.toNat + payloadLen.toNat) :
    setPacket o block src dst seq ack hlen plen flags advWindow ext extData payload payloadLen =
      .error .memory := by
  by_cases hfits : 25 + ext.toNat ≤ block.length
  · rw [setPacket, setHeader_layout o src dst seq ack hlen plen flags advWindow hext hfits]
    apply setPayload_overflow
    · exact List.length_take_of_le hext
    · rw [List.length_drop]
      omega
  · have hlen32 : ext.toUInt32.toNat = ext.toNat := UInt16.toNat_toUInt32 _
    have hheaderLen : headerLen.toUInt32.toNat = 25 := rfl
    rw [setPacket, setHeader_stores, memcpyTo_overflow]
    · rfl
    · rw [hheaderLen, hlen32, List.length_append, CmuTcpHeader.length_bytes, List.length_drop]
      omega

/-- `create_packet` is these two in a block for a header and a payload. -/
theorem createPacket_setPacket (mem : Garbage) (hhlen : ¬ hlen < headerLen)
    (hplen : ¬ plen < hlen) :
    createPacket o mem src dst seq ack hlen plen flags advWindow ext extData payload payloadLen =
      (setPacket o ((List.range (headerLen.toNat + payloadLen.toNat)).map mem.byte) src dst seq ack
        hlen plen flags advWindow ext extData payload payloadLen).map some := by
  rw [createPacket, if_neg hhlen, if_neg hplen, setPacket]
  simp only [bind, Except.bind, pure, Except.pure, setPayload]
  split
  · rfl
  · split
    · rename_i hcopy
      rw [hcopy]
      rfl
    · rename_i hcopy
      rw [hcopy]
      rfl

end Making

/-! ## The format -/

/-- **Packets with an extension**, for either byte order of the machine.

    In any block of memory that holds a header, `set_header` and `set_payload` succeed exactly
    if header, extension and payload fit; then they lie one behind the other, what is behind
    them is unchanged, the getters return them, and `set_extension_data` makes the packet that
    another extension would have given.  `create_packet` with possible lengths, in the memory
    that it allocates itself, succeeds exactly without an extension. -/
theorem extension_roundtrip (o : ByteOrder) (src dst : UInt16) (seq ack : UInt32)
    (hlen plen : UInt16) (flags : UInt8) (advWindow ext payloadLen : UInt16)
    {extData payload : List UInt8} (hext : ext.toNat ≤ extData.length)
    (hpayload : payloadLen.toNat ≤ payload.length) :
    (∀ block : List UInt8, 25 ≤ block.length →
      ((∃ pkt, setPacket o block src dst seq ack hlen plen flags advWindow ext extData payload
          payloadLen = .ok pkt) ↔ 25 + ext.toNat + payloadLen.toNat ≤ block.length) ∧
      ∀ pkt, setPacket o block src dst seq ack hlen plen flags advWindow ext extData payload
          payloadLen = .ok pkt →
        pkt.length = block.length ∧
        pkt.drop (25 + ext.toNat + payloadLen.toNat) =
          block.drop (25 + ext.toNat + payloadLen.toNat) ∧
        fields o pkt = ⟨packetIdentifier, src, dst, seq, ack, hlen, plen, flags, advWindow, ext⟩ ∧
        (getExtensionData pkt).take (getExtensionLength o pkt).toNat = extData.take ext.toNat ∧
        (getPayload o pkt).take payloadLen.toNat = payload.take payloadLen.toNat ∧
        ∀ extData', ext.toNat ≤ extData'.length → setExtensionData o pkt extData' =
          setPacket o block src dst seq ack hlen plen flags advWindow ext extData' payload
            payloadLen) ∧
    ∀ mem, ¬ hlen < headerLen → ¬ plen < hlen →
      ((∃ pkt, createPacket o mem src dst seq ack hlen plen flags advWindow ext extData payload
        payloadLen = .ok (some pkt)) ↔ ext = 0) := by
  -- writing the parts succeeds exactly when they fit in the block
  have hfits : ∀ block : List UInt8, 25 ≤ block.length →
      ((∃ pkt, setPacket o block src dst seq ack hlen plen flags advWindow ext extData payload
        payloadLen = .ok pkt) ↔ 25 + ext.toNat + payloadLen.toNat ≤ block.length) := by
    intro block hblock
    constructor
    · rintro ⟨pkt, hpkt⟩
      by_contra hover
      rw [setPacket_overflow o src dst seq ack hlen plen flags advWindow hblock hext (by omega)]
        at hpkt
      cases hpkt
    · intro hle
      exact ⟨_, setPacket_eq o src dst seq ack hlen plen flags advWindow hext hpayload hle⟩
  constructor
  · intro block hblock
    refine ⟨hfits block hblock, fun pkt hpkt => ?_⟩
    -- what is written is the layout of the three parts, and the rest of the block behind it
    have hle := (hfits block hblock).mp ⟨pkt, hpkt⟩
    rw [setPacket_eq o src dst seq ack hlen plen flags advWindow hext hpayload hle] at hpkt
    obtain rfl := Except.ok.inj hpkt
    have hpay : (payload.take payloadLen.toNat).length = payloadLen.toNat :=
      List.length_take_of_le hpayload
    have hlength : (layout ⟨packetIdentifier, src, dst, seq, ack, hlen, plen, flags, advWindow,
        ext⟩ (extData.take ext.toNat) (payload.take payloadLen.toNat)).length =
        25 + ext.toNat + payloadLen.toNat := by
      rw [layout, List.length_append, List.length_append, hpay, List.length_take_of_le hext,
        CmuTcpHeader.length_bytes]
    obtain ⟨hfields, hextension, hpayload'⟩ := getters_layout o ⟨packetIdentifier, src, dst, seq,
      ack, hlen, plen, flags, advWindow, ext⟩ (payload.take payloadLen.toNat)
      (block.drop (25 + ext.toNat + payloadLen.toNat)) (List.length_take_of_le hext)
    rw [hpay] at hpayload'
    refine ⟨?_, List.drop_left' hlength, hfields, hextension, hpayload', fun extData' hext' => ?_⟩
    · rw [List.length_append, hlength, List.length_drop]
      omega
    · have htake := List.length_take_of_le hext
      rw [setPacket_eq o src dst seq ack hlen plen flags advWindow hext' hpayload hle,
        setExtensionData_layout o _ _ _ htake (by rwa [htake]), htake]
  -- `create_packet` allocates no room for the extension
  · intro mem hhlen hplen
    have hlength : ((List.range (headerLen.toNat + payloadLen.toNat)).map mem.byte).length =
        25 + payloadLen.toNat := by
      rw [List.length_map, List.length_range]
      rfl
    have hzero : ext = 0 ↔ ext.toNat = 0 := UInt16.toNat_inj.symm
    rw [createPacket_setPacket o src dst seq ack hlen plen flags advWindow mem hhlen hplen, hzero]
    have hblock := hfits _ (show 25 ≤ _ by rw [hlength]; omega)
    rw [hlength] at hblock
    constructor
    · rintro ⟨pkt, hpkt⟩
      obtain ⟨_, hset, _⟩ := ok_of_map_ok hpkt
      have hle := hblock.mp ⟨_, hset⟩
      omega
    · intro hnone
      obtain ⟨pkt, hpkt⟩ := hblock.mpr (by omega)
      exact ⟨pkt, by rw [hpkt]; rfl⟩

/-- A packet with two bytes of extension and one of payload, and one byte behind it. -/
theorem extension_roundtrip_two_bytes :
    (∃ pkt, setPacket .little (List.replicate 29 9) 7 8 101 501 27 28 4 1024 2 [5, 6] [1] 1 =
      .ok pkt) ∧
    ¬ ∃ pkt, createPacket .little ⟨fun _ => 0, fun _ => 0⟩ 7 8 101 501 27 28 4 1024 2 [5, 6] [1]
      1 = .ok (some pkt) := by
  obtain ⟨hblock, hcreate⟩ := extension_roundtrip .little 7 8 101 501 27 28 4 1024 2 1
    (show (2 : UInt16).toNat ≤ [5, 6].length by decide)
    (show (1 : UInt16).toNat ≤ [1].length by decide)
  refine ⟨(hblock _ (by decide)).1.mpr (by decide), ?_⟩
  rw [hcreate _ (by decide) (by decide)]
  decide

end CmuTcp.Codec
