import CmuTcp.Model.Codec

/-!
# The Packet Codec

`create_packet` and the getters are inverse to each other, whatever the byte order of the
machine and whatever `malloc` leaves in the memory of the packet; and each setter changes
one field.

The functions on memory agree with the two descriptions of a packet used elsewhere: the
getters with `parseHeader`, and `create_packet` without extension data with
`CmuTcp.createPacket`, written out as bytes.

1. A conversion to network byte order and a store in the machine's order write the bytes of
   the big-endian library, and a load and a conversion back read them.
2. So `set_header` lays the fields one behind the other (`setHeader_eq`), and a field that
   was set is the one that the getter finds; the others lie apart from it.
3. In the other direction, a header is determined by its bytes (`bytes_parseHeader`).

Main result: `codec_roundtrip`.
-/

namespace CmuTcp.Codec

open BigEndian CircularBuffer

/-! ## Loads and stores -/

section Access

variable (o : ByteOrder) {header : List UInt8} {offset : ℕ}

/-- A converted number is stored in network byte order. -/
theorem store16_htons (header : List UInt8) (offset : ℕ) (x : UInt16) :
    store16 o header offset (htons o x) = overwrite header offset (write 2 x.toNat) := by
  have hlt := o.hton_lt 2 x.toNat
  rw [store16, htons, UInt16.toNat_ofNat_of_lt' hlt, ByteOrder.image_hton]

theorem store32_htonl (header : List UInt8) (offset : ℕ) (x : UInt32) :
    store32 o header offset (htonl o x) = overwrite header offset (write 4 x.toNat) := by
  have hlt := o.hton_lt 4 x.toNat
  rw [store32, htonl, UInt32.toNat_ofNat_of_lt' hlt, ByteOrder.image_hton]

/-- A loaded number is converted to the one in network byte order. -/
theorem ntohs_load16 (h : offset + 2 ≤ header.length) :
    ntohs o (load16 o header offset) = UInt16.ofNat (field header offset 2) := by
  have hlen := length_slice h
  have hlt := o.value_lt (slice header offset 2)
  rw [hlen] at hlt
  rw [ntohs, load16, UInt16.toNat_ofNat_of_lt' hlt, o.ntoh_value hlen]
  rfl

theorem ntohl_load32 (h : offset + 4 ≤ header.length) :
    ntohl o (load32 o header offset) = UInt32.ofNat (field header offset 4) := by
  have hlen := length_slice h
  have hlt := o.value_lt (slice header offset 4)
  rw [hlen] at hlt
  rw [ntohl, load32, UInt32.toNat_ofNat_of_lt' hlt, o.ntoh_value hlen]
  rfl

/-- What the getters return is the header that is read in network byte order. -/
theorem fields_eq (h : 25 ≤ header.length) : fields o header = parseHeader header := by
  unfold fields getSrc getDst getSeq getAck getHlen getPlen getAdvertisedWindow
    getExtensionLength parseHeader
  simp (disch := omega) only [ntohs_load16, ntohl_load32]
  rfl

end Access

/-! ## Writing a header -/

/-- The field that was just written, and the fields apart from it. -/
theorem field_overwrite {header xs : List UInt8} {offset len : ℕ} (hlen : xs.length = len)
    (h : offset + len ≤ header.length) : field (overwrite header offset xs) offset len = read xs :=
  congrArg read (slice_overwrite hlen h)

theorem field_overwrite_of_disjoint {header xs : List UInt8} {i offset len : ℕ}
    (h : i + xs.length ≤ header.length) (hdisj : offset + len ≤ i ∨ i + xs.length ≤ offset) :
    field (overwrite header i xs) offset len = field header offset len :=
  congrArg read (slice_overwrite_of_disjoint h hdisj)

/-- A copy of no bytes. -/
theorem memcpyTo_zero {dst : List UInt8} {dstOff : UInt32} (h : dstOff.toNat ≤ dst.length)
    (src : List UInt8) : memcpyTo dst dstOff src 0 0 = .ok dst := by
  rw [memcpyTo, if_pos ⟨by simpa using h, by simp⟩]
  simp [overwrite, slice]

/-- `set_header` writes the header, and copies the extension behind it. -/
theorem setHeader_stores (o : ByteOrder) (packet : List UInt8) (src dst : UInt16)
    (seq ack : UInt32) (hlen plen : UInt16) (flags : UInt8) (advWindow ext : UInt16)
    (extData : List UInt8) :
    setHeader o packet src dst seq ack hlen plen flags advWindow ext extData =
      memcpyTo (CmuTcpHeader.bytes ⟨packetIdentifier, src, dst, seq, ack, hlen, plen, flags,
        advWindow, ext⟩ ++ packet.drop 25) headerLen.toUInt32 extData 0 ext.toUInt32 := by
  -- the fields are written one behind the other
  have hstores : ∀ n : ℕ, overwrite packet 0 (write 4 n) = write 4 n ++ packet.drop 4 := by
    intro n
    have happend : overwrite ([] ++ packet) 0 (write 4 n) =
        [] ++ write 4 n ++ packet.drop (write 4 n).length := overwrite_append rfl
    simpa using happend
  have hnext : ∀ (k n i : ℕ) (xs ys : List UInt8), i = xs.length →
      overwrite (xs ++ ys) i (write k n) = xs ++ write k n ++ ys.drop k := by
    intro k n i xs ys hi
    rw [overwrite_append hi, length_write]
  unfold setHeader
  simp only [store16_htons, store32_htonl, store8]
  rw [hstores, hnext _ _ _ _ _ (by simp), hnext _ _ _ _ _ (by simp), hnext _ _ _ _ _ (by simp),
    hnext _ _ _ _ _ (by simp), hnext _ _ _ _ _ (by simp), hnext _ _ _ _ _ (by simp),
    hnext _ _ _ _ _ (by simp), hnext _ _ _ _ _ (by simp), hnext _ _ _ _ _ (by simp)]
  simp only [List.drop_drop, CmuTcpHeader.bytes, List.append_assoc, Nat.reduceAdd]

/-- Without extension data: the header, and what was behind it. -/
theorem setHeader_eq (o : ByteOrder) (packet : List UInt8) (src dst : UInt16)
    (seq ack : UInt32) (hlen plen : UInt16) (flags : UInt8) (advWindow : UInt16)
    (extData : List UInt8) :
    setHeader o packet src dst seq ack hlen plen flags advWindow 0 extData =
      .ok (CmuTcpHeader.bytes ⟨packetIdentifier, src, dst, seq, ack, hlen, plen, flags,
        advWindow, 0⟩ ++ packet.drop 25) := by
  have hzero : (0 : UInt16).toUInt32 = 0 := rfl
  rw [setHeader_stores, hzero, memcpyTo_zero (by simp [headerLen])]

/-- `create_packet` without extension data, as `CmuTcp.createPacket` describes it: the memory
    that `malloc` returned is written over completely. -/
theorem createPacket_eq (o : ByteOrder) (mem : Garbage) (src dst : UInt16) (seq ack : UInt32)
    (hlen plen : UInt16) (flags : UInt8) (advWindow : UInt16) (extData payload : List UInt8)
    (payloadLen : UInt16) (hpayload : payloadLen.toNat ≤ payload.length) :
    createPacket o mem src dst seq ack hlen plen flags advWindow 0 extData payload payloadLen =
      .ok ((CmuTcp.createPacket src dst seq ack hlen plen flags advWindow payload
        payloadLen).map Packet.bytes) := by
  unfold createPacket CmuTcp.createPacket
  by_cases hshort : hlen < headerLen
  · rw [if_pos hshort, if_pos hshort]
    rfl
  · rw [if_neg hshort, if_neg hshort]
    by_cases hplen : plen < hlen
    · rw [if_pos hplen, if_pos hplen]
      rfl
    · rw [if_neg hplen, if_neg hplen]
      generalize hpacket : (List.range (headerLen.toNat + payloadLen.toNat)).map mem.byte = packet
      have hlength : packet.length = 25 + payloadLen.toNat := by
        rw [← hpacket, List.length_map, List.length_range]
        rfl
      dsimp only
      rw [setHeader_eq]
      generalize hheader : (⟨packetIdentifier, src, dst, seq, ack, hlen, plen, flags, advWindow,
        0⟩ : CmuTcpHeader) = header
      -- the payload starts right behind the header
      have hext : (getExtensionLength o (header.bytes ++ packet.drop 25)).toNat = 0 := by
        have hfields := congrArg CmuTcpHeader.extensionLength
          (fields_eq o (show 25 ≤ (header.bytes ++ packet.drop 25).length by simp))
        have hzero : header.extensionLength = 0 := by rw [← hheader]
        rw [parseHeader_bytes] at hfields
        exact congrArg UInt16.toNat (hfields.trans hzero)
      have hoffset : (payloadOffset o (header.bytes ++ packet.drop 25)).toUInt32.toNat = 25 := by
        rw [payloadOffset, hext]
        rfl
      have hlen32 : payloadLen.toUInt32.toNat = payloadLen.toNat := UInt16.toNat_toUInt32 _
      simp only [bind, Except.bind, pure, Except.pure, memcpyTo, hoffset, hlen32,
        UInt32.toNat_zero]
      have htake : (payload.take payloadLen.toNat).length = payloadLen.toNat := by
        rw [List.length_take, Nat.min_eq_left hpayload]
      rw [if_pos ⟨by simp [hlength], by omega⟩, slice, List.drop_zero,
        overwrite_append (by simp), htake, List.drop_drop, List.drop_eq_nil_of_le (by omega),
        List.append_nil]
      rfl

/-! ## Writing a parsed header -/

/-- The header that is read from the first 25 bytes is written as these bytes. -/
theorem bytes_parseHeader {bytes : List UInt8} (h : 25 ≤ bytes.length) :
    (parseHeader bytes).bytes = bytes.take 25 := by
  have hfield : ∀ offset len, offset + len ≤ 25 →
      write len (field bytes offset len) = slice bytes offset len ∧
        field bytes offset len < 256 ^ len := by
    intro offset len hle
    have hlen : (slice bytes offset len).length = len := length_slice (by omega)
    have hwrite := write_read (slice bytes offset len)
    have hlt := read_lt (slice bytes offset len)
    rw [hlen] at hwrite hlt
    exact ⟨hwrite, hlt⟩
  have hjoin := slice_append bytes
  unfold parseHeader CmuTcpHeader.bytes
  rw [UInt32.toNat_ofNat_of_lt' (hfield 0 4 (by omega)).2,
    UInt16.toNat_ofNat_of_lt' (hfield 4 2 (by omega)).2,
    UInt16.toNat_ofNat_of_lt' (hfield 6 2 (by omega)).2,
    UInt32.toNat_ofNat_of_lt' (hfield 8 4 (by omega)).2,
    UInt32.toNat_ofNat_of_lt' (hfield 12 4 (by omega)).2,
    UInt16.toNat_ofNat_of_lt' (hfield 16 2 (by omega)).2,
    UInt16.toNat_ofNat_of_lt' (hfield 18 2 (by omega)).2,
    UInt8.toNat_ofNat_of_lt' (hfield 20 1 (by omega)).2,
    UInt16.toNat_ofNat_of_lt' (hfield 21 2 (by omega)).2,
    UInt16.toNat_ofNat_of_lt' (hfield 23 2 (by omega)).2,
    (hfield 0 4 (by omega)).1, (hfield 4 2 (by omega)).1, (hfield 6 2 (by omega)).1,
    (hfield 8 4 (by omega)).1, (hfield 12 4 (by omega)).1, (hfield 16 2 (by omega)).1,
    (hfield 18 2 (by omega)).1, (hfield 20 1 (by omega)).1, (hfield 21 2 (by omega)).1,
    (hfield 23 2 (by omega)).1]
  -- neighbouring fields join
  rw [hjoin 21 2 2, hjoin 20 1 4, hjoin 18 2 5, hjoin 16 2 7, hjoin 12 4 9, hjoin 8 4 13,
    hjoin 6 2 17, hjoin 4 2 19, hjoin 0 4 21, slice, List.drop_zero]

/-! ## Setters -/

/-- The fields after a setter: the one it sets, and the others as before. -/
theorem fields_set (o : ByteOrder) {header : List UInt8} (h : 25 ≤ header.length) :
    (∀ src, fields o (setSrc o header src) = { fields o header with sourcePort := src }) ∧
    (∀ dst, fields o (setDst o header dst) = { fields o header with destinationPort := dst }) ∧
    (∀ seq, fields o (setSeq o header seq) = { fields o header with seqNum := seq }) ∧
    (∀ ack, fields o (setAck o header ack) = { fields o header with ackNum := ack }) ∧
    (∀ hlen, fields o (setHlen o header hlen) = { fields o header with hlen := hlen }) ∧
    (∀ plen, fields o (setPlen o header plen) = { fields o header with plen := plen }) ∧
    (∀ flags, fields o (setFlags header flags) = { fields o header with flags := flags }) ∧
    (∀ window, fields o (setAdvertisedWindow o header window) =
      { fields o header with advertisedWindow := window }) ∧
    (∀ ext, fields o (setExtensionLength o header ext) =
      { fields o header with extensionLength := ext }) := by
  -- what a write of `k` bytes does to the field it writes, and to one that does not meet it
  have hself : ∀ k n offset, offset + k ≤ 25 →
      field (overwrite header offset (write k n)) offset k = n % 256 ^ k := by
    intro k n offset hle
    rw [field_overwrite (length_write k n) (by omega), read_write]
  have hother : ∀ k n i offset len, i + k ≤ 25 → offset + len ≤ i ∨ i + k ≤ offset →
      field (overwrite header i (write k n)) offset len = field header offset len := by
    intro k n i offset len hle hdisj
    exact field_overwrite_of_disjoint (by rw [length_write]; omega) (by rwa [length_write])
  have hlength : ∀ k n i, i + k ≤ 25 →
      25 ≤ (overwrite header i (write k n)).length := by
    intro k n i hle
    rw [length_overwrite (by rw [length_write]; omega)]
    exact h
  unfold setSrc setDst setSeq setAck setHlen setPlen setFlags setAdvertisedWindow
    setExtensionLength store8
  simp only [store16_htons, store32_htonl]
  refine ⟨?_, ?_, ?_, ?_, ?_, ?_, ?_, ?_, ?_⟩ <;>
  · intro x
    rw [fields_eq o (hlength _ _ _ (by omega)), fields_eq o h]
    unfold parseHeader
    simp (disch := omega) only [hself, hother]
    simp

/-! ## Round trips -/

/-- The packets of the callers of `create_packet`: a header of 25 bytes, and `payload`. -/
theorem createPacket_payload (o : ByteOrder) (mem : Garbage) (src dst : UInt16)
    (seq ack : UInt32) {plen : UInt16} (flags : UInt8) (advWindow : UInt16)
    (extData payload : List UInt8) {payloadLen : UInt16} (hplen : plen.toNat = 25 + payload.length)
    (hpayload : payloadLen.toNat = payload.length) :
    createPacket o mem src dst seq ack headerLen plen flags advWindow 0 extData payload
      payloadLen = .ok (some (CmuTcpHeader.bytes ⟨packetIdentifier, src, dst, seq, ack, headerLen,
        plen, flags, advWindow, 0⟩ ++ payload)) := by
  have hge : ¬ plen < headerLen := by
    rw [UInt16.lt_iff_toNat_lt, hplen]
    simp [headerLen]
  rw [createPacket_eq o mem src dst seq ack headerLen plen flags advWindow extData payload
    payloadLen (le_of_eq hpayload), CmuTcp.createPacket, if_neg (by decide), if_neg hge,
    hpayload, List.take_length]
  rfl

/-- A packet that is made of values and a payload has these values and this payload. -/
theorem getters_createPacket (o : ByteOrder) (src dst : UInt16) (seq ack : UInt32) (flags : UInt8)
    (advWindow : UInt16) (extData : List UInt8) {payload : List UInt8}
    (hn : payload.length ≤ 65510) :
    ∃ pkt : List UInt8,
      (∀ mem, createPacket o mem src dst seq ack headerLen (25 + payload.length).toUInt16 flags
        advWindow 0 extData payload payload.length.toUInt16 = .ok (some pkt)) ∧
      pkt.length = 25 + payload.length ∧ getSrc o pkt = src ∧ getDst o pkt = dst ∧
      getSeq o pkt = seq ∧ getAck o pkt = ack ∧ getHlen o pkt = headerLen ∧
      (getPlen o pkt).toNat = 25 + payload.length ∧ getFlags pkt = flags ∧
      getAdvertisedWindow o pkt = advWindow ∧ getExtensionLength o pkt = 0 ∧
      getPayload o pkt = payload ∧ (getPayloadLen o pkt).toNat = payload.length := by
  have hplen : (25 + payload.length).toUInt16.toNat = 25 + payload.length :=
    UInt16.toNat_ofNat_of_lt' (show _ < 2 ^ 16 by omega)
  have hlen : payload.length.toUInt16.toNat = payload.length :=
    UInt16.toNat_ofNat_of_lt' (show _ < 2 ^ 16 by omega)
  refine ⟨_, fun mem => createPacket_payload o mem src dst seq ack flags advWindow extData
    payload hplen hlen, by simp, ?_⟩
  -- all ten fields at once
  have hfields : fields o (CmuTcpHeader.bytes ⟨packetIdentifier, src, dst, seq, ack, headerLen,
      (25 + payload.length).toUInt16, flags, advWindow, 0⟩ ++ payload) = _ :=
    (fields_eq o (by simp)).trans (parseHeader_bytes _ _)
  simp only [fields, CmuTcpHeader.mk.injEq] at hfields
  obtain ⟨-, hsrc, hdst, hseq, hack, hhlen, hplen', hflags, hwindow, hext⟩ := hfields
  refine ⟨hsrc, hdst, hseq, hack, hhlen, by rw [hplen', hplen], hflags, hwindow, hext, ?_, ?_⟩
  · rw [getPayload, payloadOffset, hext]
    exact List.drop_left' (by simp [headerLen])
  · rw [getPayloadLen, hplen', hhlen, UInt16.toNat_sub, hplen]
    simp only [headerLen, UInt16.reduceToNat]
    omega

/-- A packet without extension is made of its values and its payload. -/
theorem createPacket_getters (o : ByteOrder) {pkt : List UInt8} {n : ℕ}
    (hlength : pkt.length = 25 + n) (hid : ntohl o (load32 o pkt 0) = packetIdentifier)
    (hhlen : getHlen o pkt = headerLen) (hplen : (getPlen o pkt).toNat = 25 + n)
    (hext : getExtensionLength o pkt = 0) (mem : Garbage) (extData : List UInt8) :
    createPacket o mem (getSrc o pkt) (getDst o pkt) (getSeq o pkt) (getAck o pkt)
      (getHlen o pkt) (getPlen o pkt) (getFlags pkt) (getAdvertisedWindow o pkt)
      (getExtensionLength o pkt) extData (getPayload o pkt) (getPayloadLen o pkt) =
        .ok (some pkt) := by
  have hpayload : getPayload o pkt = pkt.drop 25 := by
    rw [getPayload, payloadOffset, hext]
    rfl
  have hdrop : (pkt.drop 25).length = n := by
    rw [List.length_drop, hlength, Nat.add_sub_cancel_left]
  have hlt := (getPlen o pkt).toNat_lt
  have hpayloadLen : (getPayloadLen o pkt).toNat = (pkt.drop 25).length := by
    rw [getPayloadLen, hhlen, UInt16.toNat_sub, hplen, hdrop]
    simp only [headerLen, UInt16.reduceToNat]
    omega
  -- what is written are the fields that were read
  have hheader : (⟨packetIdentifier, getSrc o pkt, getDst o pkt, getSeq o pkt, getAck o pkt,
      headerLen, getPlen o pkt, getFlags pkt, getAdvertisedWindow o pkt, 0⟩ : CmuTcpHeader) =
      parseHeader pkt := by
    rw [← fields_eq o (show 25 ≤ pkt.length by omega), fields, hid, hhlen, hext]
  rw [hhlen, hext, hpayload, createPacket_payload o mem _ _ _ _ _ _ _ _
    (by rw [hplen, hdrop]) hpayloadLen, hheader, bytes_parseHeader (by omega),
    List.take_append_drop]

/-- **The packet codec**, for either byte order of the machine.

    A packet with header length 25, packet length `25 + n` and no extension has exactly
    `25 + n` bytes, the same ones whatever was in its memory before, and the getters return
    what `create_packet` was given.  Conversely a byte string of this kind is what
    `create_packet` makes of the values that the getters return.  A setter changes what
    the getter of its field returns, to the value set, and nothing else. -/
theorem codec_roundtrip (o : ByteOrder) :
    (∀ (src dst : UInt16) (seq ack : UInt32) (flags : UInt8) (advWindow : UInt16)
      (extData payload : List UInt8), payload.length ≤ 65510 →
      ∃ pkt : List UInt8,
        (∀ mem, createPacket o mem src dst seq ack headerLen (25 + payload.length).toUInt16 flags
          advWindow 0 extData payload payload.length.toUInt16 = .ok (some pkt)) ∧
        pkt.length = 25 + payload.length ∧ getSrc o pkt = src ∧ getDst o pkt = dst ∧
        getSeq o pkt = seq ∧ getAck o pkt = ack ∧ getHlen o pkt = headerLen ∧
        (getPlen o pkt).toNat = 25 + payload.length ∧ getFlags pkt = flags ∧
        getAdvertisedWindow o pkt = advWindow ∧ getExtensionLength o pkt = 0 ∧
        getPayload o pkt = payload ∧ (getPayloadLen o pkt).toNat = payload.length) ∧
    (∀ (pkt : List UInt8) (n : ℕ), pkt.length = 25 + n →
      ntohl o (load32 o pkt 0) = packetIdentifier → getHlen o pkt = headerLen →
      (getPlen o pkt).toNat = 25 + n → getExtensionLength o pkt = 0 →
      ∀ mem extData, createPacket o mem (getSrc o pkt) (getDst o pkt) (getSeq o pkt)
        (getAck o pkt) (getHlen o pkt) (getPlen o pkt) (getFlags pkt)
        (getAdvertisedWindow o pkt) (getExtensionLength o pkt) extData (getPayload o pkt)
        (getPayloadLen o pkt) = .ok (some pkt)) ∧
    ∀ header : List UInt8, 25 ≤ header.length →
      (∀ src, fields o (setSrc o header src) = { fields o header with sourcePort := src }) ∧
      (∀ dst, fields o (setDst o header dst) = { fields o header with destinationPort := dst }) ∧
      (∀ seq, fields o (setSeq o header seq) = { fields o header with seqNum := seq }) ∧
      (∀ ack, fields o (setAck o header ack) = { fields o header with ackNum := ack }) ∧
      (∀ hlen, fields o (setHlen o header hlen) = { fields o header with hlen := hlen }) ∧
      (∀ plen, fields o (setPlen o header plen) = { fields o header with plen := plen }) ∧
      (∀ flags, fields o (setFlags header flags) = { fields o header with flags := flags }) ∧
      (∀ window, fields o (setAdvertisedWindow o header window) =
        { fields o header with advertisedWindow := window }) ∧
      (∀ ext, fields o (setExtensionLength o header ext) =
        { fields o header with extensionLength := ext }) := by
  -- the getters after `create_packet`, `create_packet` after the getters, and the setters
  refine ⟨?_, ?_, fun header h => fields_set o h⟩
  · intro src dst seq ack flags advWindow extData payload hn
    exact getters_createPacket o src dst seq ack flags advWindow extData hn
  · intro pkt n hlength hid hhlen hplen hext mem extData
    exact createPacket_getters o hlength hid hhlen hplen hext mem extData

/-- The bytes of an ACK with two bytes of payload. -/
def twoBytePacket : List UInt8 :=
  [0, 0, 60, 81, 0, 7, 0, 8, 0, 0, 0, 101, 0, 0, 1, 245, 0, 25, 0, 27, 4, 4, 0, 0, 0, 1, 2]

/-- A little-endian machine reads its payload, and makes the same bytes of what it reads. -/
theorem codec_roundtrip_two_bytes :
    (∃ pkt, ∀ mem, createPacket .little mem 7 8 101 501 headerLen 27 4 1024 0 [] [1, 2] 2 =
      .ok (some pkt)) ∧
    getPayload .little twoBytePacket = [1, 2] ∧
    ∀ mem, createPacket .little mem (getSrc .little twoBytePacket) (getDst .little twoBytePacket)
      (getSeq .little twoBytePacket) (getAck .little twoBytePacket)
      (getHlen .little twoBytePacket) (getPlen .little twoBytePacket) (getFlags twoBytePacket)
      (getAdvertisedWindow .little twoBytePacket) (getExtensionLength .little twoBytePacket) []
      (getPayload .little twoBytePacket) (getPayloadLen .little twoBytePacket) =
        .ok (some twoBytePacket) := by
  obtain ⟨hforth, hback, _⟩ := codec_roundtrip .little
  obtain ⟨pkt, hpkt, _⟩ := hforth 7 8 101 501 4 1024 [] [1, 2] (by decide)
  refine ⟨⟨pkt, hpkt⟩, by decide, fun mem => ?_⟩
  exact hback twoBytePacket 2 rfl (by decide) (by decide) (by decide) (by decide) mem []

end CmuTcp.Codec
