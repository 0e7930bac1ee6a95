import CourseNet.InternetChecksum
import CourseNet.NetParser

/-!
# IPv4 headers and datagrams

`IPv4Header` and `IPv4Datagram` of `ipv4_header.cc` and `ipv4_datagram.cc`.  The header parser
reports a flaw through its return value only; the error state of the `NetParser` is set when bytes
run out.  `IPv4Datagram::parse` looks at the error state alone.
-/

namespace CourseNet

structure IPv4Header where
  ver : UInt8 := 4
  hlen : UInt8 := 5
  tos : UInt8 := 0
  len : UInt16 := 0
  id : UInt16 := 0
  df : Bool := true
  mf : Bool := false
  offset : UInt16 := 0
  ttl : UInt8 := 128
  proto : UInt8 := 6
  cksum : UInt16 := 0
  src : UInt32 := 0
  dst : UInt32 := 0
deriving DecidableEq, Repr

namespace IPv4Header

/-- `LENGTH`: the header without options. -/
def length : ℕ := 20

/-- `PROTO_TCP`. -/
def protoTCP : UInt8 := 6

/-- The twelve reads of `parse`. -/
def readFields (p : NetParser) : IPv4Header × NetParser :=
  let (firstByte, p) := p.u8
  let (tos, p) := p.u8
  let (len, p) := p.u16
  let (id, p) := p.u16
  let (foVal, p) := p.u16
  let (ttl, p) := p.u8
  let (proto, p) := p.u8
  let (cksum, p) := p.u16
  let (src, p) := p.u32
  let (dst, p) := p.u32
  ({ ver := firstByte >>> 4
     hlen := firstByte &&& 0x0f
     tos := tos
     len := len
     id := id
     df := foVal &&& 0x4000 != 0
     mf := foVal &&& 0x2000 != 0
     offset := foVal &&& 0x1fff
     ttl := ttl
     proto := proto
     cksum := cksum
     src := src
     dst := dst }, p)

/-- `parse`: the header and the parser as it leaves them, and the result it returns. -/
def parse (h : IPv4Header) (p : NetParser) : IPv4Header × NetParser × ParseResult :=
  let originalSerializedVersion := p.buffer
  let dataSize := p.buffer.length
  if dataSize < length then (h, p, .packetTooShort)
  else
    let (h, p) := readFields p
    if dataSize < 4 * h.hlen.toNat then (h, p, .packetTooShort)
    else if h.ver ≠ 4 then (h, p, .wrongIPVersion)
    else if h.hlen < 5 then (h, p, .headerTooShort)
    else if dataSize ≠ h.len.toNat then (h, p, .truncatedPacket)
    else
      let p := p.removePrefix (h.hlen.toNat * 4 - length)
      if p.error ≠ .noError then (h, p, p.error)
      else
        let check :=
          (InternetChecksum.new 0).add (originalSerializedVersion.take (4 * h.hlen.toNat))
        if check.value ≠ 0 then (h, p, .badChecksum) else (h, p, .noError)

/-- `fo_val`: the flags and the offset. -/
def foVal (h : IPv4Header) : UInt16 :=
  (if h.df then 0x4000 else 0) ||| (if h.mf then 0x2000 else 0) ||| (h.offset &&& 0x1fff)

/-- The twenty bytes that `serialize` writes before it pads. -/
def fixedBytes (h : IPv4Header) : Bytes :=
  NetUnparser.u8 ((h.ver <<< 4) ||| (h.hlen &&& 0xf)) ++ (NetUnparser.u8 h.tos ++
    (NetUnparser.u16 h.len ++ (NetUnparser.u16 h.id ++ (NetUnparser.u16 h.foVal ++
      (NetUnparser.u8 h.ttl ++ (NetUnparser.u8 h.proto ++ (NetUnparser.u16 h.cksum ++
        (NetUnparser.u32 h.src ++ NetUnparser.u32 h.dst))))))))

/-- `serialize`, or nothing if it throws. -/
def serialize (h : IPv4Header) : Option Bytes :=
  if h.ver ≠ 4 then none
  else if 4 * h.hlen.toNat < length then none
  else some (resize h.fixedBytes (4 * h.hlen.toNat))

/-- `payload_length`, in 16 bits. -/
def payloadLength (h : IPv4Header) : UInt16 :=
  UInt16.ofNat (h.len.toNat + 2 ^ 16 - 4 * h.hlen.toNat)

/-- `pseudo_cksum`. -/
def pseudoCksum (h : IPv4Header) : UInt32 :=
  let halves := fun (a : UInt32) => (a >>> 16) + (a &&& 0xffff)
  halves h.src + halves h.dst + h.proto.toUInt32 + h.payloadLength.toUInt32

end IPv4Header

structure IPv4Datagram where
  header : IPv4Header := {}
  payload : BufferList := []
deriving DecidableEq, Repr

namespace IPv4Datagram

/-- `parse`.  What the header's `parse` returns is not looked at. -/
def parse (d : IPv4Datagram) (buffer : Bytes) : IPv4Datagram × ParseResult :=
  let (header, p, _) := d.header.parse ⟨buffer, .noError⟩
  let payload : BufferList := [p.buffer]
  if payload.size ≠ header.payloadLength.toNat then (⟨header, payload⟩, .packetTooShort)
  else (⟨header, payload⟩, p.error)

/-- `serialize`, or nothing if it throws.  The checksum is taken over the header alone. -/
def serialize (d : IPv4Datagram) : Option BufferList :=
  if d.payload.size ≠ d.header.payloadLength.toNat then none
  else do
    let headerZeroChecksum ← { d.header with cksum := 0 }.serialize
    let check := (InternetChecksum.new 0).add headerZeroChecksum
    let headerOut ← { d.header with cksum := check.value }.serialize
    return headerOut :: d.payload

/-- The router's `ttl--`. -/
def decrementTtl (d : IPv4Datagram) : IPv4Datagram :=
  { d with header := { d.header with ttl := d.header.ttl - 1 } }

/-- What the sizes and the version have to be for `serialize` not to throw. -/
theorem serialize_isSome_iff (d : IPv4Datagram) :
    d.serialize.isSome ↔
      d.payload.size = d.header.payloadLength.toNat ∧ d.header.ver = 4 ∧
        20 ≤ 4 * d.header.hlen.toNat := by
  unfold serialize IPv4Header.serialize IPv4Header.length
  by_cases hsize : d.payload.size = d.header.payloadLength.toNat
  · by_cases hver : d.header.ver = 4
    · by_cases hlen : 4 * d.header.hlen.toNat < 20
      · simp [hsize, hver, hlen]
      · simp [hsize, hver, hlen, not_lt.mp hlen]
    · simp [hsize, hver]
  · simp [hsize]

end IPv4Datagram

/-! ### Round trip -/

/-- `resize` to a larger size fills up with zeros. -/
theorem resize_of_le {s : Bytes} {n : ℕ} (h : s.length ≤ n) :
    resize s n = s ++ List.replicate (n - s.length) 0 := by
  rw [resize, List.take_of_length_le h]

namespace IPv4Header

/-- The values that their bits can hold and that `parse` accepts. -/
structure Fits (h : IPv4Header) : Prop where
  ver : h.ver = 4
  minimum : 5 ≤ h.hlen.toNat
  maximum : h.hlen.toNat ≤ 15
  offset : h.offset.toNat < 2 ^ 13

/-- The first byte is read back. -/
theorem firstByte_spec {h : IPv4Header} (hfits : h.Fits) :
    ((h.ver <<< 4) ||| (h.hlen &&& 0xf)) >>> 4 = h.ver ∧
      ((h.ver <<< 4) ||| (h.hlen &&& 0xf)) &&& 0x0f = h.hlen := by
  have hall : ∀ n : Fin 16, (((4 : UInt8) <<< 4) ||| (UInt8.ofNat n &&& 0xf)) >>> 4 = 4 ∧
      (((4 : UInt8) <<< 4) ||| (UInt8.ofNat n &&& 0xf)) &&& 0x0f = UInt8.ofNat n := by decide
  have hmaximum := hfits.maximum
  rw [hfits.ver]
  simpa only [UInt8.ofNat_toNat] using hall ⟨h.hlen.toNat, by omega⟩

/-- A mask keeps or drops the two flags, and it masks the offset. -/
theorem foVal_and (h : IPv4Header) (mask : UInt16) :
    h.foVal &&& mask =
      ((if h.df then 0x4000 else 0) ||| (if h.mf then 0x2000 else 0)) &&& mask |||
        (h.offset &&& (0x1fff &&& mask)) := by
  rw [foVal, ← UInt16.and_assoc, ← UInt16.toNat_inj]
  simp only [UInt16.toNat_and, UInt16.toNat_or, Nat.and_or_distrib_right]

/-- Flags and offset are read back. -/
theorem foVal_spec {h : IPv4Header} (hoffset : h.offset.toNat < 2 ^ 13) :
    (h.foVal &&& 0x4000 != 0) = h.df ∧ (h.foVal &&& 0x2000 != 0) = h.mf ∧
      h.foVal &&& 0x1fff = h.offset := by
  have hflags : ∀ df mf : Bool,
      let flags : UInt16 := (if df then 0x4000 else 0) ||| (if mf then 0x2000 else 0)
      (flags &&& 0x4000 != 0) = df ∧ (flags &&& 0x2000 != 0) = mf ∧ flags &&& 0x1fff = 0 := by
    decide
  obtain ⟨hdf, hmf, hnone⟩ := hflags h.df h.mf
  have hlow : h.offset &&& 0x1fff = h.offset := by
    rw [← UInt16.toNat_inj, UInt16.toNat_and, show (0x1fff : UInt16).toNat = 2 ^ 13 - 1 from rfl,
      Nat.and_two_pow_sub_one_eq_mod, Nat.mod_eq_of_lt hoffset]
  refine ⟨?_, ?_, ?_⟩
  · rw [foVal_and, show (0x1fff &&& 0x4000 : UInt16) = 0 from rfl, UInt16.and_zero, UInt16.or_zero]
    exact hdf
  · rw [foVal_and, show (0x1fff &&& 0x2000 : UInt16) = 0 from rfl, UInt16.and_zero, UInt16.or_zero]
    exact hmf
  · rw [foVal_and, hnone, UInt16.zero_or, UInt16.and_self, hlow]

/-- The twenty bytes are read back. -/
theorem readFields_fixedBytes {h : IPv4Header} (hfits : h.Fits) (rest : Bytes) :
    readFields ⟨h.fixedBytes ++ rest, .noError⟩ = (h, ⟨rest, .noError⟩) := by
  obtain ⟨hver, hhlen⟩ := firstByte_spec hfits
  obtain ⟨hdf, hmf, hoffset⟩ := foVal_spec hfits.offset
  simp only [readFields, fixedBytes, List.append_assoc, NetParser.u8_u8, NetParser.u16_u16,
    NetParser.u32_u32, hver, hhlen, hdf, hmf, hoffset]

/-- The checksum filled in. -/
def withCksum (h : IPv4Header) (cksum : UInt16) : IPv4Header := { h with cksum := cksum }

theorem Fits.withCksum {h : IPv4Header} (hfits : h.Fits) (cksum : UInt16) :
    (h.withCksum cksum).Fits :=
  ⟨hfits.ver, hfits.minimum, hfits.maximum, hfits.offset⟩

/-- The checksum stands at an even offset. -/
theorem fixedBytes_field (h : IPv4Header) :
    ∃ front rest : Bytes, front.length = 10 ∧ rest.length = 8 ∧
      ∀ cksum, (h.withCksum cksum).fixedBytes = front ++ (NetUnparser.u16 cksum ++ rest) := by
  refine ⟨NetUnparser.u8 ((h.ver <<< 4) ||| (h.hlen &&& 0xf)) ++ (NetUnparser.u8 h.tos ++
    (NetUnparser.u16 h.len ++ (NetUnparser.u16 h.id ++ (NetUnparser.u16 h.foVal ++
      (NetUnparser.u8 h.ttl ++ NetUnparser.u8 h.proto))))),
    NetUnparser.u32 h.src ++ NetUnparser.u32 h.dst, by simp, by simp, fun cksum => ?_⟩
  simp only [withCksum, fixedBytes, List.append_assoc]
  rfl

@[simp] theorem length_fixedBytes (h : IPv4Header) : h.fixedBytes.length = 20 := by
  simp [fixedBytes]

/-- The zeros that stand for the options. -/
def padding (h : IPv4Header) : Bytes := List.replicate (4 * h.hlen.toNat - length) 0

theorem serialize_eq {h : IPv4Header} (hfits : h.Fits) :
    h.serialize = some (h.fixedBytes ++ h.padding) := by
  have hminimum := hfits.minimum
  rw [serialize, if_neg (not_not.mpr hfits.ver), if_neg (by rw [length]; omega),
    resize_of_le (by rw [length_fixedBytes]; omega), length_fixedBytes]
  rfl

/-- The length field counts the header and the payload. -/
theorem payloadLength_eq {h : IPv4Header} {size : ℕ}
    (hlen : h.len.toNat = 4 * h.hlen.toNat + size) :
    h.payloadLength.toNat = size := by
  have hlt := h.len.toNat_lt
  rw [payloadLength, UInt16.toNat_ofNat', hlen]
  omega

/-- A header whose checksum verifies is parsed back, whatever the header held before. -/
theorem parse_serialize {h : IPv4Header} (h' : IPv4Header) (hfits : h.Fits) {payload : Bytes}
    (hlen : h.len.toNat = 4 * h.hlen.toNat + payload.length)
    (hsum : ((InternetChecksum.new 0).add (h.fixedBytes ++ h.padding)).value = 0) :
    h'.parse ⟨(h.fixedBytes ++ h.padding) ++ payload, .noError⟩ =
      (h, ⟨payload, .noError⟩, .noError) := by
  have hminimum := hfits.minimum
  have hpadding : h.padding.length = 4 * h.hlen.toNat - 20 := List.length_replicate
  have hheader : (h.fixedBytes ++ h.padding).length = 4 * h.hlen.toNat := by
    rw [List.length_append, length_fixedBytes, hpadding]
    omega
  have htotal : ((h.fixedBytes ++ h.padding) ++ payload).length = h.len.toNat := by
    rw [List.length_append, hheader, hlen]
  have hshort : ¬h.hlen < 5 := fun hlt => absurd (UInt8.lt_iff_toNat_lt.mp hlt)
    (not_lt.mpr hminimum)
  have hremove : NetParser.removePrefix ⟨h.padding ++ payload, .noError⟩
      (h.hlen.toNat * 4 - 20) = ⟨payload, .noError⟩ := by
    rw [show h.hlen.toNat * 4 - 20 = h.padding.length from by omega,
      NetParser.removePrefix_eq (by rw [List.length_append]; omega), List.drop_left]
  have htake : ((h.fixedBytes ++ h.padding) ++ payload).take (4 * h.hlen.toNat) =
      h.fixedBytes ++ h.padding := List.take_left' hheader
  have hread := readFields_fixedBytes hfits (h.padding ++ payload)
  rw [← List.append_assoc] at hread
  simp only [parse, length, hread, htotal, htake, hsum, hfits.ver, hremove, hshort, ne_eq,
    not_true_eq_false, if_false]
  rw [if_neg (by omega), if_neg (by omega)]

end IPv4Header

namespace IPv4Datagram

/-- The checksum that `serialize` fills in verifies. -/
theorem serialize_spec {d : IPv4Datagram} (hfits : d.header.Fits)
    (hsize : d.payload.size = d.header.payloadLength.toNat) :
    ∃ cksum, d.serialize =
        some (((d.header.withCksum cksum).fixedBytes ++ d.header.padding) :: d.payload) ∧
      ((InternetChecksum.new 0).add
        ((d.header.withCksum cksum).fixedBytes ++ d.header.padding)).value = 0 := by
  obtain ⟨front, rest, hfront, hrest, hfield⟩ := d.header.fixedBytes_field
  have hpadding : d.header.padding.length ≤ 40 := by
    have hmaximum := hfits.maximum
    rw [IPv4Header.padding, List.length_replicate, IPv4Header.length]
    omega
  have hfilled := InternetChecksum.add_filled_verifies (c := InternetChecksum.new 0) front
    (rest ++ d.header.padding) rfl (by omega)
    (by
      rw [List.length_append, show (InternetChecksum.new 0).sum.toNat = 0 from rfl]
      omega)
  refine ⟨((InternetChecksum.new 0).add
    ((d.header.withCksum 0).fixedBytes ++ d.header.padding)).value, ?_, ?_⟩
  · rw [serialize, if_neg (not_not.mpr hsize)]
    show (d.header.withCksum 0).serialize.bind _ = _
    rw [IPv4Header.serialize_eq (hfits.withCksum 0)]
    show (d.header.withCksum _).serialize.bind _ = _
    rw [IPv4Header.serialize_eq (hfits.withCksum _)]
    rfl
  · rw [hfield, hfield, List.append_assoc, List.append_assoc, List.append_assoc]
    exact hfilled

/-- **Datagrams round-trip.**  What `serialize` writes, `parse` reads: the same header with the
checksum filled in, and the bytes of the payload in one buffer. -/
theorem parse_serialize {d : IPv4Datagram} (hfits : d.header.Fits)
    (hlen : d.header.len.toNat = 4 * d.header.hlen.toNat + d.payload.size) :
    ∃ bufs cksum, d.serialize = some bufs ∧ ({} : IPv4Datagram).parse bufs.concatenate =
      (⟨d.header.withCksum cksum, [d.payload.concatenate]⟩, .noError) := by
  have hpayloadLength := IPv4Header.payloadLength_eq hlen
  have hconcatenate : d.payload.concatenate.length = d.payload.size := List.length_flatten
  obtain ⟨cksum, hserialize, hsum⟩ := serialize_spec hfits hpayloadLength.symm
  refine ⟨_, cksum, hserialize, ?_⟩
  have hparse := IPv4Header.parse_serialize {} (hfits.withCksum cksum)
    (show _ = _ + d.payload.concatenate.length from by rw [hconcatenate]; exact hlen) hsum
  have hpayload : BufferList.size [d.payload.concatenate] =
      (d.header.withCksum cksum).payloadLength.toNat := by
    rw [show BufferList.size [d.payload.concatenate] = d.payload.concatenate.length from
      Nat.add_zero _, hconcatenate]
    exact hpayloadLength.symm
  have hbytes : BufferList.concatenate
      (((d.header.withCksum cksum).fixedBytes ++ d.header.padding) :: d.payload) =
      ((d.header.withCksum cksum).fixedBytes ++ (d.header.withCksum cksum).padding) ++
        d.payload.concatenate := rfl
  simp only [parse, hbytes, hparse, hpayload, ne_eq, not_true_eq_false, if_false]

end IPv4Datagram

end CourseNet
