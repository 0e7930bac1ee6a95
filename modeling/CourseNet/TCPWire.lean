import CourseNet.IPv4
import CourseNet.TCPSegment

/-!
# TCP segments on the wire

`TCPHeader::parse` and `serialize` of `tcp_header.cc`, `TCPSegment::parse` and `serialize` of
`tcp_segment.cc`.  A segment is parsed from the payload of a datagram together with the sum that the
datagram layer contributes; the checksum covers both, and it is verified before anything is read.
-/

namespace CourseNet

namespace TCPHeader

/-- `LENGTH`: the header without options. -/
def length : ℕ := 20

/-- The reads of `parse`. -/
def readFields (p : NetParser) : TCPHeader × NetParser :=
  let (sport, p) := p.u16
  let (dport, p) := p.u16
  let (seqno, p) := p.u32
  let (ackno, p) := p.u32
  let (offsetByte, p) := p.u8
  let (flags, p) := p.u8
  let (win, p) := p.u16
  let (cksum, p) := p.u16
  let (uptr, p) := p.u16
  ({ sport := sport
     dport := dport
     seqno := ⟨seqno⟩
     ackno := ⟨ackno⟩
     doff := offsetByte >>> 4
     urg := flags &&& 0x20 != 0
     ack := flags &&& 0x10 != 0
     psh := flags &&& 0x08 != 0
     rst := flags &&& 0x04 != 0
     syn := flags &&& 0x02 != 0
     fin := flags &&& 0x01 != 0
     win := win
     cksum := cksum
     uptr := uptr }, p)

/-- `parse`: the header and the parser as it leaves them, and the result it returns.  Every field
is overwritten, whatever it held. -/
def parse (p : NetParser) : TCPHeader × NetParser × ParseResult :=
  let (h, p) := readFields p
  if h.doff < 5 then (h, p, .headerTooShort)
  else
    let p := p.removePrefix (h.doff.toNat * 4 - length)
    (h, p, p.error)

/-- `fl_b`: the flags. -/
def flagsByte (urg ack psh rst syn fin : Bool) : UInt8 :=
  (if urg then 0x20 else 0) ||| (if ack then 0x10 else 0) ||| (if psh then 0x08 else 0) |||
    (if rst then 0x04 else 0) ||| (if syn then 0x02 else 0) ||| (if fin then 0x01 else 0)

/-- The twenty bytes that `serialize` writes before it pads. -/
def fixedBytes (h : TCPHeader) : Bytes :=
  NetUnparser.u16 h.sport ++ (NetUnparser.u16 h.dport ++ (NetUnparser.u32 h.seqno.rawValue ++
    (NetUnparser.u32 h.ackno.rawValue ++ (NetUnparser.u8 (h.doff <<< 4) ++
      (NetUnparser.u8 (flagsByte h.urg h.ack h.psh h.rst h.syn h.fin) ++ (NetUnparser.u16 h.win ++
        (NetUnparser.u16 h.cksum ++ NetUnparser.u16 h.uptr)))))))

/-- `serialize`, or nothing if it throws. -/
def serialize (h : TCPHeader) : Option Bytes :=
  if h.doff < 5 then none else some (resize h.fixedBytes (4 * h.doff.toNat))

/-- The checksum filled in. -/
def withCksum (h : TCPHeader) (cksum : UInt16) : TCPHeader := { h with cksum := cksum }

end TCPHeader

namespace TCPSegment

/-- `parse`: the segment as it leaves it and the result it returns.  What the header's `parse`
returns is not looked at. -/
def parse (seg : TCPSegment) (buffer : Bytes) (datagramLayerChecksum : UInt32) :
    TCPSegment × ParseResult :=
  let check := (InternetChecksum.new datagramLayerChecksum).add buffer
  if check.value ≠ 0 then (seg, .badChecksum)
  else
    let (header, p, _) := TCPHeader.parse ⟨buffer, .noError⟩
    (⟨header, p.buffer⟩, p.error)

/-- `serialize`, or nothing if it throws.  The checksum is taken over the entire segment. -/
def serialize (seg : TCPSegment) (datagramLayerChecksum : UInt32) : Option BufferList := do
  let headerZeroChecksum ← (seg.header.withCksum 0).serialize
  let check :=
    ((InternetChecksum.new datagramLayerChecksum).add headerZeroChecksum).add seg.payload
  let headerOut ← (seg.header.withCksum check.value).serialize
  return [headerOut, seg.payload]

end TCPSegment

/-! ### Round trip -/

namespace TCPHeader

/-- A data offset that four bits hold and that `parse` accepts. -/
structure Fits (h : TCPHeader) : Prop where
  minimum : 5 ≤ h.doff.toNat
  maximum : h.doff.toNat ≤ 15

theorem Fits.withCksum {h : TCPHeader} (hfits : h.Fits) (cksum : UInt16) :
    (h.withCksum cksum).Fits :=
  ⟨hfits.minimum, hfits.maximum⟩

/-- The flags are read back. -/
theorem flagsByte_spec : ∀ urg ack psh rst syn fin : Bool,
    let flags := flagsByte urg ack psh rst syn fin
    (flags &&& 0x20 != 0) = urg ∧ (flags &&& 0x10 != 0) = ack ∧ (flags &&& 0x08 != 0) = psh ∧
      (flags &&& 0x04 != 0) = rst ∧ (flags &&& 0x02 != 0) = syn ∧ (flags &&& 0x01 != 0) = fin := by
  decide

/-- The data offset is read back. -/
theorem doff_spec {h : TCPHeader} (hfits : h.Fits) : (h.doff <<< 4) >>> 4 = h.doff := by
  have hall : ∀ n : Fin 16, (UInt8.ofNat n <<< 4) >>> 4 = UInt8.ofNat n := by decide
  have hmaximum := hfits.maximum
  simpa only [UInt8.ofNat_toNat] using hall ⟨h.doff.toNat, by omega⟩

/-- The twenty bytes are read back. -/
theorem readFields_fixedBytes {h : TCPHeader} (hfits : h.Fits) (rest : Bytes) :
    readFields ⟨h.fixedBytes ++ rest, .noError⟩ = (h, ⟨rest, .noError⟩) := by
  obtain ⟨hurg, hack, hpsh, hrst, hsyn, hfin⟩ :=
    flagsByte_spec h.urg h.ack h.psh h.rst h.syn h.fin
  simp only [readFields, fixedBytes, List.append_assoc, NetParser.u8_u8, NetParser.u16_u16,
    NetParser.u32_u32, doff_spec hfits, hurg, hack, hpsh, hrst, hsyn, hfin]

@[simp] theorem length_fixedBytes (h : TCPHeader) : h.fixedBytes.length = 20 := by
  simp [fixedBytes]

/-- The checksum stands at an even offset. -/
theorem fixedBytes_field (h : TCPHeader) :
    ∃ front rest : Bytes, front.length = 16 ∧ rest.length = 2 ∧
      ∀ cksum, (h.withCksum cksum).fixedBytes = front ++ (NetUnparser.u16 cksum ++ rest) := by
  refine ⟨NetUnparser.u16 h.sport ++ (NetUnparser.u16 h.dport ++
    (NetUnparser.u32 h.seqno.rawValue ++ (NetUnparser.u32 h.ackno.rawValue ++
      (NetUnparser.u8 (h.doff <<< 4) ++
        (NetUnparser.u8 (flagsByte h.urg h.ack h.psh h.rst h.syn h.fin) ++
          NetUnparser.u16 h.win))))), NetUnparser.u16 h.uptr, by simp, by simp, fun cksum => ?_⟩
  simp only [withCksum, fixedBytes, List.append_assoc]

/-- The zeros that stand for the options. -/
def padding (h : TCPHeader) : Bytes := List.replicate (4 * h.doff.toNat - length) 0

theorem Fits.not_short {h : TCPHeader} (hfits : h.Fits) : ¬h.doff < 5 := fun hlt =>
  absurd (UInt8.lt_iff_toNat_lt.mp hlt) (not_lt.mpr hfits.minimum)

theorem serialize_eq {h : TCPHeader} (hfits : h.Fits) :
    h.serialize = some (h.fixedBytes ++ h.padding) := by
  have hminimum := hfits.minimum
  rw [serialize, if_neg hfits.not_short, resize_of_le (by rw [length_fixedBytes]; omega),
    length_fixedBytes]
  rfl

/-- The header is parsed back and the parser stands behind the options. -/
theorem parse_serialize {h : TCPHeader} (hfits : h.Fits) (payload : Bytes) :
    parse ⟨(h.fixedBytes ++ h.padding) ++ payload, .noError⟩ =
      (h, ⟨payload, .noError⟩, .noError) := by
  have hpadding : h.padding.length = h.doff.toNat * 4 - length := by
    rw [padding, List.length_replicate, Nat.mul_comm]
  have hremove : NetParser.removePrefix ⟨h.padding ++ payload, .noError⟩
      (h.doff.toNat * 4 - length) = ⟨payload, .noError⟩ := by
    rw [← hpadding, NetParser.removePrefix_eq (by rw [List.length_append]; omega),
      List.drop_left]
  have hread := readFields_fixedBytes hfits (h.padding ++ payload)
  rw [← List.append_assoc] at hread
  simp only [parse, hread, hremove, hfits.not_short, if_false]

end TCPHeader

namespace TCPSegment

/-- The checksum that `serialize` fills in verifies, as long as the sum does not overflow. -/
theorem serialize_spec (seg : TCPSegment) (hfits : seg.header.Fits) {sum : UInt32}
    (hroom : sum.toNat + 65535 * ((4 * seg.header.doff.toNat + seg.payload.length) / 2 + 2) <
      2 ^ 32) :
    ∃ cksum, seg.serialize sum =
        some [(seg.header.withCksum cksum).fixedBytes ++ seg.header.padding, seg.payload] ∧
      ((InternetChecksum.new sum).add
        (((seg.header.withCksum cksum).fixedBytes ++ seg.header.padding) ++ seg.payload)).value =
          0 := by
  have hminimum := hfits.minimum
  obtain ⟨front, rest, hfront, hrest, hfield⟩ := seg.header.fixedBytes_field
  have hpadding : seg.header.padding.length = 4 * seg.header.doff.toNat - 20 :=
    List.length_replicate
  have hlength : front.length + (rest ++ (seg.header.padding ++ seg.payload)).length =
      4 * seg.header.doff.toNat + seg.payload.length - 2 := by
    rw [List.length_append, List.length_append]
    omega
  have hfilled := InternetChecksum.add_filled_verifies (c := InternetChecksum.new sum) front
    (rest ++ (seg.header.padding ++ seg.payload)) rfl (by omega)
    (by
      rw [hlength]
      refine lt_of_le_of_lt (Nat.add_le_add_left (Nat.mul_le_mul_left _ ?_) _) hroom
      exact Nat.add_le_add_right (Nat.div_le_div_right (Nat.sub_le _ _)) _)
  obtain ⟨cksum, hcksum⟩ : ∃ cksum, cksum = (((InternetChecksum.new sum).add
      ((seg.header.withCksum 0).fixedBytes ++ seg.header.padding)).add seg.payload).value :=
    ⟨_, rfl⟩
  refine ⟨cksum, ?_, ?_⟩
  · rw [hcksum]
    show (seg.header.withCksum 0).serialize.bind _ = _
    rw [TCPHeader.serialize_eq (hfits.withCksum 0)]
    show (seg.header.withCksum _).serialize.bind _ = _
    rw [TCPHeader.serialize_eq (hfits.withCksum _)]
    rfl
  · rw [← InternetChecksum.add_append, hfield, List.append_assoc, List.append_assoc,
      List.append_assoc] at hcksum
    rw [hfield, List.append_assoc, List.append_assoc, List.append_assoc, hcksum]
    exact hfilled

/-- **Segments round-trip.**  What `serialize` writes, `parse` reads with the same contribution of
the datagram layer: the same segment with the checksum filled in. -/
theorem parse_serialize (seg : TCPSegment) (hfits : seg.header.Fits) {sum : UInt32}
    (hroom : sum.toNat + 65535 * ((4 * seg.header.doff.toNat + seg.payload.length) / 2 + 2) <
      2 ^ 32) :
    ∃ bufs cksum, seg.serialize sum = some bufs ∧
      bufs.size = 4 * seg.header.doff.toNat + seg.payload.length ∧
      ∀ seg' : TCPSegment, seg'.parse bufs.concatenate sum =
        (⟨seg.header.withCksum cksum, seg.payload⟩, .noError) := by
  have hminimum := hfits.minimum
  have hpadding : seg.header.padding.length = 4 * seg.header.doff.toNat - 20 :=
    List.length_replicate
  obtain ⟨cksum, hserialize, hverifies⟩ := seg.serialize_spec hfits hroom
  refine ⟨_, cksum, hserialize, ?_, fun seg' => ?_⟩
  · rw [BufferList.size, List.map_cons, List.map_cons, List.map_nil, List.sum_cons, List.sum_cons,
      List.sum_nil, List.length_append, TCPHeader.length_fixedBytes, hpadding]
    omega
  · have hbytes : BufferList.concatenate
        [(seg.header.withCksum cksum).fixedBytes ++ seg.header.padding, seg.payload] =
        ((seg.header.withCksum cksum).fixedBytes ++ seg.header.padding) ++ seg.payload := by
      rw [BufferList.concatenate, List.flatten_cons, List.flatten_cons, List.flatten_nil,
        List.append_nil]
    have hheader := TCPHeader.parse_serialize (hfits.withCksum cksum) seg.payload
    rw [show (seg.header.withCksum cksum).padding = seg.header.padding from rfl] at hheader
    simp only [parse, hbytes, hverifies, hheader, ne_eq, not_true_eq_false, if_false]

end TCPSegment

end CourseNet
