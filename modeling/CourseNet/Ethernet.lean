import CourseNet.IPv4

/-!
# Ethernet frames and ARP messages

`EthernetHeader`, `EthernetFrame` and `ARPMessage` of `ethernet_header.cc`, `ethernet_frame.cc` and
`arp_message.cc`.  A frame's `parse` does not look at what the header's `parse` returns, so a packet
shorter than a header is accepted: its frame has the header it had before.
-/

namespace CourseNet

/-- Six bytes. -/
abbrev EthernetAddress := Vector UInt8 6

/-- `ETHERNET_BROADCAST`. -/
def ethernetBroadcast : EthernetAddress := Vector.replicate 6 0xff

namespace NetParser

/-- A loop of `u8` over the bytes of an array. -/
def bytes : (n : ℕ) → NetParser → Vector UInt8 n × NetParser
  | 0, p => (#v[], p)
  | n + 1, p =>
      let (front, p) := bytes n p
      let (byte, p) := p.u8
      (front.push byte, p)

end NetParser

structure EthernetHeader where
  dst : EthernetAddress
  src : EthernetAddress
  type : UInt16
deriving DecidableEq, Repr

namespace EthernetHeader

/-- `TYPE_IPv4`. -/
def typeIPv4 : UInt16 := 0x800

/-- `TYPE_ARP`. -/
def typeARP : UInt16 := 0x806

/-- `LENGTH`. -/
def length : ℕ := 14

/-- `EthernetHeader{}`. -/
def zero : EthernetHeader := ⟨Vector.replicate 6 0, Vector.replicate 6 0, 0⟩

/-- `parse`: the header and the parser as it leaves them, and the result it returns. -/
def parse (h : EthernetHeader) (p : NetParser) : EthernetHeader × NetParser × ParseResult :=
  if p.buffer.length < length then (h, p, .packetTooShort)
  else
    let (dst, p) := p.bytes 6
    let (src, p) := p.bytes 6
    let (type, p) := p.u16
    (⟨dst, src, type⟩, p, p.error)

def serialize (h : EthernetHeader) : Bytes :=
  h.dst.toList ++ (h.src.toList ++ NetUnparser.u16 h.type)

end EthernetHeader

structure EthernetFrame where
  header : EthernetHeader
  payload : BufferList
deriving DecidableEq, Repr

namespace EthernetFrame

/-- `EthernetFrame{}`. -/
def zero : EthernetFrame := ⟨EthernetHeader.zero, []⟩

/-- `parse`: the frame as it leaves it and the result it returns. -/
def parse (frame : EthernetFrame) (buffer : Bytes) : EthernetFrame × ParseResult :=
  let (header, p, _) := frame.header.parse ⟨buffer, .noError⟩
  (⟨header, [p.buffer]⟩, p.error)

def serialize (frame : EthernetFrame) : BufferList := frame.header.serialize :: frame.payload

end EthernetFrame

structure ARPMessage where
  hardwareType : UInt16 := 1
  protocolType : UInt16 := EthernetHeader.typeIPv4
  hardwareAddressSize : UInt8 := 6
  protocolAddressSize : UInt8 := 4
  opcode : UInt16 := 0
  senderEthernetAddress : EthernetAddress := Vector.replicate 6 0
  senderIpAddress : UInt32 := 0
  targetEthernetAddress : EthernetAddress := Vector.replicate 6 0
  targetIpAddress : UInt32 := 0
deriving DecidableEq, Repr

namespace ARPMessage

/-- `LENGTH`. -/
def length : ℕ := 28

/-- `TYPE_ETHERNET`. -/
def typeEthernet : UInt16 := 1

/-- `OPCODE_REQUEST`. -/
def opcodeRequest : UInt16 := 1

/-- `OPCODE_REPLY`. -/
def opcodeReply : UInt16 := 2

def supported (m : ARPMessage) : Bool :=
  m.hardwareType == typeEthernet && m.protocolType == EthernetHeader.typeIPv4 &&
    m.hardwareAddressSize == 6 && m.protocolAddressSize == 4 &&
    (m.opcode == opcodeRequest || m.opcode == opcodeReply)

/-- `parse`. -/
def parse (m : ARPMessage) (buffer : Bytes) : ARPMessage × ParseResult :=
  let p : NetParser := ⟨buffer, .noError⟩
  if p.buffer.length < length then (m, .packetTooShort)
  else
    let (hardwareType, p) := p.u16
    let (protocolType, p) := p.u16
    let (hardwareAddressSize, p) := p.u8
    let (protocolAddressSize, p) := p.u8
    let (opcode, p) := p.u16
    let m := { m with
      hardwareType := hardwareType
      protocolType := protocolType
      hardwareAddressSize := hardwareAddressSize
      protocolAddressSize := protocolAddressSize
      opcode := opcode }
    if !m.supported then (m, .unsupported)
    else
      let (senderEthernetAddress, p) := p.bytes 6
      let (senderIpAddress, p) := p.u32
      let (targetEthernetAddress, p) := p.bytes 6
      let (targetIpAddress, p) := p.u32
      ({ m with
          senderEthernetAddress := senderEthernetAddress
          senderIpAddress := senderIpAddress
          targetEthernetAddress := targetEthernetAddress
          targetIpAddress := targetIpAddress }, p.error)

/-- The bytes that `serialize` writes. -/
def toBytes (m : ARPMessage) : Bytes :=
  NetUnparser.u16 m.hardwareType ++ (NetUnparser.u16 m.protocolType ++
    (NetUnparser.u8 m.hardwareAddressSize ++ (NetUnparser.u8 m.protocolAddressSize ++
      (NetUnparser.u16 m.opcode ++ (m.senderEthernetAddress.toList ++
        (NetUnparser.u32 m.senderIpAddress ++ (m.targetEthernetAddress.toList ++
          NetUnparser.u32 m.targetIpAddress)))))))

/-- `serialize`, or nothing if it throws. -/
def serialize (m : ARPMessage) : Option Bytes := if m.supported then some m.toBytes else none

end ARPMessage

/-! ### Round trip -/

theorem NetParser.bytes_toList {n : ℕ} (v : Vector UInt8 n) (rest : Bytes) :
    NetParser.bytes n ⟨v.toList ++ rest, .noError⟩ = (v, ⟨rest, .noError⟩) := by
  induction n generalizing rest with
  | zero =>
      rw [show v = #v[] from Vector.eq_empty]
      rfl
  | succ n ih =>
      have hlist : v.toList = v.pop.toList ++ NetUnparser.u8 v.back := by
        rw [NetUnparser.u8_eq, ← Vector.toList_push, Vector.push_pop_back]
      rw [hlist, List.append_assoc, NetParser.bytes, ih]
      dsimp only
      rw [NetParser.u8_u8]
      dsimp only
      rw [Vector.push_pop_back]

/-- The bytes that are read are those in front. -/
theorem NetParser.bytes_spec {n : ℕ} {buffer : Bytes} (h : n ≤ buffer.length) :
    (NetParser.bytes n ⟨buffer, .noError⟩).1.toList = buffer.take n ∧
      (NetParser.bytes n ⟨buffer, .noError⟩).2 = ⟨buffer.drop n, .noError⟩ := by
  induction n with
  | zero => exact ⟨rfl, rfl⟩
  | succ n ih =>
      obtain ⟨hfront, hrest⟩ := ih (by omega)
      have hget : buffer.getD n 0 = buffer[n] := by
        rw [List.getD_eq_getElem?_getD, List.getElem?_eq_getElem h, Option.getD_some]
      rw [NetParser.bytes]
      simp only [hrest, NetParser.u8_drop h, Vector.toList_push, hfront, hget]
      exact ⟨(List.take_concat_get' buffer n h).symm ▸ rfl, trivial⟩

namespace EthernetFrame

/-- What `serialize` writes is parsed back, with the payload in one buffer. -/
theorem parse_serialize (frame frame' : EthernetFrame) :
    frame.parse frame'.serialize.concatenate =
      (⟨frame'.header, [frame'.payload.concatenate]⟩, .noError) := by
  have hbytes : frame'.serialize.concatenate = frame'.header.dst.toList ++
      (frame'.header.src.toList ++ (NetUnparser.u16 frame'.header.type ++
        frame'.payload.concatenate)) := by
    show frame'.header.serialize ++ _ = _
    rw [EthernetHeader.serialize, List.append_assoc, List.append_assoc]
    rfl
  unfold parse EthernetHeader.parse
  rw [hbytes, if_neg (by simp [EthernetHeader.length]; omega)]
  simp only [NetParser.bytes_toList, NetParser.u16_u16]

/-- A packet that is shorter than a header is accepted, and nothing of the header is read. -/
theorem parse_short (frame : EthernetFrame) {buffer : Bytes}
    (h : buffer.length < EthernetHeader.length) :
    frame.parse buffer = (⟨frame.header, [buffer]⟩, .noError) := by
  unfold parse EthernetHeader.parse
  rw [if_pos h]

/-- Any other packet is the bytes of the frame that `parse` reads from it. -/
theorem serialize_parse (frame : EthernetFrame) {buffer : Bytes}
    (h : EthernetHeader.length ≤ buffer.length) :
    (frame.parse buffer).1.serialize.concatenate = buffer ∧
      (frame.parse buffer).2 = .noError := by
  have hlength : 14 ≤ buffer.length := h
  obtain ⟨hdst, hrest⟩ := NetParser.bytes_spec (show 6 ≤ buffer.length by omega)
  obtain ⟨hsrc, hrest'⟩ := NetParser.bytes_spec (show 6 ≤ (buffer.drop 6).length by
    rw [List.length_drop]
    omega)
  rw [List.drop_drop] at hrest'
  unfold parse EthernetHeader.parse
  rw [if_neg (not_lt.mpr h)]
  simp only [hrest, hrest', NetParser.u16_drop (show 12 + 2 ≤ buffer.length by omega)]
  have hlen : ((buffer.drop 12).take 2).length = 2 := by
    rw [List.length_take, List.length_drop]
    omega
  have htype : NetUnparser.u16 (UInt16.ofNat (BigEndian.toNat ((buffer.drop 12).take 2))) =
      (buffer.drop 12).take 2 := by
    have hlt := BigEndian.toNat_lt ((buffer.drop 12).take 2)
    have hwrite := BigEndian.ofNat_toNat ((buffer.drop 12).take 2)
    rw [hlen] at hlt hwrite
    rw [NetUnparser.u16, UInt16.toNat_ofNat', Nat.mod_eq_of_lt (show _ < 2 ^ 16 from hlt), hwrite]
  refine ⟨?_, trivial⟩
  show EthernetHeader.serialize ⟨_, _, _⟩ ++ (buffer.drop 14 ++ []) = buffer
  rw [EthernetHeader.serialize, hdst, hsrc, htype, List.append_nil, List.append_assoc,
    List.append_assoc, ← List.drop_drop (i := 2) (j := 12), List.take_append_drop,
    ← List.drop_drop (i := 6) (j := 6), List.take_append_drop, List.take_append_drop]

end EthernetFrame

namespace ARPMessage

/-- What `serialize` writes is parsed back. -/
theorem parse_toBytes (m m' : ARPMessage) (h : m'.supported = true) :
    m.parse m'.toBytes = (m', .noError) := by
  have hlength : m'.toBytes.length = 28 := by simp [toBytes]
  unfold parse
  have hlast : ∀ v, NetParser.u32 ⟨NetUnparser.u32 v, .noError⟩ = (v, ⟨[], .noError⟩) := fun v => by
    simpa only [List.append_nil] using NetParser.u32_u32 [] v
  rw [if_neg (by rw [hlength]; decide)]
  have hsame : supported { m with
      hardwareType := m'.hardwareType
      protocolType := m'.protocolType
      hardwareAddressSize := m'.hardwareAddressSize
      protocolAddressSize := m'.protocolAddressSize
      opcode := m'.opcode } = true := h
  simp only [toBytes, NetParser.u16_u16, NetParser.u8_u8, NetParser.u32_u32,
    NetParser.bytes_toList, hlast, hsame, Bool.not_true, Bool.false_eq_true, if_false]

end ARPMessage

end CourseNet
