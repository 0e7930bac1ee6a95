import CourseNet.ByteStream
import CourseNet.DecimalText
import CourseNet.Framing

/-!
# Packets of the socket lab

The packet types that `server.h` and `func.h` define alike, the two `SendPacket` functions, which
build a packet the same way, and how the server takes the payload of a MESSAGE apart.
-/

namespace CourseNet

/-- A packet: its type and its payload. -/
abbrev Packet := Framing.Frame

namespace PacketType

def invalid : UInt8 := 0
def connect : UInt8 := 1
def signal : UInt8 := 2
def time : UInt8 := 3
def name : UInt8 := 4
def list : UInt8 := 5
def message : UInt8 := 6
def disconnect : UInt8 := 7

end PacketType

/-- The bytes both `SendPacket` functions give to `send`.  `uint16_t payload_len` keeps the size of
the payload modulo `2 ^ 16`. -/
def packetBytes (type : UInt8) (payload : Bytes) : Bytes :=
  let payloadLen := payload.length % 2 ^ 16
  type :: UInt8.ofNat ((payloadLen >>> 8) &&& 0xFF) :: UInt8.ofNat (payloadLen &&& 0xFF) :: payload

/-- `SendPacket` of the server: what reaches the socket. -/
def SocketServer.sendPacket (sock : ℤ) (type : UInt8) (payload : Bytes) : Bytes :=
  if sock < 0 then [] else packetBytes type payload

/-- `SendPacket` of the client. -/
def SocketClient.sendPacket (connected : Bool) (baseSock : ℤ) (type : UInt8) (payload : Bytes) :
    Bytes :=
  if connected = false ∨ baseSock < 0 then [] else packetBytes type payload

/-- The high byte needs no mask, as the length has 16 bits. -/
theorem packetBytes_eq (p : Packet) : packetBytes p.kind p.payload = Framing.encode p := by
  have hmask : ∀ n : ℕ, n &&& 0xFF = n % 256 := fun n => Nat.and_two_pow_sub_one_eq_mod n 8
  have hbyte : ∀ n : ℕ, UInt8.ofNat (n % 256) = UInt8.ofNat n := fun n =>
    UInt8.toNat_inj.mp (by rw [UInt8.toNat_ofNat', UInt8.toNat_ofNat']; omega)
  have hlow : UInt8.ofNat (p.payload.length % 2 ^ 16) = UInt8.ofNat p.payload.length :=
    UInt8.toNat_inj.mp (by rw [UInt8.toNat_ofNat', UInt8.toNat_ofNat']; omega)
  have hhigh : UInt8.ofNat ((p.payload.length % 2 ^ 16) >>> 8) =
      UInt8.ofNat (p.payload.length >>> 8) :=
    UInt8.toNat_inj.mp (by
      rw [UInt8.toNat_ofNat', UInt8.toNat_ofNat', Nat.shiftRight_eq_div_pow,
        Nat.shiftRight_eq_div_pow]
      omega)
  simp only [packetBytes, hmask, hbyte, hlow, hhigh]
  rfl

/-- `target$content`, if there is a dollar sign. -/
def splitMessage (payload : Bytes) : Option (Bytes × Bytes) :=
  match payload.findIdx? (· == 36) with
  | none => none
  | some pos => some (payload.take pos, payload.drop (pos + 1))

/-- A MESSAGE packet without a dollar sign, or whose target is no decimal integer that fits an
`int`. -/
def IllFormed (p : Packet) : Prop :=
  p.kind = PacketType.message ∧
    ∀ target content, splitMessage p.payload = some (target, content) →
      DecimalText.decimal? target = none

/-- The bytes of a literal of the source. -/
def ascii (text : String) : Bytes := text.toList.map fun c => UInt8.ofNat c.toNat

end CourseNet
