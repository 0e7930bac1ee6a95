import CourseNet.ByteStream
import CourseNet.WrappingIntegers

/-!
# TCP segments and configuration

`TCPHeader`, `TCPSegment` and `TCPConfig`.  The payload is a `Buffer` in the source; its bytes are
all that the endpoint reads.
-/

namespace CourseNet

structure TCPHeader where
  sport : UInt16 := 0
  dport : UInt16 := 0
  seqno : WrappingInt32 := ⟨0⟩
  ackno : WrappingInt32 := ⟨0⟩
  doff : UInt8 := 5
  urg : Bool := false
  ack : Bool := false
  psh : Bool := false
  rst : Bool := false
  syn : Bool := false
  fin : Bool := false
  win : UInt16 := 0
  cksum : UInt16 := 0
  uptr : UInt16 := 0
deriving DecidableEq, Repr

structure TCPSegment where
  header : TCPHeader := {}
  payload : Bytes := []
deriving DecidableEq, Repr

/-- Payload length plus one for each of SYN and FIN. -/
def TCPSegment.lengthInSequenceSpace (seg : TCPSegment) : ℕ :=
  seg.payload.length + (if seg.header.syn then 1 else 0) + (if seg.header.fin then 1 else 0)

structure TCPConfig where
  rtTimeout : UInt16 := 1000
  recvCapacity : ℕ := 64000
  sendCapacity : ℕ := 64000
  fixedIsn : Option WrappingInt32 := none

namespace TCPConfig

def maxPayloadSize : ℕ := 1000

def maxRetxAttempts : UInt32 := 8

end TCPConfig

end CourseNet
