import CourseNet.StreamReassembler
import CourseNet.TCPSegment

/-!
# The receiver

`TCPReceiver` of `tcp_receiver.cc`: it remembers the peer's initial sequence number, turns sequence
numbers into stream indices, and computes the acknowledgment number and the window to advertise.
-/

namespace CourseNet

structure TCPReceiver where
  reassembler : StreamReassembler
  capacity : ℕ
  isn : Option WrappingInt32
  finReceived : Bool

namespace TCPReceiver

def new (capacity : ℕ) : TCPReceiver := ⟨StreamReassembler.new capacity, capacity, none, false⟩

def streamOut (r : TCPReceiver) : ByteStream := r.reassembler.output

/-- The stream index of the payload's first byte: a SYN takes a sequence number of its own.
`absolute_seqno - 1` wraps for a segment at the initial sequence number without SYN. -/
def streamIndex (r : TCPReceiver) (isn : WrappingInt32) (seg : TCPSegment) : ℕ :=
  let checkpoint := r.streamOut.bytesWritten + 1
  let absoluteSeqno := unwrap seg.header.seqno isn checkpoint
  if seg.header.syn then absoluteSeqno else (absoluteSeqno + 2 ^ 64 - 1) % 2 ^ 64

/-- The part of `segment_received` after the initial sequence number is known.  If
`push_substring` throws, the FIN is not noted and the exception reaches the caller. -/
def pushSegment (r : TCPReceiver) (isn : WrappingInt32) (seg : TCPSegment) :
    TCPReceiver × PushOutcome :=
  let index := r.streamIndex isn seg
  let outcome := r.reassembler.pushOutcome seg.payload index seg.header.fin
  ({ r with
      isn := some isn
      reassembler := r.reassembler.pushSubstring seg.payload index seg.header.fin
      finReceived := r.finReceived || seg.header.fin && outcome != .throws }, outcome)

/-- `segment_received`: without an initial sequence number only a SYN is taken. -/
def segmentReceived (r : TCPReceiver) (seg : TCPSegment) : TCPReceiver × PushOutcome :=
  match r.isn with
  | some isn => r.pushSegment isn seg
  | none => if seg.header.syn then r.pushSegment seg.header.seqno seg else (r, .returns)

/-- The absolute sequence number of the first byte not yet received, FIN included. -/
def absoluteAckno (r : TCPReceiver) : ℕ :=
  let absoluteSeqno := r.streamOut.bytesWritten + 1
  if r.finReceived && r.streamOut.inputEnded then absoluteSeqno + 1 else absoluteSeqno

theorem absoluteAckno_bounds (r : TCPReceiver) :
    r.streamOut.bytesWritten + 1 ≤ r.absoluteAckno ∧
      r.absoluteAckno ≤ r.streamOut.bytesWritten + 2 := by
  unfold absoluteAckno
  dsimp only
  split <;> omega

def ackno (r : TCPReceiver) : Option WrappingInt32 := r.isn.map (wrap r.absoluteAckno)

/-- The window to advertise, in `size_t` arithmetic. -/
def windowSize (r : TCPReceiver) : ℕ :=
  let bytesInBuffer := r.streamOut.bytesWritten - r.streamOut.bytesRead
  (r.capacity + 2 ^ 64 - bytesInBuffer) % 2 ^ 64

/-- `stream_out().set_error()`. -/
def setError (r : TCPReceiver) : TCPReceiver :=
  { r with reassembler := { r.reassembler with output := r.reassembler.output.setError } }

/-- `stream_out().read(len)`. -/
def read (r : TCPReceiver) (len : ℕ) : Bytes × TCPReceiver :=
  ((r.reassembler.read len).1, { r with reassembler := (r.reassembler.read len).2 })

end TCPReceiver

end CourseNet
