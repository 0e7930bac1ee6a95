import CourseNet.SortedMap
import CourseNet.TCPSegment

/-!
# The sender

`TCPSender` of `tcp_sender.cc`.  One turn of the loop of `fill_window` is `fillTurn`; every turn
that goes on advances `_next_seqno`, so `window_right - _next_seqno` turns are enough
(`fillLoop_stable`).  The timer, the retransmission timeout and the retransmission counter are
`unsigned int`s and wrap; absolute sequence numbers are natural numbers.
-/

namespace CourseNet

structure TCPSender where
  isn : WrappingInt32
  segmentsOut : List TCPSegment
  initialRetransmissionTimeout : UInt32
  stream : ByteStream
  nextSeqno : ℕ
  ackno : ℕ
  windowSize : UInt16
  outstandingSegments : SortedMap ℕ TCPSegment
  rto : UInt32
  timer : UInt32
  timerRunning : Bool
  consecutiveRetransmissions : UInt32
  synSent : Bool
  finSent : Bool

namespace TCPSender

/-- The constructor; `random` is what `random_device()()` returns. -/
def new (capacity : ℕ) (retxTimeout : UInt16) (fixedIsn : Option WrappingInt32) (random : UInt32) :
    TCPSender where
  isn := fixedIsn.getD ⟨random⟩
  segmentsOut := []
  initialRetransmissionTimeout := retxTimeout.toUInt32
  stream := ByteStream.new capacity
  nextSeqno := 0
  ackno := 0
  windowSize := 1
  outstandingSegments := SortedMap.empty
  rto := retxTimeout.toUInt32
  timer := 0
  timerRunning := false
  consecutiveRetransmissions := 0
  synSent := false
  finSent := false

def bytesInFlight (s : TCPSender) : ℕ :=
  (s.outstandingSegments.entries.map fun e => e.2.lengthInSequenceSpace).sum

/-- A window of zero counts as one. -/
def effectiveWindow (s : TCPSender) : ℕ := if s.windowSize = 0 then 1 else s.windowSize.toNat

def windowRight (s : TCPSender) : ℕ := s.ackno + s.effectiveWindow

/-- A segment with nothing but the next sequence number. -/
def blankSegment (s : TCPSender) : TCPSegment := { header := { seqno := wrap s.nextSeqno s.isn } }

/-- Send a segment and track it; the timer starts if nothing was outstanding. -/
def transmit (s : TCPSender) (seg : TCPSegment) : TCPSender :=
  { s with
      timer := if s.outstandingSegments.entries.isEmpty then 0 else s.timer
      timerRunning := if s.outstandingSegments.entries.isEmpty then true else s.timerRunning
      nextSeqno := s.nextSeqno + seg.lengthInSequenceSpace
      outstandingSegments := s.outstandingSegments.assign s.nextSeqno seg
      segmentsOut := s.segmentsOut ++ [seg] }

def synSegment (s : TCPSender) : TCPSegment :=
  { s.blankSegment with header := { s.blankSegment.header with syn := true } }

def finSegment (s : TCPSender) : TCPSegment :=
  { s.blankSegment with header := { s.blankSegment.header with fin := true } }

def payloadSize (s : TCPSender) (right : ℕ) : ℕ :=
  min (min (right - s.nextSeqno) TCPConfig.maxPayloadSize) s.stream.bufferSize

/-- The segment that carries `n` bytes of the stream, and the stream without them.  FIN is set if
the stream is then at its end and the window has room for it. -/
def dataSegment (s : TCPSender) (right n : ℕ) : TCPSegment × ByteStream :=
  let payload := (s.stream.read n).1
  let stream := (s.stream.read n).2
  let seg := { s.blankSegment with payload := payload }
  let fin := !s.finSent && stream.eof
    && decide (s.nextSeqno + seg.lengthInSequenceSpace < right)
  ({ seg with header := { seg.header with fin := fin } }, stream)

/-- One turn of the loop of `fill_window`; the second component tells whether it goes on. -/
def fillTurn (s : TCPSender) (right : ℕ) : TCPSender × Bool :=
  if !s.synSent then ({ s.transmit s.synSegment with synSent := true }, true)
  else
    let n := s.payloadSize right
    if n == 0 && s.stream.eof && !s.finSent then
      if s.nextSeqno < right then
        ({ s.transmit s.finSegment with finSent := true }, false)
      else (s, false)
    else if n == 0 then (s, false)
    else
      let (seg, stream) := s.dataSegment right n
      ({ { s with stream := stream }.transmit seg with finSent := s.finSent || seg.header.fin },
        !seg.header.fin)

/-- The loop `while (_next_seqno < window_right)`, for at most the given number of turns. -/
def fillLoop (right : ℕ) : ℕ → TCPSender → TCPSender
  | 0, s => s
  | turns + 1, s =>
      if s.nextSeqno < right then
        let (s', go) := s.fillTurn right
        if go then fillLoop right turns s' else s'
      else s

def fillWindow (s : TCPSender) : TCPSender :=
  fillLoop s.windowRight (s.windowRight - s.nextSeqno) s

/-- The absolute number an incoming ackno stands for. -/
def absoluteAckno (s : TCPSender) (ackno : WrappingInt32) : ℕ := unwrap ackno s.isn s.ackno

/-- The loop of `ack_received` over the outstanding segments, and what follows if one of them was
fully acknowledged. -/
def dropAcked (s : TCPSender) (absoluteAckno : ℕ) : TCPSender :=
  let acked := fun e : ℕ × TCPSegment =>
    decide (e.1 + e.2.lengthInSequenceSpace ≤ absoluteAckno)
  let s' := { s with outstandingSegments := s.outstandingSegments.filter fun e => !acked e }
  if s.outstandingSegments.entries.any acked then
    { s' with timer := 0, rto := s.initialRetransmissionTimeout, consecutiveRetransmissions := 0 }
  else s'

/-- The state in which `ack_received` calls `fill_window`. -/
def noteAck (s : TCPSender) (absoluteAckno : ℕ) (windowSize : UInt16) : TCPSender :=
  let s' := { s with windowSize := windowSize }.dropAcked absoluteAckno
  { s' with ackno := max s'.ackno absoluteAckno }

/-- Stop the timer once everything is acknowledged. -/
def stopTimer (s : TCPSender) : TCPSender :=
  if s.outstandingSegments.entries.isEmpty then { s with timerRunning := false } else s

def ackReceived (s : TCPSender) (ackno : WrappingInt32) (windowSize : UInt16) : TCPSender :=
  let absoluteAckno := s.absoluteAckno ackno
  if s.nextSeqno < absoluteAckno then s
  else (s.noteAck absoluteAckno windowSize).fillWindow.stopTimer

/-- Retransmit the outstanding segment with the lowest number; only a peer with an open window makes
the timeout double. -/
def retransmit (s : TCPSender) : TCPSender :=
  match s.outstandingSegments.entries with
  | [] => s
  | (_, seg) :: _ =>
      { s with
          timer := 0
          segmentsOut := s.segmentsOut ++ [seg]
          rto := if 0 < s.windowSize then s.rto * 2 else s.rto
          consecutiveRetransmissions := s.consecutiveRetransmissions + 1 }

def tick (s : TCPSender) (ms : ℕ) : TCPSender :=
  if s.timerRunning then
    let s' := { s with timer := UInt32.ofNat (s.timer.toNat + ms) }
    if s'.rto ≤ s'.timer then s'.retransmit else s'
  else s

def sendEmptySegment (s : TCPSender) : TCPSender :=
  { s with segmentsOut := s.segmentsOut ++ [s.blankSegment] }

end TCPSender

end CourseNet
