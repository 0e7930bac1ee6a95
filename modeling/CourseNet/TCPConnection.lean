import CourseNet.StepSystem
import CourseNet.TCPReceiver
import CourseNet.TCPSender

/-!
# The connection

`TCPConnection` of `tcp_connection.cc`, one definition for each member function.  `segmentsOut` is
the queue the owner drains; no member function reads it, so the model leaves every segment in it
and it is the log of all segments emitted.
-/

namespace CourseNet

structure TCPConnection where
  cfg : TCPConfig
  receiver : TCPReceiver
  sender : TCPSender
  segmentsOut : List TCPSegment
  lingerAfterStreamsFinish : Bool
  isActive : Bool
  timeSinceLastSegmentReceived : ℕ

namespace TCPConnection

def new (cfg : TCPConfig) (random : UInt32) : TCPConnection where
  cfg := cfg
  receiver := TCPReceiver.new cfg.recvCapacity
  sender := TCPSender.new cfg.sendCapacity cfg.rtTimeout cfg.fixedIsn random
  segmentsOut := []
  lingerAfterStreamsFinish := true
  isActive := true
  timeSinceLastSegmentReceived := 0

def remainingOutboundCapacity (c : TCPConnection) : ℕ := c.sender.stream.remainingCapacity

def bytesInFlight (c : TCPConnection) : ℕ := c.sender.bytesInFlight

def unassembledBytes (c : TCPConnection) : ℕ := c.receiver.reassembler.unassembledBytes

def active (c : TCPConnection) : Bool := c.isActive

def inboundStream (c : TCPConnection) : ByteStream := c.receiver.streamOut

/-- The window clamped to what the header field can hold. -/
def advertisedWindow (c : TCPConnection) : UInt16 :=
  if 65535 < c.receiver.windowSize then 65535 else UInt16.ofNat c.receiver.windowSize

/-- Fill in the fields that the receiver sets: the window, and ACK with the acknowledgment number
once there is one. -/
def stamp (c : TCPConnection) (seg : TCPSegment) : TCPSegment :=
  { seg with
      header := { seg.header with
        win := c.advertisedWindow
        ack := seg.header.ack || c.receiver.ackno.isSome
        ackno := c.receiver.ackno.getD seg.header.ackno } }

/-- `_push_segments_out`: stamp everything the sender queued. -/
def pushSegmentsOut (c : TCPConnection) : TCPConnection :=
  { c with
      sender := { c.sender with segmentsOut := [] }
      segmentsOut := c.segmentsOut ++ c.sender.segmentsOut.map c.stamp }

/-- Both streams error and the connection ends. -/
def setErrors (c : TCPConnection) : TCPConnection :=
  { c with
      sender := { c.sender with stream := c.sender.stream.setError }
      receiver := c.receiver.setError
      isActive := false }

/-- `_unclean_shutdown`.  The RST is made from the front of the sender's queue, whatever that is. -/
def uncleanShutdown (c : TCPConnection) (sendRst : Bool) : TCPConnection :=
  let c := c.setErrors
  if sendRst then
    let sender := c.sender.sendEmptySegment
    match sender.segmentsOut with
    | [] => { c with sender := sender }
    | seg :: rest =>
        { c with
            sender := { sender with segmentsOut := rest }
            segmentsOut := c.segmentsOut ++
              [{ seg with header := { seg.header with ack := false, rst := true } }] }
  else c

/-- Step 3 of `segment_received`. -/
def acknowledge (c : TCPConnection) (seg : TCPSegment) : TCPConnection :=
  if seg.header.ack then
    { c with sender := c.sender.ackReceived seg.header.ackno seg.header.win }
  else c

/-- The passive-close check of `segment_received`. -/
def noteInboundEnd (c : TCPConnection) : TCPConnection :=
  if c.receiver.streamOut.inputEnded && !c.sender.stream.eof then
    { c with lingerAfterStreamsFinish := false }
  else c

/-- Steps 4 and 5 of `segment_received`: does the segment call for an answer? -/
def sendAckNeeded (c : TCPConnection) (seg : TCPSegment) : Bool :=
  decide (0 < seg.lengthInSequenceSpace) ||
    match c.receiver.ackno with
    | some ackno => seg.lengthInSequenceSpace == 0 && seg.header.seqno == ackno.sub 1
    | none => false

/-- The answer. -/
def reply (c : TCPConnection) (seg : TCPSegment) : TCPConnection :=
  if c.sendAckNeeded seg then
    let sender := c.sender.fillWindow
    { c with
        sender := if sender.segmentsOut.isEmpty then sender.sendEmptySegment else sender }
  else c

/-- `segment_received`.  An exception of the receiver leaves everything but the receiver as it
was. -/
def segmentReceived (c : TCPConnection) (seg : TCPSegment) : TCPConnection :=
  if !c.isActive then c
  else
    let c := { c with timeSinceLastSegmentReceived := 0 }
    if seg.header.rst then c.uncleanShutdown false
    else
      let (receiver, outcome) := c.receiver.segmentReceived seg
      let c := { c with receiver := receiver }
      if outcome == .throws then c
      else (((c.acknowledge seg).noteInboundEnd).reply seg).pushSegmentsOut

/-- The call leaves by the exception of the receiver. -/
def segmentReceivedThrows (c : TCPConnection) (seg : TCPSegment) : Bool :=
  c.isActive && !seg.header.rst && (c.receiver.segmentReceived seg).2 == .throws

/-- `write`: the connection and the number of bytes accepted. -/
def write (c : TCPConnection) (data : Bytes) : TCPConnection × ℕ :=
  if !c.isActive then (c, 0)
  else
    let (stream, written) := c.sender.stream.write data
    ({ c with sender := { c.sender with stream := stream }.fillWindow }.pushSegmentsOut, written)

/-- The condition under which `tick` considers both streams finished. -/
def streamsFinished (c : TCPConnection) : Bool :=
  c.receiver.streamOut.inputEnded && c.sender.stream.eof && c.sender.bytesInFlight == 0

/-- The last part of `tick`. -/
def closeIfFinished (c : TCPConnection) : TCPConnection :=
  if c.streamsFinished then
    if !c.lingerAfterStreamsFinish then { c with isActive := false }
    else if 10 * c.cfg.rtTimeout.toNat ≤ c.timeSinceLastSegmentReceived then
      { c with isActive := false }
    else c
  else c

def tick (c : TCPConnection) (ms : ℕ) : TCPConnection :=
  if !c.isActive then c
  else
    let c := { c with
      timeSinceLastSegmentReceived := (c.timeSinceLastSegmentReceived + ms) % 2 ^ 64
      sender := c.sender.tick ms }
    if TCPConfig.maxRetxAttempts < c.sender.consecutiveRetransmissions then c.uncleanShutdown true
    else c.pushSegmentsOut.closeIfFinished

def endInputStream (c : TCPConnection) : TCPConnection :=
  { c with
      sender := { c.sender with stream := c.sender.stream.endInput }.fillWindow }.pushSegmentsOut

def connect (c : TCPConnection) : TCPConnection :=
  { c with sender := c.sender.fillWindow, isActive := true }.pushSegmentsOut

/-- `inbound_stream().read(len)`: the bytes read and the connection. -/
def readInbound (c : TCPConnection) (len : ℕ) : Bytes × TCPConnection :=
  ((c.receiver.read len).1, { c with receiver := (c.receiver.read len).2 })

/-! ### Runs -/

/-- The calls an owner can make. -/
inductive Op
  | connect
  | write (data : Bytes)
  | endInputStream
  | segmentReceived (seg : TCPSegment)
  | tick (ms : ℕ)
  | readInbound (len : ℕ)

def step (c : TCPConnection) : Op → TCPConnection
  | .connect => c.connect
  | .write data => (c.write data).1
  | .endInputStream => c.endInputStream
  | .segmentReceived seg => c.segmentReceived seg
  | .tick ms => c.tick ms
  | .readInbound len => (c.readInbound len).2

/-- A connection some run of calls leads to. -/
def Reachable (c : TCPConnection) : Prop :=
  ∃ cfg random, StepSystem.Reachable step (new cfg random) c

end TCPConnection

end CourseNet
