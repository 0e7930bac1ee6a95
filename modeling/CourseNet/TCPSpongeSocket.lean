import CourseNet.EventLoop
import CourseNet.FdAdapter
import CourseNet.Network
import CourseNet.TCPState

/-!
# The socket

`TCPSpongeSocket` of `tcp_sponge_socket.cc`: a connection in a thread of its own, between an owner
who reads and writes one end of a pair of stream sockets, and an adapter to the network.  The four
rules of `_initialize_TCP` are the rules of an event loop; one turn of `_tcp_loop` is a step, and so
is each call of the owner.  What the kernel answers is an input, of which only what it may answer is
taken.
-/

namespace CourseNet

/-- The pair of stream sockets, and what went through the owner's end. -/
structure SocketPair where
  toThread : Bytes := []
  toOwner : Bytes := []
  ownerClosed : Bool := false
  threadClosed : Bool := false
  ownerWrote : Bytes := []
  ownerRead : Bytes := []
deriving DecidableEq, Repr

namespace SocketPair

/-- What a `read` of the thread's end returns: at most `n` of the bytes asked for, nothing at the
end of the stream, and an error if there is nothing yet. -/
def recv (p : SocketPair) (limit n : ℕ) : Option (SocketPair × Bytes) :=
  let got := p.toThread.take (min (min FileDescriptor.bufferSize limit) n)
  if got.isEmpty && decide (0 < limit) && !(p.toThread.isEmpty && p.ownerClosed) then none
  else some ({ p with toThread := p.toThread.drop got.length }, got)

/-- What a `write` of `n` bytes to the thread's end returns; it fails after a shutdown. -/
def sendResult (p : SocketPair) (answer : Option ℕ) (n : ℕ) : Option ℕ :=
  if p.threadClosed then none else answer.map (min n)

/-- What that `write` does with the bytes that the kernel takes. -/
def send (p : SocketPair) (taken : Bytes) : SocketPair := { p with toOwner := p.toOwner ++ taken }

/-- The owner writes; after a shutdown it cannot. -/
def write (p : SocketPair) (data : Bytes) : SocketPair :=
  if p.ownerClosed then p
  else { p with toThread := p.toThread ++ data, ownerWrote := p.ownerWrote ++ data }

/-- The owner reads what is there, at most `n` bytes. -/
def read (p : SocketPair) (n : ℕ) : SocketPair :=
  { p with toOwner := p.toOwner.drop n, ownerRead := p.ownerRead ++ p.toOwner.take n }

end SocketPair

/-- What the rules of the event loop act on: `_tcp` with its history, `_datagram_adapter`,
`_thread_data`, the two flags, and how many segments were taken from the front of
`segments_out()`. -/
structure TCPThread (α : Type) where
  tcp : Endpoint
  datagramAdapter : α
  threadData : FileDescriptor := {}
  inboundShutdown : Bool := false
  outboundShutdown : Bool := false
  transmitted : ℕ := 0
  pair : SocketPair := {}

namespace TCPThread

/-- What a callback may throw. -/
inductive Exception
  | adapter
  | segmentReceived
  | wouldBlock
  | read (what : String)
  | write (outcome : WriteOutcome)
  | acceptedLess
deriving DecidableEq, Repr

/-- What the kernel answers: to the read of the adapter's descriptor, how much to the read of the
pair, and how much, or an error, to the write to the pair. -/
structure Input (δ : Type) where
  datagram : δ
  pipeRead : ℕ
  pipeWrite : Option ℕ

/-- The four rules. -/
inductive RuleName
  | datagramIn
  | pipeIn
  | pipeOut
  | datagramOut
deriving DecidableEq, Repr

variable {α δ ω : Type} [FdAdapter α δ ω]

/-- Rule 1: read from filtered packet stream and dump into TCPConnection, which lets the exception of
the reassembler out. -/
def receiveDatagram (input : Input δ) (s : TCPThread α) : TCPThread α × Option Exception :=
  match FdAdapter.read s.datagramAdapter input.datagram with
  | none => (s, some .adapter)
  | some (adapter, none) => ({ s with datagramAdapter := adapter }, none)
  | some (adapter, some seg) =>
      ({ s with datagramAdapter := adapter, tcp := s.tcp.step (.segmentReceived seg) },
        if s.tcp.conn.segmentReceivedThrows seg then some .segmentReceived else none)

/-- `end_input_stream`, which is also what rule 2 does when it is cancelled. -/
def endOutbound (s : TCPThread α) : TCPThread α :=
  { s with tcp := s.tcp.step .endInputStream, outboundShutdown := true }

/-- Rule 2: read from pipe into outbound buffer. -/
def readPipe (input : Input δ) (s : TCPThread α) : TCPThread α × Option Exception :=
  let limit := s.tcp.conn.remainingOutboundCapacity
  match s.pair.recv limit input.pipeRead with
  | none => (s, some .wouldBlock)
  | some (pair, got) =>
      match s.threadData.read limit got with
      | .error what => (s, some (.read what))
      | .ok (threadData, data) =>
          let amountWritten := (s.tcp.conn.write data).2
          let s := { s with
            pair := pair
            threadData := threadData
            tcp := s.tcp.step (.write data) }
          if amountWritten ≠ data.length then (s, some .acceptedLess)
          else if s.threadData.eof then (s.endOutbound, none)
          else (s, none)

/-- Rule 3: read from inbound buffer into pipe. -/
def writePipe (input : Input δ) (s : TCPThread α) : TCPThread α × Option Exception :=
  let inbound := s.tcp.conn.inboundStream
  let amountToWrite := min 65536 inbound.bufferSize
  let buffer := inbound.peekOutput amountToWrite
  match s.threadData.write [buffer] false [s.pair.sendResult input.pipeWrite buffer.length] with
  | (threadData, taken, .returns bytesWritten) =>
      let s := { s with
        threadData := threadData
        pair := s.pair.send taken
        tcp := s.tcp.step (.readInbound bytesWritten) }
      let inbound := s.tcp.conn.inboundStream
      if inbound.eof || inbound.error then
        ({ s with
            threadData := s.threadData.registerWrite
            pair := { s.pair with threadClosed := true }
            inboundShutdown := true }, none)
      else (s, none)
  | (_, _, outcome) => (s, some (.write outcome))

/-- The loop of rule 4 over the segments that are left. -/
def transmit : List TCPSegment → TCPThread α → TCPThread α × Option Exception
  | [], s => (s, none)
  | seg :: rest, s =>
      match FdAdapter.write s.datagramAdapter seg with
      | none => (s, some .adapter)
      | some adapter =>
          transmit rest { s with datagramAdapter := adapter, transmitted := s.transmitted + 1 }

/-- `segments_out()`: what was not popped. -/
def segmentsOut (s : TCPThread α) : List TCPSegment := s.tcp.conn.segmentsOut.drop s.transmitted

/-- Rule 4: read outbound segments from TCPConnection and send as datagrams. -/
def sendDatagrams (_ : Input δ) (s : TCPThread α) : TCPThread α × Option Exception :=
  transmit s.segmentsOut s

/-- The rules that `_initialize_TCP` adds, without their debugging output. -/
def rule : RuleName → EventLoop.Rule (TCPThread α) (Input δ) Exception
  | .datagramIn =>
      { fd := fun s => FdAdapter.fd s.datagramAdapter
        direction := .dirIn
        callback := receiveDatagram
        interest := fun s => s.tcp.conn.active
        cancel := id }
  | .pipeIn =>
      { fd := threadData
        direction := .dirIn
        callback := readPipe
        interest := fun s => s.tcp.conn.active && !s.outboundShutdown &&
          decide (0 < s.tcp.conn.remainingOutboundCapacity)
        cancel := endOutbound }
  | .pipeOut =>
      { fd := threadData
        direction := .dirOut
        callback := writePipe
        interest := fun s => !s.tcp.conn.inboundStream.bufferEmpty ||
          ((s.tcp.conn.inboundStream.eof || s.tcp.conn.inboundStream.error) && !s.inboundShutdown)
        cancel := id }
  | .datagramOut =>
      { fd := fun s => FdAdapter.fd s.datagramAdapter
        direction := .dirOut
        callback := sendDatagrams
        interest := fun s => !s.segmentsOut.isEmpty
        cancel := id }

/-- What `_tcp_loop` does after an event if the connection is active. -/
def tick (s : TCPThread α) (ms : ℕ) : TCPThread α :=
  { s with
      tcp := s.tcp.step (.tick ms)
      datagramAdapter := FdAdapter.tick s.datagramAdapter ms }

end TCPThread

/-- Where the socket is: in the loop of `connect` or `listen_and_accept`, in that of `_tcp_main`,
after it, or stopped by an exception. -/
inductive TCPSpongeSocket.Phase
  | opening
  | running
  | finished
  | died (error : EventLoop.Error TCPThread.Exception)
deriving DecidableEq, Repr

structure TCPSpongeSocket (α : Type) where
  eventloop : EventLoop.Loop TCPThread.RuleName (TCPThread α)
  listens : Bool
  abort : Bool := false
  phase : TCPSpongeSocket.Phase := .opening

namespace TCPSpongeSocket

open TCPThread (RuleName Input Exception)

variable {α δ ω : Type} [FdAdapter α δ ω]

/-- What the loop acts on. -/
abbrev thread (s : TCPSpongeSocket α) : TCPThread α := s.eventloop.state

def withThread (s : TCPSpongeSocket α) (thread : TCPThread α) : TCPSpongeSocket α :=
  { s with eventloop := { s.eventloop with state := thread } }

/-- `_initialize_TCP`. -/
def initializeTcp (tcp : Endpoint) (datagramAdapter : α) (listens : Bool) : TCPSpongeSocket α where
  eventloop :=
    ⟨[.datagramIn, .pipeIn, .pipeOut, .datagramOut],
      { tcp := tcp, datagramAdapter := datagramAdapter }, []⟩
  listens := listens

/-- `connect`, up to its loop; nothing if the state is not the expected one. -/
def connect (cTcp : TCPConfig) (random : UInt32) (datagramAdapter : α) (cAd : FdAdapterConfig)
    (rates : LossRates) : Option (TCPSpongeSocket α) :=
  let tcp := (Endpoint.new cTcp random).step .connect
  if tcp.conn.state ≠ TCPState.ofState .synSent then none
  else some (initializeTcp tcp (FdAdapter.setConfig datagramAdapter cAd rates) false)

/-- The check in `connect` never fails. -/
theorem connect_eq (cTcp : TCPConfig) (random : UInt32) (adapter : α) (cAd : FdAdapterConfig)
    (rates : LossRates) :
    TCPSpongeSocket.connect cTcp random adapter cAd rates =
      some (initializeTcp ((Endpoint.new cTcp random).step .connect)
        (FdAdapter.setConfig adapter cAd rates) false) := by
  have hstate : ((Endpoint.new cTcp random).step .connect).conn.state =
    TCPState.ofState .synSent := rfl
  unfold TCPSpongeSocket.connect
  exact if_neg (not_not.mpr hstate)

/-- `listen_and_accept`, up to its loop. -/
def listenAndAccept (cTcp : TCPConfig) (random : UInt32) (datagramAdapter : α)
    (cAd : FdAdapterConfig) (rates : LossRates) : TCPSpongeSocket α :=
  initializeTcp (Endpoint.new cTcp random)
    (FdAdapter.setListening (FdAdapter.setConfig datagramAdapter cAd rates) true) true

/-- The condition of the loop of `connect` or `listen_and_accept`. -/
def opens (s : TCPSpongeSocket α) : Bool :=
  let state := s.thread.tcp.conn.state
  if s.listens then
    decide (state = TCPState.ofState .listen ∨ state = TCPState.ofState .synRcvd ∨
      state = TCPState.ofState .synSent)
  else decide (state = TCPState.ofState .synSent)

/-- One turn of `_tcp_loop`, and the phase after the loop if the turn leaves it with a `break`. -/
def tcpLoop (s : TCPSpongeSocket α) (answer : EventLoop.Poll RuleName (Input δ)) (ms : ℕ)
    (after : Phase) : TCPSpongeSocket α :=
  match EventLoop.waitNextEvent TCPThread.rule s.eventloop answer with
  | (l, .throws error) => { s with eventloop := l, phase := .died error }
  | (l, .exit) => { s with eventloop := l, phase := after }
  | (l, _) =>
      if s.abort then { s with eventloop := l, phase := after }
      else if l.state.tcp.conn.active then
        { s with eventloop := { l with state := l.state.tick ms } }
      else { s with eventloop := l }

/-- After its loop `_tcp_main` shuts the owner's socket down. -/
def closeOwner (s : TCPSpongeSocket α) : TCPSpongeSocket α :=
  if s.phase = .finished then
    s.withThread { s.thread with
      pair := { s.thread.pair with ownerClosed := true, threadClosed := true } }
  else s

/-- What can happen to a socket: a turn of its loop, or a call of the owner. -/
inductive Op (δ : Type)
  | turn (answer : EventLoop.Poll RuleName (Input δ)) (ms : ℕ)
  | write (data : Bytes)
  | shutdownWrite
  | read (n : ℕ)
  | abort

def turn (s : TCPSpongeSocket α) (answer : EventLoop.Poll RuleName (Input δ)) (ms : ℕ) :
    TCPSpongeSocket α :=
  match s.phase with
  | .opening => if s.opens then s.tcpLoop answer ms .running else { s with phase := .running }
  | .running => (s.tcpLoop answer ms .finished).closeOwner
  | .finished | .died _ => s

def step (s : TCPSpongeSocket α) : Op δ → TCPSpongeSocket α
  | .turn answer ms => s.turn answer ms
  | .write data => s.withThread { s.thread with pair := s.thread.pair.write data }
  | .shutdownWrite =>
      s.withThread { s.thread with pair := { s.thread.pair with ownerClosed := true } }
  | .read n => s.withThread { s.thread with pair := s.thread.pair.read n }
  | .abort => { s with abort := true }

end TCPSpongeSocket

end CourseNet
