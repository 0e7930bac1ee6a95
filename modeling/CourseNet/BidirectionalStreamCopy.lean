import CourseNet.ByteStream
import CourseNet.EventLoop

/-!
# Copying between a socket and the standard streams

`bidirectional_stream_copy` of `bidirectional_stream_copy.cc`, which the applications run once their
socket is connected: what the standard input gives goes to the socket, what the socket gives goes to
the standard output, each through a byte stream, by four rules of one event loop.  What the kernel
answers to a system call is a function of what is asked, and an input.
-/

namespace CourseNet

/-- One direction of the copy: a byte stream and its flag, and what was read for it and written from
it. -/
structure StreamCopy.Lane where
  stream : ByteStream
  shutdown : Bool := false
  read : Bytes := []
  written : Bytes := []

/-- What the rules act on. -/
structure StreamCopy where
  socket : FileDescriptor
  input : FileDescriptor := {}
  output : FileDescriptor := {}
  outbound : StreamCopy.Lane := { stream := ByteStream.new 1048576 }
  inbound : StreamCopy.Lane := { stream := ByteStream.new 1048576 }

namespace StreamCopy

def maxCopyLength : ℕ := 65536

/-- What a callback may throw. -/
inductive Exception
  | read
  | readMore (what : String)
  | write (outcome : WriteOutcome)
  | shutdown
  | close
deriving DecidableEq, Repr

/-- What the kernel answers: nothing for an error, else the bytes of a read of so many bytes, or how
many of so many bytes a write takes. -/
structure Kernel where
  inputRead : ℕ → Option Bytes := fun _ => none
  socketWrite : ℕ → Option ℕ := fun _ => none
  socketShutdown : Bool := true
  socketRead : ℕ → Option Bytes := fun _ => none
  outputWrite : ℕ → Option ℕ := fun _ => none
  outputClose : Bool := true

namespace Lane

/-- Read into the stream, which ends at the end of the file. -/
def fill (l : Lane) (fd : FileDescriptor) (answer : ℕ → Option Bytes) :
    FileDescriptor × Lane × Option Exception :=
  let limit := l.stream.remainingCapacity
  match answer (min FileDescriptor.bufferSize limit) with
  | none => (fd, l, some .read)
  | some got =>
      match fd.read limit got with
      | .error what => (fd, l, some (.readMore what))
      | .ok (fd, data) =>
          let stream := (l.stream.write data).1
          let stream := if fd.eof then stream.endInput else stream
          (fd, { l with stream := stream, read := l.read ++ data }, none)

/-- Write from the stream, and end what is written to when the stream is at its end. -/
def drain (l : Lane) (fd : FileDescriptor) (answer : ℕ → Option ℕ)
    (finish : FileDescriptor → FileDescriptor × Option Exception) :
    FileDescriptor × Lane × Option Exception :=
  let bytesToWrite := min maxCopyLength l.stream.bufferSize
  let buffer := l.stream.peekOutput bytesToWrite
  match fd.write [buffer] false [answer buffer.length] with
  | (fd, taken, .returns bytesWritten) =>
      let l := { l with
        stream := l.stream.popOutput bytesWritten
        written := l.written ++ taken }
      if l.stream.eof then
        match finish fd with
        | (fd, none) => (fd, { l with shutdown := true }, none)
        | (fd, some what) => (fd, l, some what)
      else (fd, l, none)
  | (fd, taken, outcome) => (fd, { l with written := l.written ++ taken }, some (.write outcome))

/-- A read that returns. -/
structure Filled (l l' : Lane) (fd fd' : FileDescriptor) (got : Bytes) : Prop where
  fits : got.length ≤ l.stream.remainingCapacity
  eof : fd'.eof = (fd.eof || decide (0 < l.stream.remainingCapacity) && got.isEmpty)
  closed : fd'.closed = fd.closed
  readCount : fd'.readCount = fd.readCount + 1
  stream : l'.stream =
    if fd'.eof then (l.stream.write got).1.endInput else (l.stream.write got).1
  shutdown : l'.shutdown = l.shutdown
  read : l'.read = l.read ++ got
  written : l'.written = l.written

/-- It returns, or nothing changes and what is thrown is an error of the kernel, or more bytes than
were asked for. -/
theorem fill_cases (l : Lane) (fd : FileDescriptor) (answer : ℕ → Option Bytes) :
    (∃ fd' l' got, answer (min FileDescriptor.bufferSize l.stream.remainingCapacity) = some got ∧
      l.fill fd answer = (fd', l', none) ∧ Filled l l' fd fd' got) ∨
    ∃ what, l.fill fd answer = (fd, l, some what) ∧
      ((∀ n got, answer n = some got → got.length ≤ n) → what = .read) := by
  unfold fill
  dsimp only
  cases hanswer : answer (min FileDescriptor.bufferSize l.stream.remainingCapacity) with
  | none => exact Or.inr ⟨.read, rfl, fun _ => rfl⟩
  | some got =>
      by_cases hmore : min FileDescriptor.bufferSize l.stream.remainingCapacity < got.length
      · right
        unfold FileDescriptor.read
        simp only [if_pos hmore]
        exact ⟨_, rfl, fun h => absurd (h _ got hanswer) (not_le.mpr hmore)⟩
      · left
        unfold FileDescriptor.read
        simp only [if_neg hmore]
        refine ⟨_, _, got, rfl, rfl, ⟨by omega, ?_, ?_, ?_, rfl, rfl, rfl, rfl⟩⟩
        all_goals
          split
          · rename_i hend
            simp [FileDescriptor.registerRead, hend]
          · rename_i hend
            simp [FileDescriptor.registerRead, hend]

/-- A write that returns. -/
structure Drained (l l' : Lane) (fd fd' : FileDescriptor) (taken : ℕ) : Prop where
  buffered : taken ≤ l.stream.buffer.length
  progress : l.stream.buffer ≠ [] → 0 < taken
  eof : fd'.eof = fd.eof
  closed : fd'.closed = fd.closed
  writeCount : fd'.writeCount = fd.writeCount + 1
  stream : l'.stream = l.stream.popOutput taken
  shutdown : l'.shutdown = l.shutdown
  read : l'.read = l.read
  written : l'.written = l.written ++ l.stream.buffer.take taken

/-- It returns, and then the end is reached or not, or nothing changes and what is thrown is an error
of the kernel, or a number that was not asked for. -/
theorem drain_cases (l : Lane) (fd : FileDescriptor) (answer : ℕ → Option ℕ)
    (finish : FileDescriptor → FileDescriptor × Option Exception) :
    (∃ fd' l' n m, answer m = some n ∧ Drained l l' fd fd' n ∧ l.drain fd answer finish =
      if l'.stream.eof then
        match finish fd' with
        | (fd, none) => (fd, { l' with shutdown := true }, none)
        | (fd, some what) => (fd, l', some what)
      else (fd', l', none)) ∨
    ∃ what, l.drain fd answer finish = (fd, l, some what) ∧
      ((∀ n k, answer n = some k → k ≤ n ∧ (0 < n → 0 < k)) →
        what = .write (.throws "writev")) := by
  have hlength : (l.stream.peekOutput (min maxCopyLength l.stream.bufferSize)).length =
      min maxCopyLength l.stream.buffer.length := by
    rw [ByteStream.peekOutput_eq, List.length_take, ByteStream.bufferSize]
    omega
  have hempty : l.stream.buffer ≠ [] → 0 < min maxCopyLength l.stream.buffer.length := fun h =>
    lt_min (by decide) (List.length_pos_iff.mpr h)
  unfold drain
  dsimp only
  generalize hbuffer : l.stream.peekOutput (min maxCopyLength l.stream.bufferSize) = buffer
  rw [hbuffer] at hlength
  have hbytes : BufferViewList.bytes [buffer] = buffer := List.append_nil buffer
  have hsize : BufferViewList.size [buffer] = buffer.length := by
    rw [BufferViewList.size_eq, hbytes]
  rcases fd.write_once [buffer] (answer buffer.length) with
    ⟨n, hle, hpos, hanswer, hwrite⟩ | ⟨what, hwrite, hconforms⟩
  · left
    rw [hsize, hlength] at hle
    rw [hsize, hlength] at hpos
    rw [hwrite, hbytes]
    refine ⟨fd.registerWrite, { l with
      stream := l.stream.popOutput n
      written := l.written ++ buffer.take n }, n, _, hanswer,
      ⟨by omega, fun h => ?_, rfl, rfl, rfl, rfl, rfl, rfl, ?_⟩, rfl⟩
    · exact hpos (hempty h).ne'
    · rw [← hbuffer, ByteStream.peekOutput_eq, List.take_take, ByteStream.bufferSize,
        min_eq_left hle]
  · right
    rw [hwrite]
    refine ⟨.write (.throws what), by simp, fun h => ?_⟩
    rw [hsize] at hconforms
    rw [hconforms fun k hk => ⟨(h _ k hk).1, fun hne => (h _ k hk).2 (Nat.pos_of_ne_zero hne)⟩]

def endInput (l : Lane) : Lane := { l with stream := l.stream.endInput }

/-- What makes a rule that writes from the stream interested. -/
def pending (l : Lane) : Bool := !l.stream.bufferEmpty || (l.stream.eof && !l.shutdown)

end Lane

/-- `socket.shutdown(SHUT_WR)`. -/
def shutdownWrite (returns : Bool) (fd : FileDescriptor) : FileDescriptor × Option Exception :=
  if returns then (fd.registerWrite, none) else (fd, some .shutdown)

/-- `_output.close()`. -/
def close (returns : Bool) (fd : FileDescriptor) : FileDescriptor × Option Exception :=
  if returns then (fd.close, none) else (fd, some .close)

/-- The four rules. -/
inductive RuleName
  | inputIn
  | socketOut
  | socketIn
  | outputOut
deriving DecidableEq, Repr

/-- Rule 1: read from stdin into outbound byte stream. -/
def readInput (kernel : Kernel) (s : StreamCopy) : StreamCopy × Option Exception :=
  let (input, outbound, error) := s.outbound.fill s.input kernel.inputRead
  ({ s with input := input, outbound := outbound }, error)

/-- Rule 2: read from outbound byte stream into socket. -/
def writeSocket (kernel : Kernel) (s : StreamCopy) : StreamCopy × Option Exception :=
  let (socket, outbound, error) :=
    s.outbound.drain s.socket kernel.socketWrite (shutdownWrite kernel.socketShutdown)
  ({ s with socket := socket, outbound := outbound }, error)

/-- Rule 3: read from socket into inbound byte stream. -/
def readSocket (kernel : Kernel) (s : StreamCopy) : StreamCopy × Option Exception :=
  let (socket, inbound, error) := s.inbound.fill s.socket kernel.socketRead
  ({ s with socket := socket, inbound := inbound }, error)

/-- Rule 4: read from inbound byte stream into stdout. -/
def writeOutput (kernel : Kernel) (s : StreamCopy) : StreamCopy × Option Exception :=
  let (output, inbound, error) :=
    s.inbound.drain s.output kernel.outputWrite (close kernel.outputClose)
  ({ s with output := output, inbound := inbound }, error)

def rule : RuleName → EventLoop.Rule StreamCopy Kernel Exception
  | .inputIn =>
      { fd := input
        direction := .dirIn
        callback := readInput
        interest := fun s => !s.outbound.stream.error &&
          decide (0 < s.outbound.stream.remainingCapacity) && !s.inbound.stream.error
        cancel := fun s => { s with outbound := s.outbound.endInput } }
  | .socketOut =>
      { fd := socket
        direction := .dirOut
        callback := writeSocket
        interest := fun s => s.outbound.pending
        cancel := fun s => { s with outbound := s.outbound.endInput } }
  | .socketIn =>
      { fd := socket
        direction := .dirIn
        callback := readSocket
        interest := fun s => !s.inbound.stream.error &&
          decide (0 < s.inbound.stream.remainingCapacity) && !s.outbound.stream.error
        cancel := fun s => { s with inbound := s.inbound.endInput } }
  | .outputOut =>
      { fd := output
        direction := .dirOut
        callback := writeOutput
        interest := fun s => s.inbound.pending
        cancel := fun s => { s with inbound := s.inbound.endInput } }

/-- The rules in the order in which they are added. -/
def ruleNames : List RuleName := [.inputIn, .socketOut, .socketIn, .outputOut]

end StreamCopy

/-- The loop until completion, after it, or left by an exception. -/
inductive BidirectionalStreamCopy.Phase
  | copying
  | returned
  | threw (error : EventLoop.Error StreamCopy.Exception)
deriving DecidableEq, Repr

/-- `bidirectional_stream_copy`. -/
structure BidirectionalStreamCopy where
  eventloop : EventLoop.Loop StreamCopy.RuleName StreamCopy
  phase : BidirectionalStreamCopy.Phase := .copying

namespace BidirectionalStreamCopy

open StreamCopy (RuleName Kernel)

/-- Up to its loop. -/
def start (socket : FileDescriptor) : BidirectionalStreamCopy :=
  { eventloop := ⟨StreamCopy.ruleNames, { socket := socket }, []⟩ }

/-- One turn of its loop. -/
def step (c : BidirectionalStreamCopy) (answer : EventLoop.Poll RuleName Kernel) :
    BidirectionalStreamCopy :=
  match c.phase with
  | .copying =>
      match EventLoop.waitNextEvent StreamCopy.rule c.eventloop answer with
      | (l, .throws error) => ⟨l, .threw error⟩
      | (l, .exit) => ⟨l, .returned⟩
      | (l, _) => ⟨l, .copying⟩
  | .returned | .threw _ => c

end BidirectionalStreamCopy

end CourseNet
