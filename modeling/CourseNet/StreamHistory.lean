import CourseNet.ByteStream
import CourseNet.StepSystem

/-!
# The history of a byte stream

An observer of a `ByteStream` keeps the bytes that were popped or read, in order, and the part of
each written string that was accepted.  Whatever the calls, the bytes taken and the bytes still
buffered are the bytes accepted: the stream is a FIFO, bounded by its capacity.
-/

namespace CourseNet

namespace ByteStream

/-- The calls of the writer and of the reader. -/
inductive Op
  | write (data : Bytes)
  | peekOutput (len : ℕ)
  | popOutput (len : ℕ)
  | read (len : ℕ)
  | endInput
  | setError

def step (s : ByteStream) : Op → ByteStream
  | .write data => (s.write data).1
  | .peekOutput _ => s
  | .popOutput len => s.popOutput len
  | .read len => (s.read len).2
  | .endInput => s.endInput
  | .setError => s.setError

/-- The bytes that a call accepts. -/
def acceptedBy (s : ByteStream) : Op → Bytes
  | .write data => data.take (s.write data).2
  | _ => []

/-- The bytes that a call takes out of the buffer. -/
def takenBy (s : ByteStream) : Op → Bytes
  | .popOutput len => s.peekOutput len
  | .read len => (s.read len).1
  | _ => []

theorem grows_step (s : ByteStream) (op : Op) : s.Grows (s.step op) := by
  cases op with
  | write data => exact s.grows_write data
  | peekOutput len => exact Grows.refl s
  | popOutput len => exact s.grows_popOutput len
  | read len => exact s.grows_popOutput len
  | endInput => exact s.grows_endInput
  | setError => exact s.grows_setError

/-- Nothing is written to a stream at its end, and nothing is left to read. -/
theorem eof_step {s : ByteStream} (h : s.eof = true) (op : Op) : (s.step op).eof = true := by
  obtain ⟨hended, hbuffer⟩ := eof_iff.mp h
  refine eof_iff.mpr ⟨(s.grows_step op).ended hended, ?_⟩
  cases op with
  | write data =>
      show (s.write data).1.buffer = []
      rw [write_eq_self_of_ended hended]
      exact hbuffer
  | peekOutput len => exact hbuffer
  | popOutput len =>
      show (s.popOutput len).buffer = []
      rw [popOutput_buffer, hbuffer, List.drop_nil]
  | read len =>
      show (s.popOutput len).buffer = []
      rw [popOutput_buffer, hbuffer, List.drop_nil]
  | endInput => exact hbuffer
  | setError => exact hbuffer

end ByteStream

/-- A stream, the bytes taken from it and the bytes it accepted. -/
structure StreamHistory where
  stream : ByteStream
  taken : Bytes
  accepted : Bytes

namespace StreamHistory

open ByteStream

def new (capacity : ℕ) : StreamHistory := ⟨ByteStream.new capacity, [], []⟩

def step (h : StreamHistory) (op : Op) : StreamHistory :=
  ⟨h.stream.step op, h.taken ++ h.stream.takenBy op, h.accepted ++ h.stream.acceptedBy op⟩

@[simp] theorem step_stream (h : StreamHistory) (op : Op) :
    (h.step op).stream = h.stream.step op := rfl

abbrev run (h : StreamHistory) (ops : List Op) : StreamHistory := StepSystem.run step h ops

/-- What is taken and what is buffered is what was accepted. -/
def Balanced (h : StreamHistory) : Prop := h.stream.Wrote h.taken h.accepted

theorem Balanced.new (capacity : ℕ) : (StreamHistory.new capacity).Balanced := ⟨rfl, rfl⟩

theorem Balanced.step {h : StreamHistory} (hb : h.Balanced) (op : Op) : (h.step op).Balanced := by
  have hnothing : ∀ {s : ByteStream}, s.buffer = h.stream.buffer →
      s.bytesRead = h.stream.bytesRead →
      s.Wrote (h.taken ++ []) (h.accepted ++ []) := by
    intro s hbuffer hread
    rw [List.append_nil, List.append_nil]
    exact ⟨by rw [hbuffer, hb.1], by rw [hread, hb.2]⟩
  have htakes : ∀ len, (h.stream.popOutput len).Wrote (h.taken ++ h.stream.peekOutput len)
      (h.accepted ++ []) := by
    intro len
    rw [List.append_nil]
    exact hb.read len
  cases op with
  | write data =>
      show (h.stream.write data).1.Wrote (h.taken ++ []) _
      rw [List.append_nil]
      exact hb.write data
  | peekOutput len => exact hnothing rfl rfl
  | popOutput len => exact htakes len
  | read len => exact htakes len
  | endInput => exact hnothing rfl rfl
  | setError => exact hnothing rfl rfl

/-- The capacity stays, and the flags tell which calls were made. -/
theorem run_flags (capacity : ℕ) (ops : List Op) :
    let s := ((new capacity).run ops).stream
    s.capacity = capacity ∧ (s.inputEnded = true ↔ Op.endInput ∈ ops) ∧
      (s.error = true ↔ Op.setError ∈ ops) := by
  induction ops using List.reverseRecOn with
  | nil => simp [StreamHistory.new, ByteStream.new]
  | append_singleton ops op ih =>
      obtain ⟨hcapacity, hended, herror⟩ := ih
      rw [run, StepSystem.run_snoc, step_stream]
      cases op <;>
        simp [ByteStream.step, ByteStream.read, endInput, setError, hcapacity, hended, herror]

/-- **A bounded FIFO with exact accounting.**  After any calls with any arguments on a stream of any
capacity: the bytes popped or read, followed by the buffer, are the accepted prefixes of the writes;
the buffer is within the capacity; the counters count these bytes and differ by the buffer's size; a
write accepts what fits, or nothing once the input has ended or failed; and an end of file is for
ever. -/
theorem bounded_fifo (capacity : ℕ) (ops : List Op) :
    let h := (new capacity).run ops
    h.taken ++ h.stream.buffer = h.accepted ∧
    (h.stream.bufferSize ≤ capacity ∧
      h.stream.remainingCapacity + h.stream.bufferSize = capacity) ∧
    (h.stream.bytesWritten = h.stream.bytesRead + h.stream.bufferSize ∧
      h.stream.bytesWritten = h.accepted.length ∧ h.stream.bytesRead = h.taken.length) ∧
    (∀ data, (h.stream.write data).2 =
      if h.stream.inputEnded || h.stream.error then 0
      else min data.length h.stream.remainingCapacity) ∧
    ((h.stream.inputEnded = true ↔ Op.endInput ∈ ops) ∧
      (h.stream.error = true ↔ Op.setError ∈ ops)) ∧
    (h.stream.eof = true → ∀ more, (h.run more).stream.eof = true) := by
  intro h
  obtain ⟨hcapacity, hflags⟩ := run_flags capacity ops
  have hbalanced : h.Balanced :=
    StepSystem.run_invariant (P := Balanced) (fun _ op hb => hb.step op) ops
      (Balanced.new capacity)
  have hsize : h.stream.bufferSize ≤ capacity := hcapacity ▸ h.stream.buffer_le
  refine ⟨hbalanced.1, ⟨hsize, ?_⟩,
    ⟨h.stream.accounting, hbalanced.length.symm, hbalanced.2.symm⟩, h.stream.write_snd, hflags,
    fun heof more => ?_⟩
  · show h.stream.capacity - h.stream.bufferSize + h.stream.bufferSize = capacity
    rw [hcapacity]
    exact Nat.sub_add_cancel hsize
  · exact StepSystem.run_invariant (P := fun h : StreamHistory => h.stream.eof = true)
      (fun _ op heof => eof_step heof op) more heof

end StreamHistory

end CourseNet
