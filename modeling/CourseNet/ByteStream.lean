import Mathlib.Algebra.Order.Ring.Nat
import Mathlib.Data.List.Infix
import Mathlib.Tactic.Common

/-!
# The bounded byte stream

`ByteStream` of `byte_stream.cc`: a FIFO of bytes with a capacity, an end-of-input flag and an error
flag.  The record carries its two accounting facts, so the buffer never outgrows the capacity and
`_bytes_written` is `_bytes_read` plus what is buffered in every value that can be built.
-/

namespace CourseNet

/-- `std::string` as a list of bytes. -/
abbrev Bytes := List UInt8

/-- A bounded FIFO of bytes. -/
structure ByteStream where
  buffer : Bytes
  capacity : ℕ
  inputEnded : Bool
  error : Bool
  bytesWritten : ℕ
  bytesRead : ℕ
  buffer_le : buffer.length ≤ capacity
  accounting : bytesWritten = bytesRead + buffer.length

namespace ByteStream

/-- The constructor. -/
def new (capacity : ℕ) : ByteStream :=
  ⟨[], capacity, false, false, 0, 0, Nat.zero_le _, rfl⟩

def bufferSize (s : ByteStream) : ℕ := s.buffer.length

def bufferEmpty (s : ByteStream) : Bool := s.buffer.isEmpty

/-- The input has ended and everything was read. -/
def eof (s : ByteStream) : Bool := s.inputEnded && s.bufferEmpty

def remainingCapacity (s : ByteStream) : ℕ := s.capacity - s.buffer.length

/-- Append as much of `data` as fits; the second component is the number of bytes accepted. -/
def write (s : ByteStream) (data : Bytes) : ByteStream × ℕ :=
  if s.inputEnded || s.error then (s, 0)
  else
    let bytesToWrite := min data.length s.remainingCapacity
    ({ s with
        buffer := s.buffer ++ data.take bytesToWrite
        bytesWritten := s.bytesWritten + bytesToWrite
        buffer_le := by
          have := s.buffer_le
          simp only [List.length_append, List.length_take, bytesToWrite, remainingCapacity]
          omega
        accounting := by
          have := s.accounting
          simp only [List.length_append, List.length_take, bytesToWrite]
          omega }, bytesToWrite)

/-- The first `len` buffered bytes. -/
def peekOutput (s : ByteStream) (len : ℕ) : Bytes := s.buffer.take (min len s.bufferSize)

/-- Drop the first `len` buffered bytes. -/
def popOutput (s : ByteStream) (len : ℕ) : ByteStream :=
  let bytesToPop := min len s.bufferSize
  { s with
      buffer := s.buffer.drop bytesToPop
      bytesRead := s.bytesRead + bytesToPop
      buffer_le := by
        have := s.buffer_le
        rw [List.length_drop]
        omega
      accounting := by
        have := s.accounting
        simp only [List.length_drop, bytesToPop, bufferSize]
        omega }

/-- Copy and then pop. -/
def read (s : ByteStream) (len : ℕ) : Bytes × ByteStream := (s.peekOutput len, s.popOutput len)

def endInput (s : ByteStream) : ByteStream := { s with inputEnded := true }

def setError (s : ByteStream) : ByteStream := { s with error := true }

/-! ### What a write changes -/

/-- The number of bytes a write accepts. -/
theorem write_snd (s : ByteStream) (d : Bytes) :
    (s.write d).2 = if s.inputEnded || s.error then 0 else min d.length s.remainingCapacity := by
  unfold write
  split <;> rfl

theorem write_snd_le_length (s : ByteStream) (d : Bytes) : (s.write d).2 ≤ d.length := by
  rw [write_snd]
  split <;> omega

@[simp] theorem write_buffer (s : ByteStream) (d : Bytes) :
    (s.write d).1.buffer = s.buffer ++ d.take (s.write d).2 := by
  unfold write
  split
  · simp
  · rfl

@[simp] theorem write_bytesWritten (s : ByteStream) (d : Bytes) :
    (s.write d).1.bytesWritten = s.bytesWritten + (s.write d).2 := by
  unfold write
  split <;> rfl

@[simp] theorem write_bytesRead (s : ByteStream) (d : Bytes) :
    (s.write d).1.bytesRead = s.bytesRead := by
  unfold write
  split <;> rfl

@[simp] theorem write_capacity (s : ByteStream) (d : Bytes) :
    (s.write d).1.capacity = s.capacity := by
  unfold write
  split <;> rfl

@[simp] theorem write_inputEnded (s : ByteStream) (d : Bytes) :
    (s.write d).1.inputEnded = s.inputEnded := by
  unfold write
  split <;> rfl

@[simp] theorem write_error (s : ByteStream) (d : Bytes) : (s.write d).1.error = s.error := by
  unfold write
  split <;> rfl

theorem write_snd_of_ended {s : ByteStream} (h : s.inputEnded = true) (d : Bytes) :
    (s.write d).2 = 0 := by
  rw [write_snd, h]
  rfl

theorem write_eq_self_of_ended {s : ByteStream} (h : s.inputEnded = true) (d : Bytes) :
    s.write d = (s, 0) := by
  unfold write
  rw [h]
  rfl

/-- An open stream with room accepts something. -/
theorem write_snd_pos {s : ByteStream} (hended : s.inputEnded = false) (herror : s.error = false)
    (hroom : 0 < s.remainingCapacity) {d : Bytes} (hd : d ≠ []) : 0 < (s.write d).2 := by
  rw [write_snd, hended, herror]
  exact lt_min (List.length_pos_iff.mpr hd) hroom

/-! ### What a read changes -/

theorem peekOutput_eq (s : ByteStream) (n : ℕ) : s.peekOutput n = s.buffer.take n := by
  rw [peekOutput, bufferSize, ← List.take_eq_take_min]

@[simp] theorem popOutput_buffer (s : ByteStream) (n : ℕ) :
    (s.popOutput n).buffer = s.buffer.drop n := by
  show s.buffer.drop (min n s.bufferSize) = _
  rcases Nat.le_total n s.buffer.length with h | h
  · rw [bufferSize, min_eq_left h]
  · rw [bufferSize, min_eq_right h, List.drop_length, List.drop_eq_nil_of_le h]

@[simp] theorem popOutput_bytesRead (s : ByteStream) (n : ℕ) :
    (s.popOutput n).bytesRead = s.bytesRead + min n s.buffer.length := rfl

@[simp] theorem popOutput_bytesWritten (s : ByteStream) (n : ℕ) :
    (s.popOutput n).bytesWritten = s.bytesWritten := rfl

@[simp] theorem popOutput_capacity (s : ByteStream) (n : ℕ) :
    (s.popOutput n).capacity = s.capacity := rfl

@[simp] theorem popOutput_inputEnded (s : ByteStream) (n : ℕ) :
    (s.popOutput n).inputEnded = s.inputEnded := rfl

@[simp] theorem popOutput_error (s : ByteStream) (n : ℕ) : (s.popOutput n).error = s.error := rfl

theorem eof_iff {s : ByteStream} : s.eof = true ↔ s.inputEnded = true ∧ s.buffer = [] := by
  simp [eof, bufferEmpty]

/-- At end of file everything written has been read. -/
theorem bytesRead_of_buffer_nil {s : ByteStream} (h : s.buffer = []) :
    s.bytesRead = s.bytesWritten := by
  have := s.accounting
  rw [h] at this
  exact this.symm

/-! ### The written bytes -/

/-- `popped` are the bytes the reader took; together with the buffer they are all bytes ever
written. -/
def Wrote (s : ByteStream) (popped all : Bytes) : Prop :=
  popped ++ s.buffer = all ∧ popped.length = s.bytesRead

theorem Wrote.length {s : ByteStream} {popped all : Bytes} (h : s.Wrote popped all) :
    all.length = s.bytesWritten := by
  rw [← h.1, List.length_append, h.2, s.accounting]

theorem Wrote.write {s : ByteStream} {popped all : Bytes} (h : s.Wrote popped all) (d : Bytes) :
    (s.write d).1.Wrote popped (all ++ d.take (s.write d).2) := by
  refine ⟨?_, by rw [write_bytesRead, h.2]⟩
  rw [write_buffer, ← List.append_assoc, h.1]

theorem Wrote.read {s : ByteStream} {popped all : Bytes} (h : s.Wrote popped all) (n : ℕ) :
    (s.popOutput n).Wrote (popped ++ s.peekOutput n) all := by
  refine ⟨?_, ?_⟩
  · rw [popOutput_buffer, peekOutput_eq, List.append_assoc, List.take_append_drop, h.1]
  · rw [List.length_append, peekOutput_eq, List.length_take, popOutput_bytesRead, h.2]

/-! ### What a stream never takes back -/

/-- The counters of `t` are past those of `s`, and an end stays. -/
structure Grows (s t : ByteStream) : Prop where
  capacity : t.capacity = s.capacity
  bytesWritten : s.bytesWritten ≤ t.bytesWritten
  bytesRead : s.bytesRead ≤ t.bytesRead
  ended : s.inputEnded = true → t.inputEnded = true

theorem Grows.refl (s : ByteStream) : s.Grows s := ⟨rfl, le_refl _, le_refl _, id⟩

theorem Grows.trans {s t u : ByteStream} (h : s.Grows t) (k : t.Grows u) : s.Grows u :=
  ⟨k.capacity.trans h.capacity, h.bytesWritten.trans k.bytesWritten,
    h.bytesRead.trans k.bytesRead, fun hs => k.ended (h.ended hs)⟩

theorem grows_write (s : ByteStream) (d : Bytes) : s.Grows (s.write d).1 := by
  constructor <;> simp

theorem grows_popOutput (s : ByteStream) (n : ℕ) : s.Grows (s.popOutput n) := by
  constructor <;> simp

theorem grows_endInput (s : ByteStream) : s.Grows s.endInput :=
  ⟨rfl, le_refl _, le_refl _, fun _ => rfl⟩

theorem grows_setError (s : ByteStream) : s.Grows s.setError := ⟨rfl, le_refl _, le_refl _, id⟩

end ByteStream

end CourseNet
