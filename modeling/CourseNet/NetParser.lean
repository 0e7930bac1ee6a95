import CourseNet.BigEndian
import CourseNet.ByteStream

/-!
# Parsing and unparsing network bytes

`NetParser`, `NetUnparser` and the buffers of `parser.cc` and `buffer.cc`.  A parser keeps the bytes
not yet read and the result so far; a read that finds too few bytes sets the error, and after an
error every read returns zero and consumes nothing.
-/

namespace CourseNet

/-- `ParseResult`. -/
inductive ParseResult
  | noError | badChecksum | packetTooShort | wrongIPVersion | headerTooShort | truncatedPacket
  | unsupported
deriving DecidableEq, Repr

/-- `BufferList`: the buffers of a packet in order.  The bytes of a `Buffer` are all that is
read. -/
abbrev BufferList := List Bytes

namespace BufferList

def size (b : BufferList) : ℕ := (b.map List.length).sum

def concatenate (b : BufferList) : Bytes := b.flatten

/-- `operator Buffer()`; more than one buffer makes it throw. -/
def toBuffer : BufferList → Option Bytes
  | [] => some []
  | [buffer] => some buffer
  | _ => none

end BufferList

/-- `string::resize`: cut off, or filled up with zeros. -/
def resize (s : Bytes) (n : ℕ) : Bytes := s.take n ++ List.replicate (n - s.length) 0

structure NetParser where
  buffer : Bytes
  error : ParseResult := .noError
deriving DecidableEq, Repr

namespace NetParser

/-- `_check_size`. -/
def checkSize (p : NetParser) (size : ℕ) : NetParser :=
  if p.buffer.length < size then { p with error := .packetTooShort } else p

/-- `_parse_int` for a type of `len` bytes. -/
def parseInt (len : ℕ) (p : NetParser) : ℕ × NetParser :=
  let p := p.checkSize len
  if p.error ≠ .noError then (0, p)
  else (BigEndian.toNat (p.buffer.take len), { p with buffer := p.buffer.drop len })

def u32 (p : NetParser) : UInt32 × NetParser :=
  (UInt32.ofNat (p.parseInt 4).1, (p.parseInt 4).2)

def u16 (p : NetParser) : UInt16 × NetParser :=
  (UInt16.ofNat (p.parseInt 2).1, (p.parseInt 2).2)

def u8 (p : NetParser) : UInt8 × NetParser :=
  (UInt8.ofNat (p.parseInt 1).1, (p.parseInt 1).2)

/-- `remove_prefix`. -/
def removePrefix (p : NetParser) (n : ℕ) : NetParser :=
  let p := p.checkSize n
  if p.error ≠ .noError then p else { p with buffer := p.buffer.drop n }

/-! ### Running out of bytes -/

/-- The next `n` bytes cannot be read. -/
def Starved (n : ℕ) (p : NetParser) : Prop := p.error ≠ .noError ∨ p.buffer.length < n

theorem Starved.parseInt {n len : ℕ} {p : NetParser} (h : p.Starved (n + len)) :
    (p.parseInt len).2.Starved n := by
  unfold NetParser.parseInt checkSize
  by_cases hshort : p.buffer.length < len
  · rw [if_pos hshort]
    exact Or.inl (show ParseResult.packetTooShort ≠ .noError from by decide)
  · rw [if_neg hshort]
    by_cases herror : p.error ≠ .noError
    · exact (if_pos herror).symm ▸ Or.inl herror
    · have hlen := h.resolve_left herror
      simp only [if_neg herror]
      refine Or.inr ?_
      rw [List.length_drop]
      omega

section

variable {n : ℕ} {p : NetParser}

theorem Starved.u32 (h : p.Starved (n + 4)) : ∃ v q, p.u32 = (v, q) ∧ q.Starved n :=
  ⟨_, _, rfl, h.parseInt⟩

theorem Starved.u16 (h : p.Starved (n + 2)) : ∃ v q, p.u16 = (v, q) ∧ q.Starved n :=
  ⟨_, _, rfl, h.parseInt⟩

theorem Starved.u8 (h : p.Starved (n + 1)) : ∃ v q, p.u8 = (v, q) ∧ q.Starved n :=
  ⟨_, _, rfl, h.parseInt⟩

end

/-- An error stays. -/
theorem error_removePrefix {p : NetParser} (h : p.error ≠ .noError) (n : ℕ) :
    (p.removePrefix n).error ≠ .noError := by
  have hcheck : (p.checkSize n).error ≠ .noError := by
    unfold checkSize
    split
    · exact show ParseResult.packetTooShort ≠ .noError from by decide
    · exact h
  unfold removePrefix
  simpa only [if_pos hcheck] using hcheck

/-! ### Reading from enough bytes -/

section

variable {buffer : Bytes}

theorem parseInt_eq {len : ℕ} (h : len ≤ buffer.length) :
    parseInt len ⟨buffer, .noError⟩ =
      (BigEndian.toNat (buffer.take len), ⟨buffer.drop len, .noError⟩) := by
  rw [parseInt, checkSize, if_neg (not_lt.mpr h)]
  rfl

theorem removePrefix_eq {n : ℕ} (h : n ≤ buffer.length) :
    removePrefix ⟨buffer, .noError⟩ n = ⟨buffer.drop n, .noError⟩ := by
  rw [removePrefix, checkSize, if_neg (not_lt.mpr h)]
  rfl

theorem removePrefix_short {n : ℕ} (h : buffer.length < n) :
    removePrefix ⟨buffer, .noError⟩ n = ⟨buffer, .packetTooShort⟩ := by
  rw [removePrefix, checkSize, if_pos h]
  rfl

/-! A read at an offset of the whole packet. -/

variable {n : ℕ}

theorem u8_drop (h : n + 1 ≤ buffer.length) :
    u8 ⟨buffer.drop n, .noError⟩ = (buffer.getD n 0, ⟨buffer.drop (n + 1), .noError⟩) := by
  have hget : buffer.getD n 0 = buffer[n] := by
    rw [List.getD_eq_getElem?_getD, List.getElem?_eq_getElem h, Option.getD_some]
  rw [u8, parseInt_eq (by rw [List.length_drop]; omega), List.drop_drop,
    List.drop_eq_getElem_cons h, hget, List.take_succ_cons, List.take_zero]
  show (UInt8.ofNat (0 * 256 + buffer[n].toNat), _) = _
  rw [Nat.zero_mul, Nat.zero_add, UInt8.ofNat_toNat]

theorem u16_drop (h : n + 2 ≤ buffer.length) :
    u16 ⟨buffer.drop n, .noError⟩ =
      (UInt16.ofNat (BigEndian.toNat ((buffer.drop n).take 2)),
        ⟨buffer.drop (n + 2), .noError⟩) := by
  rw [u16, parseInt_eq (by rw [List.length_drop]; omega), List.drop_drop]

theorem u32_drop (h : n + 4 ≤ buffer.length) :
    u32 ⟨buffer.drop n, .noError⟩ =
      (UInt32.ofNat (BigEndian.toNat ((buffer.drop n).take 4)),
        ⟨buffer.drop (n + 4), .noError⟩) := by
  rw [u32, parseInt_eq (by rw [List.length_drop]; omega), List.drop_drop]

/-- What was written in front is read back. -/
theorem parseInt_append (len v : ℕ) (rest : Bytes) :
    parseInt len ⟨BigEndian.ofNat len v ++ rest, .noError⟩ = (v % 256 ^ len, ⟨rest, .noError⟩) := by
  have hlen := BigEndian.length_ofNat len v
  rw [parseInt_eq (by rw [List.length_append]; omega), List.take_left' hlen, List.drop_left' hlen,
    BigEndian.toNat_ofNat]

end

end NetParser

/-! ### Unparsing -/

namespace NetUnparser

/-- The bytes `u32` appends. -/
def u32 (v : UInt32) : Bytes := BigEndian.ofNat 4 v.toNat

/-- The bytes `u16` appends. -/
def u16 (v : UInt16) : Bytes := BigEndian.ofNat 2 v.toNat

/-- The byte `u8` appends. -/
def u8 (v : UInt8) : Bytes := BigEndian.ofNat 1 v.toNat

@[simp] theorem length_u32 (v : UInt32) : (u32 v).length = 4 := BigEndian.length_ofNat _ _

@[simp] theorem length_u16 (v : UInt16) : (u16 v).length = 2 := BigEndian.length_ofNat _ _

@[simp] theorem length_u8 (v : UInt8) : (u8 v).length = 1 := BigEndian.length_ofNat _ _

theorem u8_eq (v : UInt8) : u8 v = [v] := by
  rw [u8, BigEndian.ofNat_succ, Nat.zero_mul, Nat.shiftRight_zero, UInt8.ofNat_toNat]
  rfl

end NetUnparser

namespace NetParser

variable (rest : Bytes)

@[simp] theorem u32_u32 (v : UInt32) :
    u32 ⟨NetUnparser.u32 v ++ rest, .noError⟩ = (v, ⟨rest, .noError⟩) := by
  have hv : UInt32.ofNat (v.toNat % 256 ^ 4) = v := by
    rw [Nat.mod_eq_of_lt (show v.toNat < 256 ^ 4 from v.toNat_lt), UInt32.ofNat_toNat]
  rw [u32, NetUnparser.u32, parseInt_append, hv]

@[simp] theorem u16_u16 (v : UInt16) :
    u16 ⟨NetUnparser.u16 v ++ rest, .noError⟩ = (v, ⟨rest, .noError⟩) := by
  have hv : UInt16.ofNat (v.toNat % 256 ^ 2) = v := by
    rw [Nat.mod_eq_of_lt (show v.toNat < 256 ^ 2 from v.toNat_lt), UInt16.ofNat_toNat]
  rw [u16, NetUnparser.u16, parseInt_append, hv]

@[simp] theorem u8_u8 (v : UInt8) :
    u8 ⟨NetUnparser.u8 v ++ rest, .noError⟩ = (v, ⟨rest, .noError⟩) := by
  have hv : UInt8.ofNat (v.toNat % 256 ^ 1) = v := by
    rw [Nat.mod_eq_of_lt (show v.toNat < 256 ^ 1 from v.toNat_lt), UInt8.ofNat_toNat]
  rw [u8, NetUnparser.u8, parseInt_append, hv]

end NetParser

end CourseNet
