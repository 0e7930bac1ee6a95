import CourseNet.ByteStream
import CourseNet.SortedMap

/-!
# The stream reassembler

`StreamReassembler::push_substring` of `stream_reassembler.cc`, cut into the phases its comments
describe: the new start of the substring (`newStart`), the loop that trims it against its successors
(`trimLoop`), the window check, the direct write or store (`storeOrWrite`), the assembly loop
(`assembleLoop`) and the end-of-file test.

Indices arrive from the network as arbitrary 64-bit values, so every sum and difference of indices
is reduced modulo `2 ^ 64` as `size_t` arithmetic does.  The default build defines `NDEBUG`:
`pushSubstring` is the state that build leaves, and `pushOutcome` tells whether an `assert` would
have failed in the assembly loop or `substr` threw.
-/

namespace CourseNet

/-- Conversion from `size_t` to `ssize_t`. -/
def ssize (n : ℕ) : ℤ := if n < 2 ^ 63 then n else (n : ℤ) - 2 ^ 64

/-- How a call of `push_substring` ends.  After a failed `assert` the default build goes on. -/
inductive PushOutcome
  | returns
  | assertFails
  | throws
deriving DecidableEq, Repr

structure StreamReassembler where
  unassembleStrs : SortedMap ℕ Bytes
  nextAssembledIdx : ℕ
  unassembledBytesNum : ℕ
  eofIdx : ℕ
  output : ByteStream
  capacity : ℕ

namespace StreamReassembler

/-- The constructor; `_eof_idx(-1)` is the largest `size_t`. -/
def new (capacity : ℕ) : StreamReassembler :=
  ⟨SortedMap.empty, 0, 0, 2 ^ 64 - 1, ByteStream.new capacity, capacity⟩

/-- Where the part of the substring that is not yet known begins.  The iterator after
`upper_bound(index)` and the step back is at or below `index` exactly if `floor?` finds an entry. -/
def newStart (r : StreamReassembler) (index : ℕ) : ℕ :=
  match r.unassembleStrs.floor? index with
  | some (upIdx, up) =>
      let upEnd := (upIdx + up.length) % 2 ^ 64
      if index < upEnd then upEnd else index
  | none => if index < r.nextAssembledIdx then r.nextAssembledIdx else index

/-- What the successor loop changes. -/
structure Trim where
  strs : SortedMap ℕ Bytes
  dataSize : ℤ
  bytesNum : ℕ

/-- The loop over the entries from `lower_bound(new_idx)` on: covered entries are erased, a partly
covered one cuts the substring short. -/
def trimLoop (newIdx : ℕ) : List (ℕ × Bytes) → Trim → Trim
  | [], t => t
  | (downIdx, down) :: rest, t =>
      if newIdx ≤ downIdx then
        let dataEndPos := ((newIdx + t.dataSize) % 2 ^ 64).toNat
        if downIdx < dataEndPos then
          if dataEndPos < (downIdx + down.length) % 2 ^ 64 then
            { t with dataSize := ssize (downIdx - newIdx) }
          else
            trimLoop newIdx rest
              { t with strs := t.strs.erase downIdx, bytesNum := t.bytesNum - down.length }
        else t
      else t

/-- The first index past the window; `_next_assembled_idx + _capacity` may wrap. -/
def firstUnacceptableIdx (r : StreamReassembler) : ℕ :=
  (r.nextAssembledIdx + r.capacity - r.output.bufferSize) % 2 ^ 64

/-- Write the trimmed substring if it is next, else store it; what a full output rejects is
stored too. -/
def storeOrWrite (r : StreamReassembler) (newIdx : ℕ) (newData : Bytes) : StreamReassembler :=
  if newIdx = r.nextAssembledIdx then
    let (output, writeByte) := r.output.write newData
    let next := r.nextAssembledIdx + writeByte
    if writeByte < newData.length then
      { r with
          output := output
          nextAssembledIdx := next
          unassembledBytesNum := r.unassembledBytesNum + (newData.length - writeByte)
          unassembleStrs := r.unassembleStrs.insertNew next (newData.drop writeByte) }
    else { r with output := output, nextAssembledIdx := next }
  else
    { r with
        unassembledBytesNum := r.unassembledBytesNum + newData.length
        unassembleStrs := r.unassembleStrs.insertNew newIdx newData }

/-- The assembly loop; the list is the iterator, a suffix of the map.  The second component tells
whether the `assert` held. -/
def assembleLoop : List (ℕ × Bytes) → StreamReassembler → StreamReassembler × Bool
  | [], r => (r, true)
  | (idx, str) :: rest, r =>
      let held := decide (r.nextAssembledIdx ≤ idx)
      if idx = r.nextAssembledIdx then
        let (output, writeNum) := r.output.write str
        let next := r.nextAssembledIdx + writeNum
        if writeNum < str.length then
          -- `insert` comes first and keeps a key already present: with nothing written the
          -- remainder is inserted under the key that the `erase` below removes
          ({ r with
              output := output
              nextAssembledIdx := next
              unassembledBytesNum :=
                r.unassembledBytesNum + (str.length - writeNum) - str.length
              unassembleStrs :=
                (r.unassembleStrs.insertNew next (str.drop writeNum)).erase idx }, held)
        else
          let (r', held') := assembleLoop rest
            { r with
                output := output
                nextAssembledIdx := next
                unassembledBytesNum := r.unassembledBytesNum - str.length
                unassembleStrs := r.unassembleStrs.erase idx }
          (r', held && held')
      else (r, held)

/-- The end-of-file test that ends every call which reaches it. -/
def noteEof (r : StreamReassembler) (data : Bytes) (index : ℕ) (eof : Bool) : StreamReassembler :=
  let eofIdx := if eof then (index + data.length) % 2 ^ 64 else r.eofIdx
  { r with
      eofIdx := eofIdx
      output := if eofIdx ≤ r.nextAssembledIdx then r.output.endInput else r.output }

/-- The first two phases: the new start, and the trimming against the successors. -/
def trim (r : StreamReassembler) (data : Bytes) (index : ℕ) : Trim :=
  let newIdx := r.newStart index
  trimLoop newIdx (r.unassembleStrs.lowerBound newIdx)
    ⟨r.unassembleStrs, ssize ((data.length + 2 ^ 64 - (newIdx - index)) % 2 ^ 64),
      r.unassembledBytesNum⟩

/-- The state after trimming: covered entries are gone. -/
def trimmed (r : StreamReassembler) (data : Bytes) (index : ℕ) : StreamReassembler :=
  { r with
      unassembleStrs := (r.trim data index).strs
      unassembledBytesNum := (r.trim data index).bytesNum }

/-- The part of `data` that survives the trimming. -/
def newData (r : StreamReassembler) (data : Bytes) (index : ℕ) : Bytes :=
  (data.drop (r.newStart index - index)).take (r.trim data index).dataSize.toNat

/-- The state before the assembly loop. -/
def stored (r : StreamReassembler) (data : Bytes) (index : ℕ) : StreamReassembler :=
  if 0 < (r.trim data index).dataSize then
    (r.trimmed data index).storeOrWrite (r.newStart index) (r.newData data index)
  else r.trimmed data index

/-- `push_substring`: the state it leaves and how it ends. -/
def pushChecked (r : StreamReassembler) (data : Bytes) (index : ℕ) (eof : Bool) :
    StreamReassembler × PushOutcome :=
  if r.firstUnacceptableIdx ≤ r.newStart index then (r.trimmed data index, .returns)
  else if 0 < (r.trim data index).dataSize ∧ data.length < r.newStart index - index then
    -- `data.substr(data_start_pos, data_size)` with a position past the end of `data`
    (r.trimmed data index, .throws)
  else
    let s := r.stored data index
    let a := assembleLoop s.unassembleStrs.entries s
    (a.1.noteEof data index eof, if a.2 then .returns else .assertFails)

def pushSubstring (r : StreamReassembler) (data : Bytes) (index : ℕ) (eof : Bool) :
    StreamReassembler := (r.pushChecked data index eof).1

def pushOutcome (r : StreamReassembler) (data : Bytes) (index : ℕ) (eof : Bool) : PushOutcome :=
  (r.pushChecked data index eof).2

/-- `stream_out().read(len)`. -/
def read (r : StreamReassembler) (len : ℕ) : Bytes × StreamReassembler :=
  (r.output.peekOutput len, { r with output := r.output.popOutput len })

def unassembledBytes (r : StreamReassembler) : ℕ := r.unassembledBytesNum

def empty (r : StreamReassembler) : Bool := r.unassembledBytesNum == 0

end StreamReassembler

end CourseNet
