import CourseNet.NetParser
import Mathlib.Algebra.BigOperators.Group.List.Basic

/-!
# Buffers and file descriptors

`Buffer`, `BufferList` and `BufferViewList` of `buffer.cc` discard bytes from the front, and
`FileDescriptor` of `file_descriptor.cc` reads and writes through them.  A system call is what the
kernel answers: the bytes a read returns, the number of bytes a write takes.  Whatever the answers,
what the kernel is handed is the buffer from its front, and a write of everything hands over
everything.
-/

namespace CourseNet

/-! ### Buffers -/

/-- `Buffer`: a shared string, and how many of its bytes were discarded. -/
structure Buffer where
  storage : Option Bytes
  startingOffset : ℕ
  offset_le : ∀ s ∈ storage, startingOffset ≤ s.length

namespace Buffer

def str (b : Buffer) : Bytes :=
  match b.storage with
  | none => []
  | some s => s.drop b.startingOffset

def size (b : Buffer) : ℕ := b.str.length

/-- The bytes after the offset are all that is left. -/
theorem size_eq {b : Buffer} {s : Bytes} (h : b.storage = some s) :
    b.size = s.length - b.startingOffset := by
  rw [size, str, h, List.length_drop]

/-- `remove_prefix`, or nothing if it throws.  The string is let go once it is used up. -/
def removePrefix (b : Buffer) (n : ℕ) : Option Buffer :=
  if h : b.size < n then none
  else
    match hs : b.storage with
    | none => some ⟨none, b.startingOffset + n, by simp⟩
    | some s =>
        if b.startingOffset + n = s.length then some ⟨none, b.startingOffset + n, by simp⟩
        else
          some ⟨some s, b.startingOffset + n, by
            have hle := b.offset_le s hs
            rw [size_eq hs] at h
            simpa using (by omega : b.startingOffset + n ≤ s.length)⟩

theorem removePrefix_eq_none_iff (b : Buffer) (n : ℕ) : b.removePrefix n = none ↔ b.size < n := by
  unfold removePrefix
  split
  · rename_i h
    exact iff_of_true rfl h
  · rename_i h
    refine iff_of_false ?_ h
    split
    · simp
    · split <;> simp

/-- What is left of the string. -/
theorem removePrefix_str {b b' : Buffer} {n : ℕ} (h : b.removePrefix n = some b') :
    b'.str = b.str.drop n := by
  unfold removePrefix at h
  split at h
  · cases h
  · split at h
    · rename_i hs
      cases h
      rw [str, str, hs, List.drop_nil]
    · rename_i s hs
      split at h
      · rename_i hall
        cases h
        simp only [str, hs, List.drop_drop, hall, List.drop_length]
      · cases h
        simp only [str, hs, List.drop_drop]

end Buffer

/-! ### Lists of buffers -/

/-- The loop of the two `remove_prefix` functions of a list: pop what is used up, cut the first one
that is not, or throw at the end of the list. -/
def discardFront {β : Type} (view : β → Bytes) (cut : ℕ → β → β) (n : ℕ) :
    List β → Option (List β)
  | [] => if n = 0 then some [] else none
  | b :: bs =>
      if n = 0 then some (b :: bs)
      else if n < (view b).length then some (cut n b :: bs)
      else discardFront view cut (n - (view b).length) bs

section DiscardFront

variable {β : Type} {view : β → Bytes} {cut : ℕ → β → β}

theorem discardFront_eq_none_iff (n : ℕ) (bs : List β) :
    discardFront view cut n bs = none ↔ (bs.flatMap view).length < n := by
  induction bs generalizing n with
  | nil =>
      rw [discardFront]
      split
      · rename_i h
        simp [h]
      · rename_i h
        exact iff_of_true rfl (Nat.pos_of_ne_zero h)
  | cons b bs ih =>
      rw [discardFront, List.flatMap_cons, List.length_append]
      split
      · rename_i h
        simp [h]
      · split
        · exact iff_of_false (by simp) (by omega)
        · rw [ih]
          omega

/-- The bytes that are left. -/
theorem discardFront_bytes
    (hcut : ∀ n b, n < (view b).length → view (cut n b) = (view b).drop n) {n : ℕ}
    {bs bs' : List β} (h : discardFront view cut n bs = some bs') :
    bs'.flatMap view = (bs.flatMap view).drop n := by
  induction bs generalizing n with
  | nil =>
      rw [discardFront] at h
      split at h
      · cases h
        rw [List.flatMap_nil, List.drop_nil]
      · cases h
  | cons b bs ih =>
      rw [discardFront] at h
      rw [List.flatMap_cons]
      split at h
      · rename_i hn
        cases h
        rw [hn, List.drop_zero, List.flatMap_cons]
      · split at h
        · rename_i hn
          cases h
          rw [List.flatMap_cons, hcut n b hn, List.drop_append_of_le_length hn.le]
        · rename_i hn
          rw [ih h, List.drop_append, List.drop_eq_nil_of_le (not_lt.mp hn), List.nil_append]

end DiscardFront

/-- `BufferList::remove_prefix`, or nothing if it throws.  The front buffer is cut only if it is
longer; what is left is told by `listRemovePrefix_spec`. -/
def Buffer.listRemovePrefix (n : ℕ) (bs : List Buffer) : Option (List Buffer) :=
  discardFront Buffer.str (fun n b => (b.removePrefix n).getD b) n bs

/-- `BufferViewList`: the strings it looks at, in order. -/
abbrev BufferViewList := List Bytes

namespace BufferViewList

def size (v : BufferViewList) : ℕ := (v.map List.length).sum

/-- `remove_prefix`, or nothing if it throws. -/
def removePrefix (v : BufferViewList) (n : ℕ) : Option BufferViewList :=
  discardFront id List.drop n v

/-- The bytes that the `iovec`s of `as_iovecs` name. -/
def bytes (v : BufferViewList) : Bytes := v.flatten

theorem size_eq (v : BufferViewList) : v.size = v.bytes.length := List.length_flatten.symm

theorem removePrefix_eq_none_iff (v : BufferViewList) (n : ℕ) :
    v.removePrefix n = none ↔ v.size < n := by
  rw [removePrefix, discardFront_eq_none_iff, size_eq, bytes, List.flatMap_id]

theorem removePrefix_bytes {v v' : BufferViewList} {n : ℕ} (h : v.removePrefix n = some v') :
    v'.bytes = v.bytes.drop n := by
  have hall := discardFront_bytes (fun n b _ => show List.drop n b = b.drop n from rfl) h
  rw [List.flatMap_id, List.flatMap_id] at hall
  exact hall

end BufferViewList

/-- A list of buffers loses exactly the bytes in front, and throws exactly if there are fewer. -/
theorem Buffer.listRemovePrefix_spec (n : ℕ) (bs : List Buffer) :
    (listRemovePrefix n bs = none ↔ BufferList.size (bs.map str) < n) ∧
      ∀ bs', listRemovePrefix n bs = some bs' →
        BufferList.concatenate (bs'.map str) = (BufferList.concatenate (bs.map str)).drop n := by
  have hflat : ∀ bs : List Buffer, BufferList.concatenate (bs.map str) = bs.flatMap str :=
    fun bs => (List.flatMap_def ..).symm
  have hsize : BufferList.size (bs.map str) = (bs.flatMap str).length := by
    rw [← hflat]
    exact List.length_flatten.symm
  refine ⟨by rw [listRemovePrefix, discardFront_eq_none_iff, hsize], fun bs' h => ?_⟩
  rw [hflat, hflat]
  refine discardFront_bytes (fun n b hn => ?_) h
  obtain ⟨b', hb'⟩ := Option.ne_none_iff_exists'.mp
    (mt (b.removePrefix_eq_none_iff n).mp (not_lt.mpr hn.le))
  rw [hb', Option.getD_some, removePrefix_str hb']

/-! ### File descriptors -/

/-- What the handles of a descriptor share (`FDWrapper`). -/
structure FileDescriptor where
  eof : Bool := false
  closed : Bool := false
  readCount : UInt32 := 0
  writeCount : UInt32 := 0
deriving DecidableEq, Repr

/-- How a write ends; `blocks` is a call the kernel has not let return yet. -/
inductive WriteOutcome
  | returns (totalBytesWritten : ℕ)
  | throws (what : String)
  | blocks
deriving DecidableEq, Repr

namespace FileDescriptor

/-- `BUFFER_SIZE`: the most that one read takes. -/
def bufferSize : ℕ := 1024 * 1024

def registerRead (fd : FileDescriptor) : FileDescriptor := { fd with readCount := fd.readCount + 1 }

def registerWrite (fd : FileDescriptor) : FileDescriptor :=
  { fd with writeCount := fd.writeCount + 1 }

/-- `read`, when the kernel returns the bytes `got`. -/
def read (fd : FileDescriptor) (limit : ℕ) (got : Bytes) : Except String (FileDescriptor × Bytes) :=
  let fd := if decide (0 < limit) && got.isEmpty then { fd with eof := true } else fd
  if min bufferSize limit < got.length then .error "read() read more than requested"
  else .ok (fd.registerRead, got)

/-- `close`. -/
def close (fd : FileDescriptor) : FileDescriptor := { fd with eof := true, closed := true }

/-- The loop of `write`.  `results` is what the calls of `writev` return, with nothing for an error;
the second component is what the kernel took. -/
def writeLoop (writeAll : Bool) :
    List (Option ℕ) → FileDescriptor → BufferViewList → ℕ → FileDescriptor × Bytes × WriteOutcome
  | [], fd, _, _ => (fd, [], .blocks)
  | none :: _, fd, _, _ => (fd, [], .throws "writev")
  | some bytesWritten :: results, fd, buffer, total =>
      if bytesWritten = 0 ∧ buffer.size ≠ 0 then
        (fd, [], .throws "write returned 0 given non-empty input buffer")
      else if buffer.size < bytesWritten then
        (fd, [], .throws "write wrote more than length of input buffer")
      else
        let fd := fd.registerWrite
        let taken := buffer.bytes.take bytesWritten
        match buffer.removePrefix bytesWritten with
        | none => (fd, taken, .throws "BufferListView::remove_prefix")
        | some buffer =>
            if writeAll && buffer.size != 0 then
              let (fd, more, outcome) := writeLoop writeAll results fd buffer (total + bytesWritten)
              (fd, taken ++ more, outcome)
            else (fd, taken, .returns (total + bytesWritten))

def write (fd : FileDescriptor) (buffer : BufferViewList) (writeAll : Bool)
    (results : List (Option ℕ)) : FileDescriptor × Bytes × WriteOutcome :=
  writeLoop writeAll results fd buffer 0

/-! ### What a write hands over -/

/-- What one call of the loop does with the bytes of the buffer. -/
structure Wrote (writeAll : Bool) (fd : FileDescriptor) (bytes : Bytes) (total : ℕ)
    (r : FileDescriptor × Bytes × WriteOutcome) : Prop where
  grows : r.2.1 <+: bytes
  flags : r.1.eof = fd.eof ∧ r.1.closed = fd.closed ∧ r.1.readCount = fd.readCount
  returned : ∀ n, r.2.2 = .returns n →
    n = total + r.2.1.length ∧ (writeAll = true → r.2.1 = bytes)

theorem writeLoop_wrote (writeAll : Bool) (results : List (Option ℕ)) (fd : FileDescriptor)
    (buffer : BufferViewList) (total : ℕ) :
    Wrote writeAll fd buffer.bytes total (writeLoop writeAll results fd buffer total) := by
  have hnothing : ∀ {outcome : WriteOutcome}, (∀ n, outcome ≠ .returns n) →
      Wrote writeAll fd buffer.bytes total (fd, [], outcome) := fun h =>
    ⟨List.nil_prefix, ⟨rfl, rfl, rfl⟩, fun n hn => absurd hn (h n)⟩
  induction results generalizing fd buffer total with
  | nil => exact hnothing (by simp)
  | cons result results ih =>
      cases result with
      | none => exact hnothing (by simp)
      | some bytesWritten =>
          rw [writeLoop]
          split
          · exact hnothing (by simp)
          · split
            · exact hnothing (by simp)
            · rename_i hle
              have htake : (buffer.bytes.take bytesWritten).length = bytesWritten := by
                rw [List.length_take, ← BufferViewList.size_eq]
                exact min_eq_left (not_lt.mp hle)
              dsimp only
              split
              · rename_i hnone
                exact absurd ((buffer.removePrefix_eq_none_iff _).mp hnone) hle
              · rename_i rest hrest
                have hbytes := BufferViewList.removePrefix_bytes hrest
                have hsplit := List.take_append_drop bytesWritten buffer.bytes
                split
                · rename_i hmore
                  have hwrote := ih fd.registerWrite rest (total + bytesWritten)
                    (fun h => ⟨List.nil_prefix, ⟨rfl, rfl, rfl⟩, fun n hn => absurd hn (h n)⟩)
                  rw [hbytes] at hwrote
                  refine ⟨?_, hwrote.flags, fun n hn => ?_⟩
                  · have hgrows := (List.prefix_append_right_inj
                      (buffer.bytes.take bytesWritten)).mpr hwrote.grows
                    rwa [hsplit] at hgrows
                  · obtain ⟨hn, hall⟩ := hwrote.returned n hn
                    refine ⟨?_, fun hw => ?_⟩
                    · rw [hn, List.length_append, htake, Nat.add_assoc]
                    · show buffer.bytes.take bytesWritten ++ _ = _
                      rw [hall hw, hsplit]
                · rename_i hmore
                  refine ⟨List.take_prefix _ _, ⟨rfl, rfl, rfl⟩, fun n hn => ?_⟩
                  cases hn
                  refine ⟨by rw [htake], fun hw => ?_⟩
                  have hempty : rest.bytes = [] := by
                    rw [hw, Bool.true_and, bne_iff_ne, ne_eq, not_not,
                      BufferViewList.size_eq, List.length_eq_zero_iff] at hmore
                    exact hmore
                  rw [hbytes, List.drop_eq_nil_iff] at hempty
                  exact List.take_of_length_le hempty

/-- A write that need not be of everything calls `writev` once.  If it throws, the kernel has reported
an error or broken its promise. -/
theorem write_once (fd : FileDescriptor) (buffer : BufferViewList) (answer : Option ℕ) :
    (∃ n ≤ buffer.size, (buffer.size ≠ 0 → 0 < n) ∧ answer = some n ∧
      fd.write buffer false [answer] = (fd.registerWrite, buffer.bytes.take n, .returns n)) ∨
    ∃ what, fd.write buffer false [answer] = (fd, [], .throws what) ∧
      ((∀ n, answer = some n → n ≤ buffer.size ∧ (buffer.size ≠ 0 → 0 < n)) → what = "writev") := by
  unfold write
  cases answer with
  | none => exact Or.inr ⟨_, rfl, fun _ => rfl⟩
  | some n =>
      rw [writeLoop]
      split
      · rename_i hzero
        exact Or.inr ⟨_, rfl, fun h => absurd ((h n rfl).2 hzero.2) (by omega)⟩
      · split
        · rename_i hmore
          exact Or.inr ⟨_, rfl, fun h => absurd (h n rfl).1 (not_le.mpr hmore)⟩
        · rename_i hzero hmore
          left
          obtain ⟨rest, hrest⟩ := Option.ne_none_iff_exists'.mp
            (mt (buffer.removePrefix_eq_none_iff n).mp hmore)
          refine ⟨n, not_lt.mp hmore, fun hsize => by omega, rfl, ?_⟩
          simp only [hrest, Bool.false_and, Nat.zero_add, Bool.false_eq_true, if_false]

/-- A turn of the loop whose answer is as the kernel promises, with bytes left afterwards or not. -/
theorem writeLoop_turn {buffer : BufferViewList} {k : ℕ} (hpos : 0 < k) (hle : k ≤ buffer.size) :
    ∃ rest : BufferViewList, rest.bytes = buffer.bytes.drop k ∧ rest.size = buffer.size - k ∧
      ∀ (results : List (Option ℕ)) (fd : FileDescriptor) (total : ℕ),
        writeLoop true (some k :: results) fd buffer total =
          if rest.size = 0 then (fd.registerWrite, buffer.bytes.take k, .returns (total + k))
          else
            ((writeLoop true results fd.registerWrite rest (total + k)).1,
              buffer.bytes.take k ++ (writeLoop true results fd.registerWrite rest (total + k)).2.1,
              (writeLoop true results fd.registerWrite rest (total + k)).2.2) := by
  obtain ⟨rest, hrest⟩ := Option.ne_none_iff_exists'.mp
    (mt (buffer.removePrefix_eq_none_iff k).mp (not_lt.mpr hle))
  have hbytes := BufferViewList.removePrefix_bytes hrest
  refine ⟨rest, hbytes, ?_, fun results fd total => ?_⟩
  · rw [BufferViewList.size_eq, hbytes, List.length_drop, BufferViewList.size_eq]
  · rw [writeLoop, if_neg (by omega), if_neg (not_lt.mpr hle)]
    simp only [hrest, Bool.true_and, bne_iff_ne, ne_eq, ite_not]

/-- The calls of `writev` so far. -/
theorem writeLoop_conforming {ks : List ℕ} (hpos : ∀ k ∈ ks, 0 < k) (fd : FileDescriptor)
    {buffer : BufferViewList} (hbuffer : 0 < buffer.size) (hsum : ks.sum ≤ buffer.size)
    (total : ℕ) :
    writeLoop true (ks.map some) fd buffer total =
      ({ fd with writeCount := fd.writeCount + UInt32.ofNat ks.length },
        buffer.bytes.take ks.sum,
        if ks.sum = buffer.size then .returns (total + buffer.size) else .blocks) := by
  induction ks generalizing fd buffer total with
  | nil =>
      have hopen : ¬0 = buffer.size := by omega
      simp [writeLoop, hopen]
  | cons k ks ih =>
      have hk := hpos k List.mem_cons_self
      rw [List.sum_cons] at hsum
      obtain ⟨rest, hbytes, hsize, hturn⟩ := writeLoop_turn hk (show k ≤ buffer.size by omega)
      have hcount : fd.writeCount + UInt32.ofNat (k :: ks).length =
          fd.registerWrite.writeCount + UInt32.ofNat ks.length := by
        rw [List.length_cons, UInt32.ofNat_add, registerWrite, UInt32.add_assoc,
          UInt32.add_comm (UInt32.ofNat ks.length)]
        rfl
      rw [List.map_cons, hturn, List.sum_cons, hcount]
      by_cases hrest : rest.size = 0
      · have hks : ks = [] := by
          cases ks with
          | nil => rfl
          | cons k' ks =>
              have := hpos k' (by simp)
              rw [List.sum_cons] at hsum
              omega
        subst hks
        have hall : k = buffer.size := by omega
        rw [if_pos hrest, if_pos (by simpa using hall), hall]
        simp [registerWrite]
      · rw [if_neg hrest, ih (fun k' hk' => hpos k' (List.mem_cons_of_mem _ hk')) _
          (Nat.pos_of_ne_zero hrest) (by omega)]
        dsimp only
        rw [hbytes, ← List.take_add, hsize]
        by_cases hall : ks.sum = buffer.size - k
        · rw [if_pos hall, if_pos (by omega), show total + k + (buffer.size - k) =
            total + buffer.size by omega]
          rfl
        · rw [if_neg hall, if_neg (by omega)]
          rfl

/-- **A write of everything hands everything over, once and in order.**  Whatever the kernel answers,
what it was handed is a prefix of the buffers' bytes, and a call that returns has handed over all of
them and returns their number.  If every answer is positive and they do not exceed the buffers, the
call has handed over as many bytes as they say and returns exactly when that is everything. -/
theorem write_everything (fd : FileDescriptor) (buffer : BufferViewList) :
    (∀ results,
      (fd.write buffer true results).2.1 <+: buffer.bytes ∧
      ∀ n, (fd.write buffer true results).2.2 = .returns n →
        n = buffer.size ∧ (fd.write buffer true results).2.1 = buffer.bytes) ∧
    (0 < buffer.size → ∀ ks : List ℕ, (∀ k ∈ ks, 0 < k) → ks.sum ≤ buffer.size →
      fd.write buffer true (ks.map some) =
        ({ fd with writeCount := fd.writeCount + UInt32.ofNat ks.length },
          buffer.bytes.take ks.sum,
          if ks.sum = buffer.size then .returns buffer.size else .blocks)) := by
  refine ⟨fun results => ?_, fun hbuffer ks hpos hsum => ?_⟩
  · have hwrote := writeLoop_wrote true results fd buffer 0
    refine ⟨hwrote.grows, fun n hn => ?_⟩
    obtain ⟨hn, hall⟩ := hwrote.returned n hn
    have hbytes := hall rfl
    rw [Nat.zero_add, hbytes, ← BufferViewList.size_eq] at hn
    exact ⟨hn, hbytes⟩
  · have hloop := writeLoop_conforming hpos fd hbuffer hsum 0
    rwa [Nat.zero_add] at hloop

end FileDescriptor

end CourseNet
