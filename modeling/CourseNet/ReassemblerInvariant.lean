import CourseNet.ReassemblerTrim

/-!
# What the reassembler assembles

`Assembled` adds to `Stored` what the output holds: the store and the assembly loop keep it and
never meet an entry below the next index.  `Consistent` adds the end-of-file index.
-/

namespace CourseNet

namespace StreamReassembler

/-! ### The written bytes are counted -/

theorem storeOrWrite_written {r : StreamReassembler}
    (h : r.output.bytesWritten = r.nextAssembledIdx) (newIdx : ℕ) (nd : Bytes) :
    (r.storeOrWrite newIdx nd).output.bytesWritten =
      (r.storeOrWrite newIdx nd).nextAssembledIdx := by
  unfold storeOrWrite
  split
  · dsimp only
    split <;> simp [h]
  · exact h

/-! ### The stored strings

Apart from the trimmed substring every string that a phase stores is what is left of one that was
there, so what holds of a string and of its suffixes holds of all that are stored. -/

section Entries

variable {Q : ℕ × Bytes → Prop} {M : ℕ} {r : StreamReassembler}

theorem storeOrWrite_entries
    (hdrop : ∀ k d w, Q (k, d) → w < d.length → k + w ≤ M → Q (k + w, d.drop w))
    (h : ∀ e ∈ r.unassembleStrs.entries, Q e) {newIdx : ℕ} {nd : Bytes} (hnd : Q (newIdx, nd))
    (hM : (r.storeOrWrite newIdx nd).nextAssembledIdx ≤ M) :
    ∀ e ∈ (r.storeOrWrite newIdx nd).unassembleStrs.entries, Q e := by
  revert hM
  unfold storeOrWrite
  split
  · rename_i heq
    subst heq
    dsimp only
    split
    · rename_i hpart
      intro hM e he
      rcases SortedMap.mem_of_mem_insertNew he with rfl | he
      · exact hdrop _ _ _ hnd hpart hM
      · exact h e he
    · exact fun _ => h
  · intro _ e he
    rcases SortedMap.mem_of_mem_insertNew he with rfl | he
    · exact hnd
    · exact h e he

theorem assembleLoop_entries
    (hdrop : ∀ k d w, Q (k, d) → w < d.length → k + w ≤ M → Q (k + w, d.drop w))
    (iter : List (ℕ × Bytes)) (hiter : ∀ e ∈ iter, Q e)
    (h : ∀ e ∈ r.unassembleStrs.entries, Q e)
    (hM : (assembleLoop iter r).1.nextAssembledIdx ≤ M) :
    ∀ e ∈ (assembleLoop iter r).1.unassembleStrs.entries, Q e := by
  induction iter generalizing r with
  | nil => exact h
  | cons e es ih =>
      obtain ⟨idx, str⟩ := e
      have herase : ∀ e ∈ (r.unassembleStrs.erase idx).entries, Q e := fun e he =>
        h e (SortedMap.mem_erase.mp he).1
      revert hM
      simp only [assembleLoop]
      split
      · rename_i heq
        subst heq
        split
        · rename_i hpart
          intro hM e he
          rcases SortedMap.mem_of_mem_insertNew (SortedMap.mem_erase.mp he).1 with rfl | he
          · exact hdrop _ _ _ (hiter _ List.mem_cons_self) hpart hM
          · exact h e he
        · exact ih (fun e he => hiter e (List.mem_cons_of_mem _ he)) herase
      · exact fun _ => h

end Entries

theorem noteEof_output (r : StreamReassembler) (data : Bytes) (index : ℕ) (eof : Bool) :
    (r.noteEof data index eof).output =
      if (r.noteEof data index eof).eofIdx ≤ r.nextAssembledIdx then r.output.endInput
      else r.output := rfl

/-! ### The shape -/

/-- What holds of every reassembler whatever its substrings say: it counts what it wrote, and the
strings it stores are laid out from the next index on. -/
structure Shaped (r : StreamReassembler) : Prop where
  written : r.output.bytesWritten = r.nextAssembledIdx
  cap_eq : r.output.capacity = r.capacity
  laid : Laid r.nextAssembledIdx r.unassembleStrs

namespace Shaped

variable {r : StreamReassembler}

theorem new (capacity : ℕ) : Shaped (StreamReassembler.new capacity) := ⟨rfl, rfl, Laid.empty 0⟩

/-- The end of the window, seen from the next index and from the reader. -/
theorem window_end (h : Shaped r) :
    r.nextAssembledIdx + r.output.remainingCapacity = r.output.bytesRead + r.capacity := by
  have hacc := r.output.accounting
  have hbuf := r.output.buffer_le
  have hcap := h.cap_eq
  rw [h.written] at hacc
  rw [ByteStream.remainingCapacity]
  omega

theorem storeOrWrite (h : Shaped r) {newIdx : ℕ} {nd : Bytes}
    (hc : Clear r.unassembleStrs newIdx nd.length) (hnd : nd ≠ [])
    (hge : r.nextAssembledIdx ≤ newIdx) (hfit : newIdx + nd.length < 2 ^ 64) :
    Shaped (r.storeOrWrite newIdx nd) := by
  refine ⟨storeOrWrite_written h.written newIdx nd, ?_, ?_⟩
  · have hcap := h.cap_eq
    unfold StreamReassembler.storeOrWrite
    split
    · dsimp only
      split <;> simpa using hcap
    · exact hcap
  · unfold StreamReassembler.storeOrWrite
    split
    · rename_i heq
      subst heq
      have hw := r.output.write_snd_le_length nd
      -- whatever is stored starts after the substring
      have hafter : ∀ e ∈ r.unassembleStrs.entries, r.nextAssembledIdx + nd.length ≤ e.1 := by
        intro e he
        have hstart := h.laid.start_ge e he
        have hpos := h.laid.length_pos he
        rcases hc e he with hlt | hlt <;> omega
      have hadv : Laid (r.nextAssembledIdx + (r.output.write nd).2) r.unassembleStrs :=
        h.laid.advance fun e he => by
          have := hafter e he
          omega
      dsimp only
      split
      · have hlen : (nd.drop (r.output.write nd).2).length =
            nd.length - (r.output.write nd).2 := List.length_drop
        refine hadv.insertNew (fun e he => ?_) (List.ne_nil_of_length_pos (by omega)) (le_refl _)
          (by omega)
        have := hafter e he
        omega
      · exact hadv
    · exact h.laid.insertNew hc hnd hge hfit

/-- The assembly loop keeps the shape, and its assertion holds in every iteration. -/
theorem assembleLoop (iter : List (ℕ × Bytes)) (h : Shaped r)
    (hiter : r.unassembleStrs.entries = iter) :
    Shaped (StreamReassembler.assembleLoop iter r).1 ∧
      (StreamReassembler.assembleLoop iter r).2 = true := by
  induction iter generalizing r with
  | nil => exact ⟨h, rfl⟩
  | cons e es ih =>
      obtain ⟨idx, str⟩ := e
      have hmem : (idx, str) ∈ r.unassembleStrs.entries := hiter ▸ List.mem_cons_self
      have hheld : r.nextAssembledIdx ≤ idx := h.laid.start_ge _ hmem
      have hcap := h.cap_eq
      simp only [StreamReassembler.assembleLoop, decide_eq_true hheld]
      split
      · rename_i heq
        subst heq
        split
        · rename_i hpart
          exact ⟨⟨by simp [h.written], by simpa using hcap, h.laid.replace_head hmem hpart⟩, rfl⟩
        · obtain ⟨hshaped, htrue⟩ := ih (r := { r with
              output := (r.output.write str).1
              nextAssembledIdx := r.nextAssembledIdx + (r.output.write str).2
              unassembledBytesNum := r.unassembledBytesNum - str.length
              unassembleStrs := r.unassembleStrs.erase r.nextAssembledIdx })
            ⟨by simp [h.written], by simpa using hcap,
              h.laid.erase_head hmem (r.output.write_snd_le_length str)⟩
            (SortedMap.erase_head hiter)
          exact ⟨hshaped, by rw [htrue]; rfl⟩
      · exact ⟨h, rfl⟩

theorem noteEof (h : Shaped r) (data : Bytes) (index : ℕ) (eof : Bool) :
    Shaped (r.noteEof data index eof) := by
  refine ⟨?_, ?_, h.laid⟩
  · rw [noteEof_output]
    split <;> exact h.written
  · rw [noteEof_output]
    split <;> exact h.cap_eq

theorem read (h : Shaped r) (n : ℕ) : Shaped (r.read n).2 := ⟨h.written, h.cap_eq, h.laid⟩

theorem trimmed (h : Shaped r) (data : Bytes) (index : ℕ) : Shaped (r.trimmed data index) :=
  ⟨h.written, h.cap_eq, h.laid.sub (trim_sub r data index)⟩

theorem beforeLoop (h : Shaped r) {data : Bytes} {index : ℕ} (hfit : index + data.length < 2 ^ 64)
    (hstart : 0 < (r.trim data index).dataSize → r.newStart index - index ≤ data.length) :
    Shaped (r.stored data index) := by
  unfold StreamReassembler.stored
  split
  · rename_i hsize
    obtain ⟨hne, -, hend, hclear⟩ := newData_laid h.laid hfit hsize (hstart hsize)
    obtain ⟨-, hge, -⟩ := newStart_spec h.laid index
    exact (h.trimmed data index).storeOrWrite hclear hne hge (hend.trans_lt hfit)
  · exact h.trimmed data index

end Shaped

/-! ### The contents -/

/-- The output holds the first `N` bytes of `S`, of which the reader took `popped`, and the rest of
what is known is stored. -/
structure Assembled (S popped : Bytes) (r : StreamReassembler) : Prop where
  next_le : r.nextAssembledIdx ≤ S.length
  wrote : r.output.Wrote popped (S.take r.nextAssembledIdx)
  cap_eq : r.output.capacity = r.capacity
  stored : Stored S r.nextAssembledIdx r.unassembleStrs

/-- The part of `Assembled` about the output. -/
def Delivered (S popped : Bytes) (r : StreamReassembler) : Prop :=
  r.nextAssembledIdx ≤ S.length ∧ r.output.Wrote popped (S.take r.nextAssembledIdx)

section Delivered

variable {S popped : Bytes} {r : StreamReassembler}

/-- Writing an excerpt that starts at `N`. -/
theorem Delivered.write_next (h : Delivered S popped r) {d : Bytes} (hd : d ≠ [])
    (hS : Excerpt S r.nextAssembledIdx d) :
    r.nextAssembledIdx + (r.output.write d).2 ≤ S.length ∧
      (r.output.write d).1.Wrote popped
        (S.take (r.nextAssembledIdx + (r.output.write d).2)) := by
  have hw := r.output.write_snd_le_length d
  have hlen : (d.take (r.output.write d).2).length = (r.output.write d).2 := by
    rw [List.length_take, min_eq_left hw]
  refine ⟨?_, ?_⟩
  · have := hS.end_le hd
    omega
  · have := (hS.take (r.output.write d).2).take_append
    rw [hlen] at this
    exact this ▸ h.2.write d

theorem Delivered.storeOrWrite (h : Delivered S popped r) {newIdx : ℕ} {nd : Bytes} (hnd : nd ≠ [])
    (hS : Excerpt S newIdx nd) : Delivered S popped (r.storeOrWrite newIdx nd) := by
  unfold StreamReassembler.storeOrWrite
  split
  · rename_i heq
    subst heq
    dsimp only
    split <;> exact h.write_next hnd hS
  · exact h

theorem Delivered.assembleLoop (iter : List (ℕ × Bytes)) (h : Delivered S popped r)
    (hne : ∀ e ∈ iter, e.2 ≠ []) (hS : ∀ e ∈ iter, Excerpt S e.1 e.2) :
    Delivered S popped (StreamReassembler.assembleLoop iter r).1 := by
  induction iter generalizing r with
  | nil => exact h
  | cons e es ih =>
      obtain ⟨idx, str⟩ := e
      simp only [StreamReassembler.assembleLoop]
      split
      · rename_i heq
        subst heq
        have hwrite := h.write_next (hne _ List.mem_cons_self) (hS _ List.mem_cons_self)
        split
        · exact hwrite
        · exact ih hwrite (fun e he => hne e (List.mem_cons_of_mem _ he))
            fun e he => hS e (List.mem_cons_of_mem _ he)
      · exact h

end Delivered

namespace Assembled

variable {S T popped : Bytes} {r : StreamReassembler}

theorem new (S : Bytes) (capacity : ℕ) : Assembled S [] (StreamReassembler.new capacity) :=
  ⟨Nat.zero_le _, ⟨rfl, rfl⟩, rfl, Stored.empty S 0⟩

theorem bytesWritten_eq (h : Assembled S popped r) :
    r.output.bytesWritten = r.nextAssembledIdx := by
  rw [← h.wrote.length, List.length_take, min_eq_left h.next_le]

theorem shaped (h : Assembled S popped r) : Shaped r :=
  ⟨h.bytesWritten_eq, h.cap_eq, h.stored.laid⟩

theorem delivered (h : Assembled S popped r) : Delivered S popped r := ⟨h.next_le, h.wrote⟩

theorem of_shaped (hshaped : Shaped r) (h : Delivered S popped r)
    (hS : ∀ e ∈ r.unassembleStrs.entries, Excerpt S e.1 e.2) : Assembled S popped r :=
  ⟨h.1, h.2, hshaped.cap_eq, hshaped.laid.stored hS⟩

theorem storeOrWrite (h : Assembled S popped r) {newIdx : ℕ} {nd : Bytes}
    (hc : Clear r.unassembleStrs newIdx nd.length) (hnd : nd ≠ [])
    (hge : r.nextAssembledIdx ≤ newIdx) (hS : Excerpt S newIdx nd)
    (hfit : newIdx + nd.length < 2 ^ 64) : Assembled S popped (r.storeOrWrite newIdx nd) :=
  of_shaped (h.shaped.storeOrWrite hc hnd hge hfit) (h.delivered.storeOrWrite hnd hS)
    (storeOrWrite_entries (Q := fun e => Excerpt S e.1 e.2) (fun _ _ w hd _ _ => hd.drop w)
      h.stored.agrees hS (le_refl _))

/-- The assembly loop keeps the invariant, and its assertion holds in every iteration. -/
theorem assembleLoop (iter : List (ℕ × Bytes)) (h : Assembled S popped r)
    (hiter : r.unassembleStrs.entries = iter) :
    Assembled S popped (StreamReassembler.assembleLoop iter r).1 ∧
      (StreamReassembler.assembleLoop iter r).2 = true := by
  obtain ⟨hshaped, hheld⟩ := h.shaped.assembleLoop iter hiter
  have hS : ∀ e ∈ iter, Excerpt S e.1 e.2 := hiter ▸ h.stored.agrees
  have hdelivered := h.delivered.assembleLoop iter (hiter ▸ h.stored.nonempty) hS
  refine ⟨of_shaped hshaped hdelivered ?_, hheld⟩
  exact assembleLoop_entries (Q := fun e => Excerpt S e.1 e.2) (fun _ _ w hd _ _ => hd.drop w)
    iter hS h.stored.agrees (le_refl _)

end Assembled

/-! ### What no phase touches -/

/-- The fields that trimming, storing and assembling leave alone. -/
structure Frame (r s : StreamReassembler) : Prop where
  eofIdx : s.eofIdx = r.eofIdx
  capacity : s.capacity = r.capacity
  inputEnded : s.output.inputEnded = r.output.inputEnded
  error : s.output.error = r.output.error
  bytesRead : s.output.bytesRead = r.output.bytesRead
  next_le : r.nextAssembledIdx ≤ s.nextAssembledIdx

theorem Frame.trans {r s t : StreamReassembler} (h : Frame r s) (k : Frame s t) : Frame r t :=
  ⟨k.eofIdx.trans h.eofIdx, k.capacity.trans h.capacity, k.inputEnded.trans h.inputEnded,
    k.error.trans h.error, k.bytesRead.trans h.bytesRead, h.next_le.trans k.next_le⟩

theorem storeOrWrite_frame (r : StreamReassembler) (newIdx : ℕ) (nd : Bytes) :
    Frame r (r.storeOrWrite newIdx nd) := by
  unfold StreamReassembler.storeOrWrite
  split
  · dsimp only
    split <;> constructor <;> simp
  · exact ⟨rfl, rfl, rfl, rfl, rfl, le_refl _⟩

theorem assembleLoop_frame (iter : List (ℕ × Bytes)) (r : StreamReassembler) :
    Frame r (assembleLoop iter r).1 := by
  induction iter generalizing r with
  | nil => exact ⟨rfl, rfl, rfl, rfl, rfl, le_refl _⟩
  | cons e es ih =>
      obtain ⟨idx, str⟩ := e
      simp only [assembleLoop]
      split
      · split
        · constructor <;> simp
        · exact Frame.trans (by constructor <;> simp) (ih _)
      · exact ⟨rfl, rfl, rfl, rfl, rfl, le_refl _⟩

theorem stored_frame (r : StreamReassembler) (data : Bytes) (index : ℕ) :
    Frame r (r.stored data index) := by
  have htrim : Frame r (r.trimmed data index) := ⟨rfl, rfl, rfl, rfl, rfl, le_refl _⟩
  unfold stored
  split
  · exact htrim.trans (storeOrWrite_frame _ _ _)
  · exact htrim

/-- The output has ended after the test because the end was reached, or it had ended before. -/
theorem noteEof_ended {r : StreamReassembler} {data : Bytes} {index : ℕ} {eof : Bool}
    (h : (r.noteEof data index eof).output.inputEnded = true) :
    (r.noteEof data index eof).eofIdx ≤ r.nextAssembledIdx ∨ r.output.inputEnded = true := by
  by_cases hreach : (r.noteEof data index eof).eofIdx ≤ r.nextAssembledIdx
  · exact Or.inl hreach
  · rw [noteEof_output, if_neg hreach] at h
    exact Or.inr h

theorem noteEof_ended_of {r : StreamReassembler} {data : Bytes} {index : ℕ} {eof : Bool}
    (h : r.output.inputEnded = true) : (r.noteEof data index eof).output.inputEnded = true := by
  rw [noteEof_output]
  split
  · rfl
  · exact h

theorem noteEof_error (r : StreamReassembler) (data : Bytes) (index : ℕ) (eof : Bool) :
    (r.noteEof data index eof).output.error = r.output.error := by
  rw [noteEof_output]
  split <;> rfl

theorem noteEof_bytesRead (r : StreamReassembler) (data : Bytes) (index : ℕ) (eof : Bool) :
    (r.noteEof data index eof).output.bytesRead = r.output.bytesRead := by
  rw [noteEof_output]
  split <;> rfl

theorem Assembled.noteEof {S popped : Bytes} {r : StreamReassembler} (h : Assembled S popped r)
    (data : Bytes) (index : ℕ) (eof : Bool) : Assembled S popped (r.noteEof data index eof) := by
  refine ⟨h.next_le, ?_, ?_, h.stored⟩
  · rw [noteEof_output]
    split <;> exact h.wrote
  · rw [noteEof_output]
    split <;> exact h.cap_eq

/-- The three ways a call ends: before the store, with an exception, or after the loop. -/
theorem pushSubstring_cases (r : StreamReassembler) (data : Bytes) (index : ℕ) (eof : Bool) :
    (r.firstUnacceptableIdx ≤ r.newStart index ∧
      r.pushChecked data index eof = (r.trimmed data index, .returns)) ∨
    (r.newStart index < r.firstUnacceptableIdx ∧ 0 < (r.trim data index).dataSize ∧
      data.length < r.newStart index - index ∧
      r.pushChecked data index eof = (r.trimmed data index, .throws)) ∨
    (r.newStart index < r.firstUnacceptableIdx ∧
      (0 < (r.trim data index).dataSize → r.newStart index - index ≤ data.length) ∧
      ∃ a, a = assembleLoop (r.stored data index).unassembleStrs.entries (r.stored data index) ∧
        Frame r a.1 ∧ r.pushChecked data index eof =
          (a.1.noteEof data index eof, if a.2 then .returns else .assertFails)) := by
  have hframe := (stored_frame r data index).trans
    (assembleLoop_frame (r.stored data index).unassembleStrs.entries _)
  unfold pushChecked
  split
  · rename_i h
    exact Or.inl ⟨h, rfl⟩
  · rename_i h
    split
    · rename_i h'
      exact Or.inr (Or.inl ⟨not_le.mp h, h'.1, h'.2, rfl⟩)
    · rename_i h'
      exact Or.inr (Or.inr ⟨not_le.mp h, fun hpos => not_lt.mp fun hlt => h' ⟨hpos, hlt⟩,
        _, rfl, hframe, rfl⟩)

/-! ### The output -/

/-- A push changes the output only by writes and by the end of the input. -/
theorem storeOrWrite_output {P : ByteStream → Prop} (hwrite : ∀ s d, P s → P (s.write d).1)
    {r : StreamReassembler} (h : P r.output) (newIdx : ℕ) (nd : Bytes) :
    P (r.storeOrWrite newIdx nd).output := by
  unfold StreamReassembler.storeOrWrite
  split
  · dsimp only
    split <;> exact hwrite _ _ h
  · exact h

theorem assembleLoop_output {P : ByteStream → Prop} (hwrite : ∀ s d, P s → P (s.write d).1)
    (iter : List (ℕ × Bytes)) {r : StreamReassembler} (h : P r.output) :
    P (assembleLoop iter r).1.output := by
  induction iter generalizing r with
  | nil => exact h
  | cons e es ih =>
      obtain ⟨idx, str⟩ := e
      simp only [assembleLoop]
      split
      · split
        · exact hwrite _ _ h
        · exact ih (hwrite _ _ h)
      · exact h

theorem pushSubstring_output {P : ByteStream → Prop} (hwrite : ∀ s d, P s → P (s.write d).1)
    (hend : ∀ s, P s → P s.endInput) {r : StreamReassembler} (h : P r.output) (data : Bytes)
    (index : ℕ) (eof : Bool) : P (r.pushSubstring data index eof).output := by
  unfold pushSubstring
  rcases r.pushSubstring_cases data index eof with ⟨-, hc⟩ | ⟨-, -, -, hc⟩ | ⟨-, -, a, ha, -, hc⟩
  · rw [hc]
    exact h
  · rw [hc]
    exact h
  · have hstored : P (r.stored data index).output := by
      unfold stored
      split
      · exact storeOrWrite_output (r := r.trimmed data index) hwrite h _ _
      · exact h
    have hloop : P a.1.output := ha ▸ assembleLoop_output hwrite _ hstored
    rw [hc, noteEof_output]
    split
    · exact hend _ hloop
    · exact hloop

/-- So a push loses nothing that was written or read. -/
theorem pushSubstring_grows (r : StreamReassembler) (data : Bytes) (index : ℕ) (eof : Bool) :
    r.output.Grows (r.pushSubstring data index eof).output :=
  pushSubstring_output (fun s d h => h.trans (s.grows_write d))
    (fun s h => h.trans s.grows_endInput) (ByteStream.Grows.refl _) data index eof

/-! ### One push -/

/-- The strings stored after a push, in terms of those before it and of the trimmed substring. -/
theorem pushSubstring_entries {Q : ℕ × Bytes → Prop} {M : ℕ} {r : StreamReassembler}
    (hdrop : ∀ k d w, Q (k, d) → w < d.length → k + w ≤ M → Q (k + w, d.drop w))
    (h : ∀ e ∈ r.unassembleStrs.entries, Q e) {data : Bytes} {index : ℕ} (eof : Bool)
    (hnew : r.newStart index < r.firstUnacceptableIdx → 0 < (r.trim data index).dataSize →
      r.newStart index - index ≤ data.length → Q (r.newStart index, r.newData data index))
    (hM : (r.pushSubstring data index eof).nextAssembledIdx ≤ M) :
    ∀ e ∈ (r.pushSubstring data index eof).unassembleStrs.entries, Q e := by
  have htrim : ∀ e ∈ (r.trimmed data index).unassembleStrs.entries, Q e := fun e he =>
    h e (trim_sub r data index e he)
  revert hM
  unfold pushSubstring
  rcases r.pushSubstring_cases data index eof with ⟨-, hc⟩ | ⟨-, -, -, hc⟩ |
    ⟨hwindow, hstart, a, ha, -, hc⟩
  · rw [hc]
    exact fun _ => htrim
  · rw [hc]
    exact fun _ => htrim
  · rw [hc, ha]
    intro hM
    have hle := (assembleLoop_frame (r.stored data index).unassembleStrs.entries
      (r.stored data index)).next_le.trans hM
    have hstored : ∀ e ∈ (r.stored data index).unassembleStrs.entries, Q e := by
      revert hle
      unfold StreamReassembler.stored
      split
      · rename_i hsize
        exact storeOrWrite_entries hdrop htrim (hnew hwindow hsize (hstart hsize))
      · exact fun _ => htrim
    exact assembleLoop_entries hdrop _ hstored hstored hM

/-- A push that is dropped by the window check, or ends below `2 ^ 64`, keeps the shape, and its
assertion holds. -/
theorem Shaped.push {r : StreamReassembler} (h : Shaped r) {data : Bytes} {index : ℕ}
    (hfit : r.newStart index < r.firstUnacceptableIdx → index + data.length < 2 ^ 64) (eof : Bool) :
    Shaped (r.pushSubstring data index eof) ∧ r.pushOutcome data index eof ≠ .assertFails := by
  unfold pushSubstring pushOutcome
  rcases r.pushSubstring_cases data index eof with ⟨-, hc⟩ | ⟨-, -, -, hc⟩ |
    ⟨hwindow, hstart, a, ha, -, hc⟩
  · rw [hc]
    exact ⟨h.trimmed data index, by simp⟩
  · rw [hc]
    exact ⟨h.trimmed data index, by simp⟩
  · obtain ⟨hshaped, hheld⟩ := (h.beforeLoop (hfit hwindow) hstart).assembleLoop _ rfl
    rw [← ha] at hshaped hheld
    rw [hc, hheld]
    exact ⟨hshaped.noteEof data index eof, by simp⟩

namespace Assembled

variable {S popped : Bytes} {r : StreamReassembler}

theorem trimmed (h : Assembled S popped r) (data : Bytes) (index : ℕ) :
    Assembled S popped (r.trimmed data index) :=
  ⟨h.next_le, h.wrote, h.cap_eq, h.stored.sub (trim_sub r data index)⟩

theorem beforeLoop (h : Assembled S popped r) {data : Bytes} {index : ℕ}
    (hS : Excerpt S index data) (hfit : index + data.length < 2 ^ 64)
    (hstart : 0 < (r.trim data index).dataSize → r.newStart index - index ≤ data.length) :
    Assembled S popped (r.stored data index) := by
  unfold StreamReassembler.stored
  split
  · rename_i hsize
    obtain ⟨hne, -, hend, hclear⟩ := newData_laid h.stored.laid hfit hsize (hstart hsize)
    obtain ⟨hidx, hge, -⟩ := newStart_spec h.stored.laid index
    exact (h.trimmed data index).storeOrWrite hclear hne hge (newData_excerpt hS hidx)
      (hend.trans_lt hfit)
  · exact h.trimmed data index

/-- A push that agrees with `S` keeps what is assembled and stored, and its assertion holds. -/
theorem push (h : Assembled S popped r) {data : Bytes} {index : ℕ} (hS : Excerpt S index data)
    (hfit : index + data.length < 2 ^ 64) (eof : Bool) :
    Assembled S popped (r.pushSubstring data index eof) ∧
      r.pushOutcome data index eof ≠ .assertFails := by
  unfold pushSubstring pushOutcome
  rcases r.pushSubstring_cases data index eof with ⟨-, hc⟩ | ⟨-, -, -, hc⟩ |
    ⟨-, hstart, a, ha, -, hc⟩
  · rw [hc]
    exact ⟨h.trimmed data index, by simp⟩
  · rw [hc]
    exact ⟨h.trimmed data index, by simp⟩
  · obtain ⟨hasm, hheld⟩ := (h.beforeLoop hS hfit hstart).assembleLoop _ rfl
    rw [← ha] at hasm hheld
    rw [hc, hheld]
    exact ⟨hasm.noteEof data index eof, by simp⟩

end Assembled

/-- A push that agrees with the stream `S`; `E` is what an end-of-file mark tells about `S`. -/
structure Piece (S : Bytes) (E : Prop) (data : Bytes) (index : ℕ) (eof : Bool) : Prop where
  agrees : Excerpt S index data
  fits : index + data.length < 2 ^ 64
  eof : eof = true → index + data.length = S.length ∧ E

/-- `Assembled`, and the end-of-file index is either unset or the length of `S`. -/
structure Consistent (S : Bytes) (E : Prop) (popped : Bytes) (r : StreamReassembler) : Prop
    extends Assembled S popped r where
  eof : r.eofIdx = 2 ^ 64 - 1 ∨ (r.eofIdx = S.length ∧ E)
  ended : r.output.inputEnded = true → r.nextAssembledIdx = S.length ∧ E

namespace Consistent

variable {S T popped : Bytes} {E F : Prop} {r : StreamReassembler}

theorem new (S : Bytes) (E : Prop) (capacity : ℕ) :
    Consistent S E [] (StreamReassembler.new capacity) :=
  ⟨Assembled.new S capacity, Or.inl rfl,
    fun h => absurd h (by simp [StreamReassembler.new, ByteStream.new])⟩

/-- More of the stream becomes known; once its end was seen it cannot grow. -/
theorem extend (h : Consistent S E popped r) (hST : S <+: T) (hE : E → T = S) (hEF : E → F) :
    Consistent T F popped r where
  next_le := h.next_le.trans hST.length_le
  wrote := by
    obtain ⟨u, rfl⟩ := hST
    rw [List.take_append_of_le_length h.next_le]
    exact h.wrote
  cap_eq := h.cap_eq
  stored := h.stored.extend hST
  eof := h.eof.imp_right fun ⟨heq, he⟩ => ⟨by rw [hE he, heq], hEF he⟩
  ended hend := by
    obtain ⟨heq, he⟩ := h.ended hend
    exact ⟨by rw [hE he, heq], hEF he⟩

theorem read (h : Consistent S E popped r) (n : ℕ) :
    Consistent S E (popped ++ (r.read n).1) (r.read n).2 :=
  ⟨⟨h.next_le, h.wrote.read n, h.cap_eq, h.stored⟩, h.eof, h.ended⟩

theorem setError (h : Consistent S E popped r) :
    Consistent S E popped { r with output := r.output.setError } :=
  ⟨⟨h.next_le, h.wrote, h.cap_eq, h.stored⟩, h.eof, h.ended⟩

theorem trimmed (h : Consistent S E popped r) (data : Bytes) (index : ℕ) :
    Consistent S E popped (r.trimmed data index) :=
  ⟨h.toAssembled.trimmed data index, h.eof, h.ended⟩

/-- The end-of-file part of the invariant; the bound keeps the next index below the unset
end-of-file index. -/
theorem push (h : Consistent S E popped r) {data : Bytes} {index : ℕ} {eof : Bool}
    (hp : Piece S E data index eof)
    (hbound : (r.pushSubstring data index eof).nextAssembledIdx < 2 ^ 64 - 1) :
    Consistent S E popped (r.pushSubstring data index eof) := by
  have hasm := (h.toAssembled.push hp.agrees hp.fits eof).1
  unfold pushSubstring at hbound hasm ⊢
  rcases r.pushSubstring_cases data index eof with ⟨-, hc⟩ | ⟨-, -, -, hc⟩ |
    ⟨-, -, a, -, hframe, hc⟩
  · rw [hc]
    exact h.trimmed data index
  · rw [hc]
    exact h.trimmed data index
  · rw [hc] at hasm hbound ⊢
    have hle : a.1.nextAssembledIdx ≤ S.length := hasm.next_le
    have hlt : a.1.nextAssembledIdx < 2 ^ 64 - 1 := hbound
    have heof : (a.1.noteEof data index eof).eofIdx = 2 ^ 64 - 1 ∨
        ((a.1.noteEof data index eof).eofIdx = S.length ∧ E) := by
      rcases Bool.eq_false_or_eq_true eof with rfl | rfl
      · obtain ⟨hlen, hE⟩ := hp.eof rfl
        exact Or.inr ⟨(Nat.mod_eq_of_lt hp.fits).trans hlen, hE⟩
      · exact hframe.eofIdx ▸ h.eof
    refine ⟨hasm, heof, fun hend => ?_⟩
    rcases noteEof_ended hend with hreach | hbefore
    · rcases heof with heof | ⟨heof, hE⟩
      · exact absurd hreach (by omega)
      · exact ⟨show a.1.nextAssembledIdx = S.length by omega, hE⟩
    · -- the end was reached before the call, and the next index cannot pass it
      obtain ⟨hlen, hE⟩ := h.ended (hframe.inputEnded ▸ hbefore)
      have hge := hframe.next_le
      exact ⟨show a.1.nextAssembledIdx = S.length by omega, hE⟩

end Consistent

/-- What every push leaves alone, whatever its data. -/
structure PushFrame (r s : StreamReassembler) : Prop where
  capacity : s.capacity = r.capacity
  error : s.output.error = r.output.error
  bytesRead : s.output.bytesRead = r.output.bytesRead
  next_le : r.nextAssembledIdx ≤ s.nextAssembledIdx
  ended : r.output.inputEnded = true → s.output.inputEnded = true

theorem pushSubstring_frame (r : StreamReassembler) (data : Bytes) (index : ℕ) (eof : Bool) :
    PushFrame r (r.pushSubstring data index eof) := by
  have htrim : PushFrame r (r.trimmed data index) := ⟨rfl, rfl, rfl, le_refl _, id⟩
  unfold pushSubstring
  rcases r.pushSubstring_cases data index eof with ⟨-, hc⟩ | ⟨-, -, -, hc⟩ |
    ⟨-, -, a, -, hframe, hc⟩
  · rw [hc]
    exact htrim
  · rw [hc]
    exact htrim
  · rw [hc]
    refine ⟨hframe.capacity, ?_, ?_, hframe.next_le, fun h => ?_⟩
    · rw [noteEof_error, hframe.error]
    · rw [noteEof_bytesRead, hframe.bytesRead]
    · exact noteEof_ended_of (hframe.inputEnded.trans h)

/-- A push that carries no end-of-file mark, or that throws, does not move the end-of-file index,
and ends the output only at that index. -/
theorem pushSubstring_unmarked {r : StreamReassembler} {data : Bytes} {index : ℕ} {eof : Bool}
    (h : eof = false ∨ r.pushOutcome data index eof = .throws) :
    (r.pushSubstring data index eof).eofIdx = r.eofIdx ∧
      ((r.pushSubstring data index eof).output.inputEnded = true →
        r.output.inputEnded = true ∨
          r.eofIdx ≤ (r.pushSubstring data index eof).nextAssembledIdx) := by
  unfold pushOutcome at h
  unfold pushSubstring
  rcases r.pushSubstring_cases data index eof with ⟨-, hc⟩ | ⟨-, -, -, hc⟩ |
    ⟨-, -, a, -, hframe, hc⟩
  · rw [hc]
    exact ⟨rfl, Or.inl⟩
  · rw [hc]
    exact ⟨rfl, Or.inl⟩
  · have heof : eof = false := by
      refine h.resolve_right ?_
      rw [hc]
      dsimp only
      split <;> simp
    have hidx : (a.1.noteEof data index eof).eofIdx = r.eofIdx := by
      rw [heof]
      exact hframe.eofIdx
    rw [hc]
    refine ⟨hidx, fun hended => ?_⟩
    rcases noteEof_ended hended with hreach | hbefore
    · exact Or.inr (hidx ▸ hreach)
    · exact Or.inl (hframe.inputEnded ▸ hbefore)

end StreamReassembler

end CourseNet
