import CourseNet.ReassemblerAccounting

/-!
# Pushes that bring nothing new

A push that ends by the next index stores nothing, but it runs the last two phases of
`push_substring`: what a full output left at the next index is written as far as it now fits, and
the end-of-file test compares with the mark of the push.  `Settled` says what those phases find.
-/

namespace CourseNet

namespace StreamReassembler

/-! ### An output that has ended -/

theorem endInput_of_ended {s : ByteStream} (h : s.inputEnded = true) : s.endInput = s := by
  cases s
  cases h
  rfl

theorem storeOrWrite_ended {r : StreamReassembler} (h : r.output.inputEnded = true) (newIdx : ℕ)
    (nd : Bytes) : (r.storeOrWrite newIdx nd).output = r.output := by
  unfold StreamReassembler.storeOrWrite
  rw [ByteStream.write_eq_self_of_ended h]
  split
  · dsimp only
    split <;> rfl
  · rfl

theorem assembleLoop_ended (iter : List (ℕ × Bytes)) {r : StreamReassembler}
    (h : r.output.inputEnded = true) : (assembleLoop iter r).1.output = r.output := by
  induction iter generalizing r with
  | nil => rfl
  | cons e es ih =>
      obtain ⟨idx, str⟩ := e
      simp only [assembleLoop, ByteStream.write_eq_self_of_ended h]
      split
      · split
        · rfl
        · exact ih h
      · rfl

/-- Once the output has ended no push touches it. -/
theorem pushSubstring_ended {r : StreamReassembler} (h : r.output.inputEnded = true) (data : Bytes)
    (index : ℕ) (eof : Bool) : (r.pushSubstring data index eof).output = r.output := by
  have hstored : (r.stored data index).output = r.output := by
    unfold StreamReassembler.stored
    split
    · exact storeOrWrite_ended (r := r.trimmed data index) h _ _
    · rfl
  unfold pushSubstring
  rcases r.pushSubstring_cases data index eof with ⟨-, hc⟩ | ⟨-, -, -, hc⟩ |
    ⟨-, -, a, ha, -, hc⟩
  · rw [hc]
    rfl
  · rw [hc]
    rfl
  · have hloop : a.1.output = r.output := by
      rw [ha, assembleLoop_ended _ (hstored ▸ h), hstored]
    rw [hc, noteEof_output, hloop]
    split
    · exact endInput_of_ended h
    · rfl

/-! ### What a call leaves at the next index -/

/-- The loop leaves a string at the next index only when the output is full. -/
theorem assembleLoop_full (iter : List (ℕ × Bytes)) {r : StreamReassembler} (h : Shaped r)
    (hiter : r.unassembleStrs.entries = iter) :
    ∀ e ∈ (assembleLoop iter r).1.unassembleStrs.entries,
      e.1 = (assembleLoop iter r).1.nextAssembledIdx →
        (assembleLoop iter r).1.output.remainingCapacity = 0 := by
  induction iter generalizing r with
  | nil => exact fun e he => absurd (hiter ▸ he) List.not_mem_nil
  | cons e es ih =>
      obtain ⟨idx, str⟩ := e
      have hmem : (idx, str) ∈ r.unassembleStrs.entries := hiter ▸ List.mem_cons_self
      have hge := h.laid.start_ge _ hmem
      simp only [assembleLoop]
      split
      · rename_i hnext
        subst hnext
        split
        · rename_i hpart
          intro f hf hkey
          rcases (h.laid.mem_replace_head hmem hpart).mp hf with ⟨hpos, -⟩ | hf
          · -- a write that stops short of its string fills the output
            have hw := r.output.write_snd str
            have hbuf := r.output.buffer_le
            have hbuf' : (r.output.write str).1.buffer.length =
                r.output.buffer.length + (r.output.write str).2 := by
              rw [ByteStream.write_buffer, List.length_append, List.length_take]
              omega
            show (r.output.write str).1.capacity - (r.output.write str).1.buffer.length = 0
            rw [ByteStream.write_capacity, hbuf']
            split at hw
            · omega
            · rw [ByteStream.remainingCapacity] at hw
              omega
          · have := h.laid.after_head hmem f hf
            dsimp only at hkey
            omega
        · exact ih ⟨by simp [h.written], by simpa using h.cap_eq,
            h.laid.erase_head hmem (r.output.write_snd_le_length str)⟩ (SortedMap.erase_head hiter)
      · rename_i hnext
        intro f hf (hkey : f.1 = r.nextAssembledIdx)
        have hf : f ∈ (idx, str) :: es := hiter ▸ hf
        have hsorted := r.unassembleStrs.sorted
        rw [hiter, List.pairwise_cons] at hsorted
        rcases List.mem_cons.mp hf with rfl | hf
        · exact absurd hkey hnext
        · have := hsorted.1 f hf
          dsimp only at this hge
          omega

/-- What every call leaves: strings of the lengths pushed that begin in the window or at its end, at
the next index one alone, and an output that has ended if the end-of-file index was reached. -/
structure Settled (r : StreamReassembler) : Prop extends Shaped r where
  short : Short (2 ^ 63) r.unassembleStrs
  reaches : Reaches (2 ^ 63) r
  sole : ∀ e ∈ r.unassembleStrs.entries, e.1 = r.nextAssembledIdx →
    ∀ f ∈ r.unassembleStrs.entries, f = e
  unreached : r.output.inputEnded = true ∨ r.nextAssembledIdx < r.eofIdx

namespace Settled

variable {r : StreamReassembler}

theorem new (capacity : ℕ) : Settled (StreamReassembler.new capacity) :=
  ⟨Shaped.new capacity, fun _ he => absurd he List.not_mem_nil,
    fun _ he => absurd he List.not_mem_nil, fun _ he => absurd he List.not_mem_nil,
    Or.inr (show 0 < 2 ^ 64 - 1 by decide)⟩

theorem read (h : Settled r) (n : ℕ) : Settled (r.read n).2 :=
  ⟨h.toShaped.read n, h.short, h.reaches.read n, h.sole, h.unreached⟩

theorem setError (h : Settled r) : Settled { r with output := r.output.setError } :=
  ⟨⟨h.written, h.cap_eq, h.laid⟩, h.short, h.reaches, h.sole, h.unreached⟩

theorem push (h : Settled r) {data : Bytes} {index : ℕ} (hdata : data.length < 2 ^ 63)
    (hfit : r.newStart index < r.firstUnacceptableIdx → index + data.length < 2 ^ 64)
    (eof : Bool) : Settled (r.pushSubstring data index eof) := by
  have hshaped := (h.toShaped.push hfit eof).1
  have hreaches := h.reaches.push h.toShaped hdata.le hshaped
  refine ⟨hshaped, h.short.push hdata index eof, hreaches, ?_, ?_⟩
  · have htrimmed : ∀ e ∈ (r.trimmed data index).unassembleStrs.entries,
        e.1 = (r.trimmed data index).nextAssembledIdx →
        ∀ f ∈ (r.trimmed data index).unassembleStrs.entries, f = e := fun e he hkey f hf =>
      h.sole e (trim_sub r data index e he) hkey f (trim_sub r data index f hf)
    unfold pushSubstring at hshaped hreaches ⊢
    rcases r.pushSubstring_cases data index eof with ⟨-, hc⟩ | ⟨-, -, -, hc⟩ |
      ⟨hwindow, hstart, a, ha, -, hc⟩
    · rw [hc]
      exact htrimmed
    · rw [hc]
      exact htrimmed
    · rw [hc] at hshaped hreaches ⊢
      intro e he hkey f hf
      -- the output is full, so the window ends at the next index
      have hfull : a.1.output.remainingCapacity = 0 := by
        rw [ha] at he hkey ⊢
        exact assembleLoop_full _ (h.toShaped.beforeLoop (hfit hwindow) hstart) rfl e he hkey
      have hroom : (a.1.noteEof data index eof).output.remainingCapacity = 0 := by
        rw [noteEof_output]
        split <;> exact hfull
      have hend := hshaped.window_end
      have hf' := (hreaches f hf).1
      have hge := hshaped.laid.start_ge f hf
      rw [hroom, Nat.add_zero] at hend
      rw [windowEnd, ← hend] at hf'
      exact SortedMap.eq_of_key_eq _ hf he (by omega)
  · unfold pushSubstring
    rcases r.pushSubstring_cases data index eof with ⟨-, hc⟩ | ⟨-, -, -, hc⟩ |
      ⟨-, -, a, -, -, hc⟩
    · rw [hc]
      exact h.unreached
    · rw [hc]
      exact h.unreached
    · rw [hc, noteEof_output]
      by_cases hreach : (a.1.noteEof data index eof).eofIdx ≤ a.1.nextAssembledIdx
      · rw [if_pos hreach]
        exact Or.inl rfl
      · exact Or.inr (not_le.mp hreach)

/-- The loop writes the string at the next index, and stops. -/
theorem assembleLoop_of_stored (h : Settled r) {d : Bytes}
    (hmem : (r.nextAssembledIdx, d) ∈ r.unassembleStrs.entries) :
    (assembleLoop r.unassembleStrs.entries r).1.output = (r.output.write d).1 ∧
      (assembleLoop r.unassembleStrs.entries r).1.nextAssembledIdx =
        r.nextAssembledIdx + (r.output.write d).2 := by
  have hsole := h.sole _ hmem rfl
  have hsorted := r.unassembleStrs.sorted
  cases hes : r.unassembleStrs.entries with
  | nil =>
      rw [hes] at hmem
      exact absurd hmem List.not_mem_nil
  | cons e es =>
      rw [hes] at hsole hsorted
      have hnil : es = [] := by
        refine List.eq_nil_iff_forall_not_mem.mpr fun f hf => ?_
        have := (List.pairwise_cons.mp hsorted).1 f hf
        rw [hsole e List.mem_cons_self, hsole f (List.mem_cons_of_mem _ hf)] at this
        exact lt_irrefl _ this
      rw [hnil, hsole e List.mem_cons_self]
      simp only [assembleLoop, if_true]
      split <;> exact ⟨rfl, rfl⟩

/-- The loop writes the string at the next index, if one is stored there, and nothing else. -/
theorem assembleLoop_cases (h : Settled r) :
    (∃ e ∈ r.unassembleStrs.entries, e.1 = r.nextAssembledIdx ∧
      (assembleLoop r.unassembleStrs.entries r).1.output = (r.output.write e.2).1 ∧
      (assembleLoop r.unassembleStrs.entries r).1.nextAssembledIdx =
        e.1 + min e.2.length r.accepts) ∨
    ((∀ e ∈ r.unassembleStrs.entries, e.1 ≠ r.nextAssembledIdx) ∧
      (assembleLoop r.unassembleStrs.entries r).1 = r) := by
  by_cases hstored : ∃ e ∈ r.unassembleStrs.entries, e.1 = r.nextAssembledIdx
  · obtain ⟨⟨k, d⟩, hmem, rfl⟩ := hstored
    obtain ⟨hout, hnext⟩ := h.assembleLoop_of_stored hmem
    rw [write_snd_accepts] at hnext
    exact Or.inl ⟨_, hmem, rfl, hout, hnext⟩
  · have hnone : ∀ e ∈ r.unassembleStrs.entries, e.1 ≠ r.nextAssembledIdx := fun e he hkey =>
      hstored ⟨e, he, hkey⟩
    refine Or.inr ⟨hnone, assembleLoop_of_gap fun e he => ?_⟩
    exact lt_of_le_of_ne (h.laid.start_ge e he) (hnone e he).symm

/-- The new start of a string that does not begin past the next index is that index, or the end of the
string stored there. -/
theorem newStart_near (h : Settled r) (index : ℕ) :
    r.nextAssembledIdx ≤ r.newStart index ∧
      (index < r.nextAssembledIdx → r.newStart index = r.nextAssembledIdx) ∧
      (index = r.nextAssembledIdx → r.newStart index < r.nextAssembledIdx + 2 ^ 63) := by
  rcases newStart_cases h.laid index with ⟨e, he, hle, -, heq⟩ | ⟨-, heq⟩
  · have hge := h.laid.start_ge e he
    have hshort := h.short e he
    omega
  · omega

/-- Whatever the loop writes was stored at the index where it is written. -/
theorem assembleLoop_adds (h : Settled r) :
    ∃ added, (assembleLoop r.unassembleStrs.entries r).1.output.buffer =
        r.output.buffer ++ added ∧
      ∀ i b, added[i]? = some b → ∃ e ∈ r.unassembleStrs.entries,
        e.1 ≤ r.output.bytesWritten + i ∧ e.2[r.output.bytesWritten + i - e.1]? = some b := by
  rcases h.assembleLoop_cases with ⟨e, he, hkey, hwrite, -⟩ | ⟨-, hnothing⟩
  · refine ⟨e.2.take (r.output.write e.2).2, ?_, fun i b hi => ⟨e, he, ?_, ?_⟩⟩
    · rw [hwrite]
      exact ByteStream.write_buffer _ _
    · rw [hkey, ← h.written]
      exact Nat.le_add_right _ _
    · rw [hkey, ← h.written, Nat.add_sub_cancel_left]
      obtain ⟨hlt, hget⟩ := List.getElem?_eq_some_iff.mp hi
      rw [List.getElem_take] at hget
      exact List.getElem?_eq_some_iff.mpr ⟨by rw [List.length_take] at hlt; omega, hget⟩
  · exact ⟨[], by rw [hnothing, List.append_nil], fun i b hi => absurd hi (by simp)⟩

/-- The loop stops before the end of the stream exactly if the string at the next index, as far as it
fits, does not reach it. -/
theorem assembleLoop_before_eof (h : Settled r) (hended : r.output.inputEnded = false) :
    (assembleLoop r.unassembleStrs.entries r).1.nextAssembledIdx < r.eofIdx ↔
      ∀ e ∈ r.unassembleStrs.entries, e.1 = r.nextAssembledIdx →
        e.1 + min e.2.length r.accepts < r.eofIdx := by
  rcases h.assembleLoop_cases with ⟨e, he, hkey, -, hnext⟩ | ⟨hnone, hnothing⟩
  · rw [hnext]
    refine ⟨fun hlt f hf hfk => ?_, fun hall => hall e he hkey⟩
    rwa [h.sole e he hkey f hf]
  · have hunreached := h.unreached.resolve_left (by simp [hended])
    rw [hnothing]
    exact iff_of_true hunreached fun f hf hfk => absurd hfk (hnone f hf)

end Settled

theorem noteEof_buffer (r : StreamReassembler) (data : Bytes) (index : ℕ) (eof : Bool) :
    (r.noteEof data index eof).output.buffer = r.output.buffer := by
  rw [noteEof_output]
  split <;> rfl

/-- The test leaves an open output open if the end-of-file index is not reached. -/
theorem noteEof_open {r : StreamReassembler} (h : r.output.inputEnded = false) (data : Bytes)
    (index : ℕ) (eof : Bool) : (r.noteEof data index eof).output.inputEnded = false ↔
      r.nextAssembledIdx < (r.noteEof data index eof).eofIdx := by
  rw [noteEof_output]
  split
  · rename_i hreach
    exact ⟨fun hno => absurd hno (by simp [ByteStream.endInput]), fun hlt => by omega⟩
  · rename_i hreach
    exact ⟨fun _ => not_le.mp hreach, fun _ => h⟩

/-- A push that ends by the next index and passes the window check runs the last two phases
only. -/
theorem pushSubstring_of_stale {r : StreamReassembler} {data : Bytes} {index : ℕ}
    (hend : index + data.length ≤ r.newStart index) (hfit : index + data.length < 2 ^ 64)
    (hclose : r.newStart index - index ≤ data.length + 2 ^ 63)
    (hwindow : r.newStart index < r.firstUnacceptableIdx) (eof : Bool) :
    r.pushSubstring data index eof =
      (assembleLoop r.unassembleStrs.entries r).1.noteEof data index eof := by
  obtain ⟨htrimmed, hsize⟩ := r.trimmed_eq_of_end_le data index hend hfit hclose
  have hstored : r.stored data index = r := by
    rw [StreamReassembler.stored, if_neg (not_lt.mpr hsize), htrimmed]
  rw [pushSubstring, pushChecked, if_neg (not_le.mpr hwindow),
    if_neg fun hthrow => absurd hthrow.1 (not_lt.mpr hsize), hstored]

/-- A push that ends more than `2 ^ 63` before its new start leaves the output alone: the size of
what is left of it wraps to a positive number, and `substr` throws. -/
theorem pushSubstring_of_far {r : StreamReassembler} {data : Bytes} {index : ℕ}
    (hend : index + data.length + 2 ^ 63 < r.newStart index) (hfit : r.newStart index < 2 ^ 64)
    (eof : Bool) : (r.pushSubstring data index eof).output = r.output := by
  have hsize : (data.length + 2 ^ 64 - (r.newStart index - index)) % 2 ^ 64 < 2 ^ 63 ∧
      0 < (data.length + 2 ^ 64 - (r.newStart index - index)) % 2 ^ 64 ∧
      (r.newStart index + (data.length + 2 ^ 64 - (r.newStart index - index)) % 2 ^ 64) % 2 ^ 64 ≤
        r.newStart index := by omega
  have hpos : 0 < (r.trim data index).dataSize := by
    rw [trim, ssize_of_lt hsize.1, trimLoop_of_end_le]
    · exact Int.natCast_pos.mpr hsize.2.1
    · dsimp only
      omega
  unfold pushSubstring
  rcases r.pushSubstring_cases data index eof with ⟨-, hc⟩ | ⟨-, -, -, hc⟩ | ⟨-, hstart, -⟩
  · rw [hc]
    rfl
  · rw [hc]
    rfl
  · have := hstart hpos
    omega

/-- While the next index is at most `2 ^ 63` no push throws. -/
theorem Settled.not_throws {r : StreamReassembler} (h : Settled r) {data : Bytes} {index : ℕ}
    (hfit : r.newStart index < r.firstUnacceptableIdx → index + data.length < 2 ^ 64)
    (hnext : r.nextAssembledIdx ≤ 2 ^ 63) (eof : Bool) :
    r.pushOutcome data index eof ≠ .throws := by
  unfold pushOutcome
  rcases r.pushSubstring_cases data index eof with ⟨-, hc⟩ | ⟨hwindow, hsize, hpast, -⟩ |
    ⟨-, -, a, -, -, hc⟩
  · rw [hc]
    simp
  · -- what ends before its new start by less than `2 ^ 63` has nothing left
    have hclose : r.newStart index ≤ index + 2 ^ 63 := by
      rcases newStart_cases h.laid index with ⟨e, he, hle, -, heq⟩ | ⟨-, heq⟩
      · have := h.short e he
        omega
      · omega
    obtain ⟨-, hnone⟩ := r.trimmed_eq_of_end_le data index (by omega) (hfit hwindow) (by omega)
    exact absurd hsize (not_lt.mpr hnone)
  · rw [hc]
    dsimp only
    split <;> simp

end StreamReassembler

end CourseNet
