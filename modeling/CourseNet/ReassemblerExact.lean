import CourseNet.ReassemblerEof

/-!
# Exact reassembly under a window-respecting peer

The interval map of the reassembler against the set of indices its pushes covered.  `region` is the
set the stored strings occupy and `known` adds what was written; each phase of `push_substring`
changes `known` by exactly the piece and keeps `_unassembled_bytes_num` at the size of `region`.  As
a window-respecting piece is never rejected, after every call `known` is the union of all pieces,
whatever their order.
-/

namespace CourseNet

namespace StreamReassembler

/-! ### What is known -/

/-- The indices whose bytes the reassembler has: those written and those stored. -/
def known (r : StreamReassembler) : Finset ℕ :=
  Finset.range r.nextAssembledIdx ∪ region r.unassembleStrs

theorem mem_known {r : StreamReassembler} {i : ℕ} :
    i ∈ r.known ↔ i < r.nextAssembledIdx ∨ i ∈ region r.unassembleStrs := by
  rw [known, Finset.mem_union, Finset.mem_range]

/-- Advancing the next index makes an interval known. -/
theorem range_add (n k : ℕ) : Finset.range (n + k) = Finset.range n ∪ Finset.Ico n (n + k) := by
  rw [Finset.range_eq_Ico, Finset.range_eq_Ico,
    Finset.Ico_union_Ico_eq_Ico (Nat.zero_le n) (Nat.le_add_right n k)]

/-! ### Each phase changes what is known by exactly the piece -/

/-- What the new start skips is known. -/
theorem newStart_known {r : StreamReassembler} (h : Laid r.nextAssembledIdx r.unassembleStrs)
    {index i : ℕ} (hle : index ≤ i) (hlt : i < r.newStart index) : i ∈ r.known := by
  rw [mem_known]
  rcases newStart_cases h index with ⟨e, he, hei, -, heq⟩ | ⟨-, heq⟩
  · exact Or.inr (mem_region.mpr ⟨e, he, hei.trans hle, heq ▸ hlt⟩)
  · exact Or.inl (by omega)

/-- The loop takes from the stored strings what it leaves to the piece. -/
theorem trimLoop_region {N newIdx E : ℕ} (iter : List (ℕ × Bytes)) (t : Trim)
    (hm : Laid N t.strs) (hsub : ∀ e ∈ iter, e ∈ t.strs.entries ∧ newIdx ≤ e.1)
    (hsorted : iter.Pairwise fun e f => e.1 < f.1) (hE : newIdx + t.dataSize = E)
    (hfit : E < 2 ^ 64) (hss : t.dataSize < 2 ^ 63) :
    region (trimLoop newIdx iter t).strs ∪
        Finset.Ico newIdx (newIdx + (trimLoop newIdx iter t).dataSize.toNat) =
      region t.strs ∪ Finset.Ico newIdx E := by
  have hstop : Finset.Ico newIdx (newIdx + t.dataSize.toNat) = Finset.Ico newIdx E := by
    by_cases hneg : 0 ≤ t.dataSize
    · rw [show newIdx + t.dataSize.toNat = E by omega]
    · rw [Finset.Ico_eq_empty_of_le (show newIdx + t.dataSize.toNat ≤ newIdx by omega),
        Finset.Ico_eq_empty_of_le (show E ≤ newIdx by omega)]
  induction iter generalizing t with
  | nil => exact congrArg _ hstop
  | cons e es ih =>
      obtain ⟨downIdx, down⟩ := e
      obtain ⟨hmem, hge⟩ := hsub _ List.mem_cons_self
      obtain ⟨hhead, htail⟩ := List.pairwise_cons.mp hsorted
      have hdown := hm.fits _ hmem
      have hpos : ((newIdx + t.dataSize) % 2 ^ 64).toNat = E := by omega
      dsimp only at hdown hge hhead
      simp only [trimLoop, if_pos hge, hpos, Nat.mod_eq_of_lt hdown]
      split
      · rename_i hover
        split
        · -- what is cut off lies inside the entry
          rename_i hcut
          have hss' : ssize (downIdx - newIdx) = (downIdx - newIdx : ℕ) := ssize_of_lt (by omega)
          rw [hss', Int.toNat_natCast]
          ext i
          simp only [Finset.mem_union, Finset.mem_Ico]
          refine ⟨fun hi => hi.imp_right fun hi => by omega, ?_⟩
          rintro (hi | hi)
          · exact Or.inl hi
          · by_cases hin : i < downIdx
            · exact Or.inr (by omega)
            · exact Or.inl (mem_region.mpr ⟨_, hmem, by dsimp only; omega, by dsimp only; omega⟩)
        · rename_i hcover
          have hrest := ih { t with
              strs := t.strs.erase downIdx, bytesNum := t.bytesNum - down.length }
            (hm.sub fun f hf => (SortedMap.mem_erase.mp hf).1)
            (fun f hf => by
              obtain ⟨hf', hfn⟩ := hsub f (List.mem_cons_of_mem _ hf)
              exact ⟨SortedMap.mem_erase.mpr ⟨hf', (hhead f hf).ne'⟩, hfn⟩)
            htail hE hss hstop
          refine hrest.trans ?_
          -- the erased entry lies inside the piece
          rw [region_erase hmem]
          ext i
          simp only [Finset.mem_union, Finset.mem_Ico]
          constructor
          · rintro (hi | hi)
            exacts [Or.inl (Or.inr hi), Or.inr hi]
          · rintro ((hi | hi) | hi)
            exacts [Or.inr (by omega), Or.inl hi, Or.inr hi]
      · exact congrArg _ hstop

/-! ### The store and the assembly loop -/

section Phases

variable {r : StreamReassembler}

/-- What fits the window is written whole. -/
theorem Shaped.write_all (h : Shaped r) (hended : r.output.inputEnded = false)
    (herror : r.output.error = false) {d : Bytes}
    (hroom : r.nextAssembledIdx + d.length ≤ r.output.bytesRead + r.capacity) :
    (r.output.write d).2 = d.length := by
  have hwindow := h.window_end
  rw [ByteStream.write_snd, hended, herror]
  exact min_eq_left (by omega)

theorem storeOrWrite_known (h : Shaped r) {newIdx : ℕ} {nd : Bytes}
    (hc : Clear r.unassembleStrs newIdx nd.length) (hnd : nd ≠ [])
    (hall : newIdx = r.nextAssembledIdx → (r.output.write nd).2 = nd.length) :
    (r.storeOrWrite newIdx nd).known =
      r.known ∪ Finset.Ico newIdx (newIdx + nd.length) := by
  by_cases hnext : newIdx = r.nextAssembledIdx
  · have hfull := hall hnext
    subst hnext
    rw [StreamReassembler.storeOrWrite, if_pos rfl]
    dsimp only
    rw [hfull, if_neg (lt_irrefl _), known, known, range_add, Finset.union_right_comm]
  · rw [StreamReassembler.storeOrWrite, if_neg hnext, known,
      region_insertNew (h.laid.ne_key hc (List.length_pos_iff.mpr hnd)), known,
      Finset.union_assoc, Finset.union_comm (Finset.Ico _ _)]

/-- In a window with room for every entry the loop moves entries from the map to the output until
the first gap. -/
theorem assembleLoop_known (iter : List (ℕ × Bytes)) (h : Shaped r)
    (hiter : r.unassembleStrs.entries = iter) (hended : r.output.inputEnded = false)
    (herror : r.output.error = false)
    (hroom : ∀ e ∈ iter, e.1 + e.2.length ≤ r.output.bytesRead + r.capacity) :
    (assembleLoop iter r).1.known = r.known ∧
      ∀ e ∈ (assembleLoop iter r).1.unassembleStrs.entries,
        (assembleLoop iter r).1.nextAssembledIdx < e.1 := by
  induction iter generalizing r with
  | nil => exact ⟨rfl, fun e he => absurd (hiter ▸ he) List.not_mem_nil⟩
  | cons e es ih =>
      obtain ⟨idx, str⟩ := e
      have hmem : (idx, str) ∈ r.unassembleStrs.entries := hiter ▸ List.mem_cons_self
      have hge := h.laid.start_ge _ hmem
      dsimp only at hge
      by_cases hnext : idx = r.nextAssembledIdx
      · subst hnext
        have hall := h.write_all hended herror (hroom _ List.mem_cons_self)
        have hwritten : (r.output.write str).1.bytesWritten = r.nextAssembledIdx + str.length := by
          rw [ByteStream.write_bytesWritten, h.written, hall]
        simp only [assembleLoop, if_true]
        rw [hall, if_neg (lt_irrefl _)]
        obtain ⟨hknown, hgap⟩ := ih (r := { r with
            output := (r.output.write str).1
            nextAssembledIdx := r.nextAssembledIdx + str.length
            unassembledBytesNum := r.unassembledBytesNum - str.length
            unassembleStrs := r.unassembleStrs.erase r.nextAssembledIdx })
          ⟨hwritten, by simpa using h.cap_eq, h.laid.erase_head hmem (le_refl str.length)⟩
          (SortedMap.erase_head hiter) (by simpa using hended) (by simpa using herror)
          (fun f hf => by simpa using hroom f (List.mem_cons_of_mem _ hf))
        refine ⟨hknown.trans ?_, hgap⟩
        rw [known, known, range_add, Finset.union_assoc, ← region_erase hmem]
      · simp only [assembleLoop, if_neg hnext]
        refine ⟨trivial, fun f hf => ?_⟩
        have hsorted := r.unassembleStrs.sorted
        rw [hiter, List.pairwise_cons] at hsorted
        rw [hiter] at hf
        rcases List.mem_cons.mp hf with rfl | hf
        · dsimp only
          omega
        · have := hsorted.1 f hf
          dsimp only at this
          omega

end Phases

/-! ### One push -/

/-- A push a window-respecting peer may make: a piece of `S` inside the window; an end-of-file mark
stands only at the end of `S`, with window left after it.  A `std::string` is shorter than `2 ^ 63`
bytes. -/
structure Respects (S : Bytes) (r : StreamReassembler) (data : Bytes) (index : ℕ) (eof : Bool) :
    Prop where
  agrees : Excerpt S index data
  length_lt : data.length < 2 ^ 63
  window : index + data.length ≤ r.output.bytesRead + r.capacity
  eof : eof = true → index + data.length = S.length ∧ S.length < r.output.bytesRead + r.capacity

/-- The window ends below `2 ^ 64`, and the piece below the value of `_eof_idx` that stands for no
end-of-file. -/
def Unwrapped (r : StreamReassembler) (data : Bytes) (index : ℕ) : Prop :=
  r.output.bytesRead + r.capacity < 2 ^ 64 ∧ index + data.length < 2 ^ 64 - 1

/-- The reassembler has exactly the bytes at the indices `C`; `E` tells whether an end-of-file mark
was seen. -/
structure Exact (S popped : Bytes) (C : Finset ℕ) (E : Prop) (r : StreamReassembler) : Prop
    extends Assembled S popped r where
  known_eq : r.known = C
  count : r.unassembledBytesNum = (region r.unassembleStrs).card
  gap : ∀ e ∈ r.unassembleStrs.entries, r.nextAssembledIdx < e.1
  window : ∀ i ∈ C, i < r.output.bytesRead + r.capacity
  below : ∀ i ∈ C, i + 1 < 2 ^ 64 - 1
  no_error : r.output.error = false
  eofIdx : (E → r.eofIdx = S.length) ∧ (¬E → r.eofIdx = 2 ^ 64 - 1)
  ended : r.output.inputEnded = true ↔ E ∧ r.nextAssembledIdx = S.length

namespace Exact

variable {S popped data : Bytes} {C : Finset ℕ} {E : Prop} {r s : StreamReassembler} {index : ℕ}
  {eof : Bool}

theorem new (S : Bytes) (capacity : ℕ) :
    Exact S [] ∅ False (StreamReassembler.new capacity) where
  toAssembled := Assembled.new S capacity
  known_eq := rfl
  count := rfl
  gap _ he := absurd he List.not_mem_nil
  window _ hi := absurd hi (Finset.notMem_empty _)
  below _ hi := absurd hi (Finset.notMem_empty _)
  no_error := rfl
  eofIdx := ⟨False.elim, fun _ => rfl⟩
  ended := ⟨fun h => absurd h (by simp [StreamReassembler.new, ByteStream.new]), fun h => h.1.elim⟩

theorem read (h : Exact S popped C E r) (n : ℕ) :
    Exact S (popped ++ (r.read n).1) C E (r.read n).2 where
  toAssembled := ⟨h.next_le, h.wrote.read n, h.cap_eq, h.stored⟩
  known_eq := h.known_eq
  count := h.count
  gap := h.gap
  window i hi := (h.window i hi).trans_le (Nat.add_le_add_right (Nat.le_add_right _ _) _)
  below := h.below
  no_error := h.no_error
  eofIdx := h.eofIdx
  ended := h.ended

theorem marked (h : Exact S popped C E r) : Marked S E r := ⟨h.eofIdx.1, h.eofIdx.2, h.ended⟩

/-- The next index stays below the value that stands for no end-of-file. -/
theorem next_lt (h : r.known = C) (hbelow : ∀ i ∈ C, i + 1 < 2 ^ 64 - 1) :
    r.nextAssembledIdx < 2 ^ 64 - 1 := by
  rcases Nat.eq_zero_or_pos r.nextAssembledIdx with hzero | hpos
  · omega
  · have hmem : r.nextAssembledIdx - 1 ∈ C := h ▸ mem_known.mpr (Or.inl (by omega))
    have := hbelow _ hmem
    omega

/-- The end-of-file test after the loop has made the piece known. -/
theorem noteEof (h : Exact S popped C E r) (hp : Respects S r data index eof)
    (hu : Unwrapped r data index) (hframe : Frame r s) (hs : Assembled S popped s)
    (hknown : s.known = C ∪ Finset.Ico index (index + data.length))
    (hcount : s.unassembledBytesNum = (region s.unassembleStrs).card)
    (hgap : ∀ e ∈ s.unassembleStrs.entries, s.nextAssembledIdx < e.1) :
    Exact S popped (C ∪ Finset.Ico index (index + data.length)) (E ∨ eof = true)
      (s.noteEof data index eof) := by
  have hin : ∀ i ∈ C ∪ Finset.Ico index (index + data.length),
      i < r.output.bytesRead + r.capacity ∧ i + 1 < 2 ^ 64 - 1 := by
    intro i hi
    rcases Finset.mem_union.mp hi with hi | hi
    · exact ⟨h.window i hi, h.below i hi⟩
    · have := Finset.mem_Ico.mp hi
      have := hp.window
      have := hu.2
      omega
  have hlt := next_lt hknown fun i hi => (hin i hi).2
  have hmark : eof = true → (index + data.length) % 2 ^ 64 = S.length := fun heof =>
    (Nat.mod_eq_of_lt (by have := hu.2; omega)).trans (hp.eof heof).1
  have hmarked := h.marked.noteEof hframe hs.next_le hlt hmark
  refine ⟨hs.noteEof data index eof, hknown, hcount, hgap, fun i hi => ?_, fun i hi => (hin i hi).2,
    ?_, ⟨hmarked.heard, hmarked.unheard⟩, hmarked.ended⟩
  · rw [noteEof_bytesRead, hframe.bytesRead]
    exact hframe.capacity ▸ (hin i hi).1
  · rw [noteEof_error, hframe.error]
    exact h.no_error

/-- A piece that ends by its new start brings nothing, and is known. -/
theorem push_known (h : Exact S popped C E r) (hp : Respects S r data index eof)
    (hu : Unwrapped r data index) (hend : index + data.length ≤ r.newStart index) :
    Exact S popped (C ∪ Finset.Ico index (index + data.length)) (E ∨ eof = true)
      (r.pushSubstring data index eof) := by
  have hpiece : C ∪ Finset.Ico index (index + data.length) = C := by
    refine Finset.union_eq_left.mpr fun i hi => ?_
    obtain ⟨hle, hlt⟩ := Finset.mem_Ico.mp hi
    exact h.known_eq ▸ newStart_known h.stored.laid hle (hlt.trans_le hend)
  have htrim : r.trim data index = ⟨r.unassembleStrs,
      ssize ((data.length + 2 ^ 64 - (r.newStart index - index)) % 2 ^ 64),
      r.unassembledBytesNum⟩ := by
    refine trimLoop_of_end_le _ ?_
    obtain ⟨hidx, -, -⟩ := newStart_spec h.stored.laid index
    show ((r.newStart index + ssize _) % 2 ^ 64).toNat ≤ r.newStart index
    unfold ssize
    split <;> omega
  have htrimmed : r.trimmed data index = r := by
    rw [trimmed, htrim]
  -- a mark stands inside the window, where no call ends early
  have hnomark : ∀ k, index + data.length < k → k ≤ r.newStart index → eof = false := by
    intro k hlt hk
    by_contra heof
    obtain ⟨hlen, -⟩ := hp.eof (by simpa using heof)
    have := newStart_le_length h.toAssembled index (by omega)
    omega
  have hskip : eof = false → Exact S popped (C ∪ Finset.Ico index (index + data.length))
      (E ∨ eof = true) r := by
    intro heof
    rw [hpiece, heof]
    simpa using h
  unfold pushSubstring
  rcases r.pushSubstring_cases data index eof with ⟨hlate, hc⟩ | ⟨-, -, hpast, hc⟩ |
    ⟨hearly, hstart, a, ha, -, hc⟩
  · rw [hc, htrimmed]
    refine hskip ?_
    by_contra heof
    have hmark := hp.eof (by simpa using heof)
    have hwindow := firstUnacceptable_eq h.shaped hu.1
    have hwin := h.shaped.window_end
    exact heof (hnomark (r.output.bytesRead + r.capacity) (by omega) (by omega))
  · rw [hc, htrimmed]
    exact hskip (hnomark (r.newStart index) (by omega) (le_refl _))
  · have hstored : r.stored data index = r := by
      unfold StreamReassembler.stored
      split
      · rename_i hsize
        have hlen := hstart hsize
        obtain ⟨hidx, -, -⟩ := newStart_spec h.stored.laid index
        rw [htrim, show data.length + 2 ^ 64 - (r.newStart index - index) = 2 ^ 64 by omega]
          at hsize
        exact absurd (show 0 < ssize (2 ^ 64 % 2 ^ 64) from hsize) (by decide)
      · exact htrimmed
    rw [hstored] at ha
    rw [hc, ha, assembleLoop_of_gap h.gap]
    exact h.noteEof hp hu ⟨rfl, rfl, rfl, rfl, rfl, le_refl _⟩ h.toAssembled
      (hpiece.symm ▸ h.known_eq) h.count h.gap

/-- The trimming loop at its call site. -/
theorem trim_region (h : Exact S popped C E r) (hfit : index + data.length < 2 ^ 64)
    (hlen : data.length < 2 ^ 63) (hstart : r.newStart index - index ≤ data.length) :
    region (r.trim data index).strs ∪ Finset.Ico (r.newStart index)
        (r.newStart index + (r.trim data index).dataSize.toNat) =
      region r.unassembleStrs ∪ Finset.Ico (r.newStart index) (index + data.length) := by
  obtain ⟨hidx, -, -⟩ := newStart_spec h.stored.laid index
  have hsize : (data.length + 2 ^ 64 - (r.newStart index - index)) % 2 ^ 64 =
      data.length - (r.newStart index - index) := by omega
  have hssize := ssize_of_lt (n := data.length - (r.newStart index - index)) (by omega)
  rw [trim, hsize]
  refine trimLoop_region _ _ h.stored.laid (fun e he => SortedMap.mem_lowerBound.mp he)
    (SortedMap.lowerBound_sorted _ _) ?_ hfit (ssize_lt (by omega))
  show (r.newStart index : ℤ) + ssize _ = _
  rw [hssize]
  push_cast
  omega

/-- Before the loop what was known and the piece are known. -/
theorem stored_known (h : Exact S popped C E r) (hp : Respects S r data index eof)
    (hfit : index + data.length < 2 ^ 64) (hopen : r.output.inputEnded = false)
    (hstart : r.newStart index - index ≤ data.length) :
    (r.stored data index).known = C ∪ Finset.Ico index (index + data.length) ∧
      (r.stored data index).unassembledBytesNum =
        (region (r.stored data index).unassembleStrs).card := by
  obtain ⟨hidx, -, -⟩ := newStart_spec h.stored.laid index
  have hregion := h.trim_region hfit hp.length_lt hstart
  have hnum := Counted.trimmed h.count h.stored.laid data index
  have hwin := hp.window
  -- what lies before the new start is known already
  have hunion : r.known ∪ Finset.Ico (r.newStart index) (index + data.length) =
      C ∪ Finset.Ico index (index + data.length) := by
    rw [h.known_eq]
    ext i
    simp only [Finset.mem_union, Finset.mem_Ico]
    refine ⟨fun hi => hi.imp_right fun hi => by omega, fun hi => ?_⟩
    by_cases hlt : i < r.newStart index
    · refine Or.inl (hi.elim id fun hi => ?_)
      exact h.known_eq ▸ newStart_known h.stored.laid hi.1 hlt
    · exact hi.imp_right fun hi => by omega
  have htrimmed : (r.trimmed data index).known ∪ Finset.Ico (r.newStart index)
      (r.newStart index + (r.trim data index).dataSize.toNat) =
      C ∪ Finset.Ico index (index + data.length) := by
    rw [← hunion]
    show Finset.range r.nextAssembledIdx ∪ region (r.trim data index).strs ∪ _ = _
    rw [Finset.union_assoc, hregion, ← Finset.union_assoc]
    rfl
  unfold StreamReassembler.stored
  split
  · rename_i hpos
    obtain ⟨hnil, hnd, hend, hclear⟩ := newData_laid h.stored.laid hfit hpos hstart
    have hshaped := h.shaped.trimmed data index
    have hall : r.newStart index = (r.trimmed data index).nextAssembledIdx →
        ((r.trimmed data index).output.write (r.newData data index)).2 =
          (r.newData data index).length := fun hnext =>
      hshaped.write_all hopen h.no_error
        (show r.nextAssembledIdx + _ ≤ r.output.bytesRead + r.capacity by
          rw [show r.nextAssembledIdx = r.newStart index from hnext.symm]
          omega)
    rw [← htrimmed, ← hnd]
    exact ⟨storeOrWrite_known hshaped hclear hnil hall,
      hnum.storeOrWrite hshaped.laid hclear hnil fun hnext => (hall hnext).ge⟩
  · rename_i hzero
    rw [show (r.trim data index).dataSize.toNat = 0 by omega, Nat.add_zero, Finset.Ico_self,
      Finset.union_empty] at htrimmed
    exact ⟨htrimmed, hnum⟩

/-- A piece that reaches past its new start is trimmed, stored or written, and assembled. -/
theorem push_fresh (h : Exact S popped C E r) (hp : Respects S r data index eof)
    (hu : Unwrapped r data index) (hpast : r.newStart index < index + data.length) :
    Exact S popped (C ∪ Finset.Ico index (index + data.length)) (E ∨ eof = true)
      (r.pushSubstring data index eof) := by
  obtain ⟨hidx, hnext, -⟩ := newStart_spec h.stored.laid index
  have hfit : index + data.length < 2 ^ 64 := by
    have := hu.2
    omega
  have hwin := hp.window
  have hstart : r.newStart index - index ≤ data.length := by omega
  -- new bytes of `S` come only while the output is open
  have hopen : r.output.inputEnded = false := by
    by_contra hended
    obtain ⟨-, heq⟩ := h.ended.mp (by simpa using hended)
    have := hp.agrees.end_le (List.ne_nil_of_length_pos (by omega))
    omega
  obtain ⟨hknown, hcount⟩ := h.stored_known hp hfit hopen hstart
  have hframe := stored_frame r data index
  have hloop := h.toAssembled.beforeLoop hp.agrees hfit fun _ => hstart
  have hended' := hframe.inputEnded.trans hopen
  have herror' := hframe.error.trans h.no_error
  have hroom : ∀ e ∈ (r.stored data index).unassembleStrs.entries, e.1 + e.2.length ≤
      (r.stored data index).output.bytesRead + (r.stored data index).capacity := by
    intro e he
    have hpos := hloop.stored.laid.length_pos he
    have hlast : e.1 + e.2.length - 1 ∈ (r.stored data index).known :=
      mem_known.mpr (Or.inr (mem_region.mpr ⟨e, he, by omega, by omega⟩))
    rw [hframe.bytesRead, hframe.capacity]
    rw [hknown, Finset.mem_union, Finset.mem_Ico] at hlast
    rcases hlast with hlast | hlast
    · have := h.window _ hlast
      omega
    · omega
  obtain ⟨hknown', hgap⟩ := assembleLoop_known _ hloop.shaped rfl hended' herror' hroom
  have hcount' := Counted.assembleLoop _ hcount hloop.shaped rfl hended' herror' fun e he => by
    have hpos := hloop.stored.laid.length_pos he
    have := hroom e he
    omega
  have hwindow : r.newStart index < r.firstUnacceptableIdx := by
    rw [firstUnacceptable_eq h.shaped hu.1, h.shaped.window_end]
    omega
  rw [pushSubstring, pushChecked, if_neg (not_le.mpr hwindow),
    if_neg fun hthrow => absurd hthrow.2 (not_lt.mpr hstart)]
  exact h.noteEof hp hu (hframe.trans (assembleLoop_frame _ _)) (hloop.assembleLoop _ rfl).1
    (hknown'.trans hknown) hcount' hgap

/-- A window-respecting push adds exactly its indices. -/
theorem push (h : Exact S popped C E r) (hp : Respects S r data index eof)
    (hu : Unwrapped r data index) :
    Exact S popped (C ∪ Finset.Ico index (index + data.length)) (E ∨ eof = true)
      (r.pushSubstring data index eof) := by
  by_cases hend : index + data.length ≤ r.newStart index
  · exact h.push_known hp hu hend
  · exact h.push_fresh hp hu (not_le.mp hend)

end Exact

/-! ### Runs -/

/-- The indices a call covers. -/
def Op.cover : Op → Finset ℕ
  | .push data index _ => Finset.Ico index (index + data.length)
  | .read _ => ∅

/-- The union of the pieces pushed. -/
def covered : List Op → Finset ℕ
  | [] => ∅
  | op :: ops => op.cover ∪ covered ops

def Op.isPush : Op → Bool
  | .push _ _ _ => true
  | .read _ => false

theorem mem_covered {ops : List Op} {i : ℕ} : i ∈ covered ops ↔ ∃ op ∈ ops, i ∈ op.cover := by
  induction ops with
  | nil => simp [covered]
  | cons op ops ih => rw [covered, Finset.mem_union, ih, List.exists_mem_cons_iff]

theorem covered_append (ops ops' : List Op) :
    covered (ops ++ ops') = covered ops ∪ covered ops' := by
  ext i
  simp only [Finset.mem_union, mem_covered, List.mem_append, or_and_right, exists_or]

/-- The union of the pieces, and the end-of-file mark, do not depend on the order of the pushes nor
on the reads. -/
theorem covered_perm {ops ops' : List Op}
    (h : (ops.filter Op.isPush).Perm (ops'.filter Op.isPush)) :
    covered ops = covered ops' ∧ (eofSeen ops ↔ eofSeen ops') := by
  have hmem : ∀ data index eof, Op.push data index eof ∈ ops ↔ Op.push data index eof ∈ ops' := by
    intro data index eof
    have := h.mem_iff (a := Op.push data index eof)
    simpa [Op.isPush] using this
  constructor
  · ext i
    rw [mem_covered, mem_covered]
    constructor
    · rintro ⟨op, hop, hi⟩
      cases op with
      | push data index eof => exact ⟨_, (hmem data index eof).mp hop, hi⟩
      | read len => exact absurd hi (Finset.notMem_empty i)
    · rintro ⟨op, hop, hi⟩
      cases op with
      | push data index eof => exact ⟨_, (hmem data index eof).mpr hop, hi⟩
      | read len => exact absurd hi (Finset.notMem_empty i)
  · exact exists_congr fun data => exists_congr fun index => hmem data index true

/-- The call is one a window-respecting peer may make. -/
def Op.Respects (S : Bytes) (r : StreamReassembler) : Op → Prop
  | .push data index eof => StreamReassembler.Respects S r data index eof
  | .read _ => True

/-- The call meets an index arithmetic that does not wrap. -/
def Op.Unwrapped (r : StreamReassembler) : Op → Prop
  | .push data index _ => StreamReassembler.Unwrapped r data index
  | .read _ => True

instance (S : Bytes) (r : StreamReassembler) (data : Bytes) (index : ℕ) (eof : Bool) :
    Decidable (Respects S r data index eof) :=
  decidable_of_iff (Excerpt S index data ∧ data.length < 2 ^ 63 ∧
      index + data.length ≤ r.output.bytesRead + r.capacity ∧
      (eof = true → index + data.length = S.length ∧ S.length < r.output.bytesRead + r.capacity))
    ⟨fun ⟨h₁, h₂, h₃, h₄⟩ => ⟨h₁, h₂, h₃, h₄⟩, fun h => ⟨h.1, h.2, h.3, h.4⟩⟩

instance (r : StreamReassembler) (data : Bytes) (index : ℕ) :
    Decidable (Unwrapped r data index) := inferInstanceAs (Decidable (_ ∧ _))

instance (S : Bytes) (r : StreamReassembler) : DecidablePred (Op.Respects S r)
  | .push _ _ _ => inferInstanceAs (Decidable (StreamReassembler.Respects _ _ _ _ _))
  | .read _ => isTrue trivial

instance (r : StreamReassembler) : DecidablePred (Op.Unwrapped r)
  | .push _ _ _ => inferInstanceAs (Decidable (StreamReassembler.Unwrapped _ _ _))
  | .read _ => isTrue trivial

/-- The run a window-respecting peer makes. -/
def RespectsWindow (S : Bytes) (capacity : ℕ) (ops : List Op) : Prop :=
  StepSystem.Guarded Run.step (fun s op => op.Respects S s.reasm) (Run.new capacity) ops

/-- No call of the run meets a window that wraps around. -/
def NeverWraps (capacity : ℕ) (ops : List Op) : Prop :=
  StepSystem.Guarded Run.step (fun s op => op.Unwrapped s.reasm) (Run.new capacity) ops

instance (S : Bytes) (capacity : ℕ) (ops : List Op) : Decidable (RespectsWindow S capacity ops) :=
  inferInstanceAs (Decidable (StepSystem.Guarded _ _ _ _))

instance (capacity : ℕ) (ops : List Op) : Decidable (NeverWraps capacity ops) :=
  inferInstanceAs (Decidable (StepSystem.Guarded _ _ _ _))

theorem Exact.step {S : Bytes} {C : Finset ℕ} {E : Prop} {s : Run}
    (h : Exact S s.popped C E s.reasm) {op : Op} (hp : op.Respects S s.reasm)
    (hu : op.Unwrapped s.reasm) :
    Exact S (s.step op).popped (C ∪ op.cover) (E ∨ eofSeen [op]) (s.step op).reasm := by
  cases op with
  | push data index eof =>
      rw [eofSeen_push]
      exact h.push hp hu
  | read len =>
      rw [Op.cover, Finset.union_empty, or_iff_left (not_eofSeen_read len)]
      exact h.read len

/-- After every run the reassembler has exactly the union of the pieces. -/
theorem Exact.run {S : Bytes} {capacity : ℕ} {ops : List Op}
    (hp : RespectsWindow S capacity ops) (hu : NeverWraps capacity ops) :
    Exact S (StepSystem.run Run.step (Run.new capacity) ops).popped (covered ops) (eofSeen ops)
      (StepSystem.run Run.step (Run.new capacity) ops).reasm := by
  induction ops using List.reverseRecOn with
  | nil =>
      have hnone : eofSeen [] ↔ False := by simp [eofSeen]
      rw [hnone]
      exact Exact.new S capacity
  | append_singleton ops op ih =>
      rw [RespectsWindow, StepSystem.Guarded.snoc_iff] at hp
      rw [NeverWraps, StepSystem.Guarded.snoc_iff] at hu
      rw [StepSystem.run_snoc, covered_append, eofSeen_append, covered, covered, Finset.union_empty]
      exact (ih hp.1 hu.1).step hp.2 hu.2

/-- The lengths of an exact state in terms of the covered indices. -/
theorem Exact.observed {S popped : Bytes} {C : Finset ℕ} {E : Prop} {r : StreamReassembler}
    (h : Exact S popped C E r) :
    IsLeast {i | i ∉ C} r.output.bytesWritten ∧
      r.unassembledBytes + r.output.bytesWritten = C.card ∧
      (r.output.inputEnded = true ↔ E ∧ Finset.range S.length ⊆ C) := by
  have hnotin : r.nextAssembledIdx ∉ C := by
    rw [← h.known_eq, mem_known]
    rintro (hlt | hmem)
    · exact lt_irrefl _ hlt
    · obtain ⟨e, he, hle, -⟩ := mem_region.mp hmem
      exact absurd (h.gap e he) (not_lt.mpr hle)
  have hbelow : ∀ i, i < r.nextAssembledIdx → i ∈ C := fun i hi =>
    h.known_eq ▸ mem_known.mpr (Or.inl hi)
  rw [h.bytesWritten_eq]
  refine ⟨⟨hnotin, fun i hi => not_lt.mp fun hlt => hi (hbelow i hlt)⟩, ?_, ?_⟩
  · have hdisj : Disjoint (Finset.range r.nextAssembledIdx) (region r.unassembleStrs) := by
      rw [Finset.disjoint_left]
      intro i hi hi'
      obtain ⟨e, he, hle, -⟩ := mem_region.mp hi'
      have := h.gap e he
      have := Finset.mem_range.mp hi
      omega
    rw [← h.known_eq, known, Finset.card_union_of_disjoint hdisj, Finset.card_range,
      unassembledBytes, h.count, Nat.add_comm]
  · rw [h.ended]
    refine and_congr_right fun _ => ⟨fun heq i hi => ?_, fun hsub => ?_⟩
    · exact hbelow i (heq ▸ Finset.mem_range.mp hi)
    · refine h.next_le.antisymm (not_lt.mp fun hlt => ?_)
      exact hnotin (hsub (Finset.mem_range.mpr hlt))

/-- **Exact reassembly.**  In a run of a window-respecting peer in which no window wraps around,
after every call `bytes_written` is the least index that no piece covers, `unassembled_bytes()` is
the number of covered indices beyond it, and the output has ended if and only if an end-of-file
flagged push occurred and all of `S` is covered.  Two such runs with the same pushes in different
orders end in the same observable state. -/
theorem exact_reassembly (S : Bytes) (capacity : ℕ) :
    (∀ ops, RespectsWindow S capacity ops → NeverWraps capacity ops →
      let r := (StepSystem.run Run.step (Run.new capacity) ops).reasm
      IsLeast {i | i ∉ covered ops} r.output.bytesWritten ∧
        r.unassembledBytes + r.output.bytesWritten = (covered ops).card ∧
        (r.output.inputEnded = true ↔ eofSeen ops ∧ Finset.range S.length ⊆ covered ops)) ∧
    ∀ ops ops', RespectsWindow S capacity ops → NeverWraps capacity ops →
      RespectsWindow S capacity ops' → NeverWraps capacity ops' →
      (ops.filter Op.isPush).Perm (ops'.filter Op.isPush) →
      let s := StepSystem.run Run.step (Run.new capacity) ops
      let s' := StepSystem.run Run.step (Run.new capacity) ops'
      s.reasm.output.bytesWritten = s'.reasm.output.bytesWritten ∧
        s.reasm.unassembledBytes = s'.reasm.unassembledBytes ∧
        s.reasm.output.inputEnded = s'.reasm.output.inputEnded ∧ s.written = s'.written := by
  refine ⟨fun ops hp hu => (Exact.run hp hu).observed, fun ops ops' hp hu hp' hu' hperm => ?_⟩
  have h := Exact.run hp hu
  have h' := Exact.run hp' hu'
  obtain ⟨hcover, hseen⟩ := covered_perm hperm
  obtain ⟨hleast, hcard, hended⟩ := h.observed
  obtain ⟨hleast', hcard', hended'⟩ := h'.observed
  rw [← hcover] at hleast' hcard' hended'
  have hwritten := hleast.unique hleast'
  refine ⟨hwritten, by omega, ?_, ?_⟩
  · rw [Bool.eq_iff_iff, hended, hended', hseen]
  · have hnext := hwritten
    rw [h.bytesWritten_eq, h'.bytesWritten_eq] at hnext
    exact h.wrote.1.trans ((congrArg S.take hnext).trans h'.wrote.1.symm)

/-- Two overlapping pieces of `[1, 2, 3]` through a window of four bytes, in both orders. -/
theorem exact_reassembly_overlap :
    let ops := [.push [2, 3] 1 true, .read 1, .push [1, 2] 0 false]
    let ops' := [.push [1, 2] 0 false, .push [2, 3] 1 true]
    let s := StepSystem.run Run.step (Run.new 4) ops
    let s' := StepSystem.run Run.step (Run.new 4) ops'
    (RespectsWindow [1, 2, 3] 4 ops ∧ NeverWraps 4 ops ∧ RespectsWindow [1, 2, 3] 4 ops' ∧
        NeverWraps 4 ops' ∧ (ops.filter Op.isPush).Perm (ops'.filter Op.isPush)) ∧
      IsLeast {i | i ∉ covered ops} s.reasm.output.bytesWritten ∧ s.written = s'.written := by
  have hp : RespectsWindow [1, 2, 3] 4 [.push [2, 3] 1 true, .read 1, .push [1, 2] 0 false] := by
    decide +kernel
  have hu : NeverWraps 4 [.push [2, 3] 1 true, .read 1, .push [1, 2] 0 false] := by decide +kernel
  have hp' : RespectsWindow [1, 2, 3] 4 [.push [1, 2] 0 false, .push [2, 3] 1 true] := by
    decide +kernel
  have hu' : NeverWraps 4 [.push [1, 2] 0 false, .push [2, 3] 1 true] := by decide +kernel
  obtain ⟨hrun, horder⟩ := exact_reassembly [1, 2, 3] 4
  exact ⟨⟨hp, hu, hp', hu', List.Perm.swap _ _ _⟩, (hrun _ hp hu).1,
    (horder _ _ hp hu hp' hu' (List.Perm.swap _ _ _)).2.2.2⟩

/-- With the largest capacity one byte read makes the window wrap around: the push of the second
byte of `[1, 2]` is dropped, and index 1 stays unwritten although it is covered. -/
theorem exact_reassembly_wraps :
    let ops := [.push [1] 0 false, .read 1, .push [2] 1 false]
    let r := (StepSystem.run Run.step (Run.new (2 ^ 64 - 1)) ops).reasm
    RespectsWindow [1, 2] (2 ^ 64 - 1) ops ∧ r.output.bytesWritten = 1 ∧ 1 ∈ covered ops ∧
      ¬IsLeast {i | i ∉ covered ops} r.output.bytesWritten := by
  intro ops r
  have hcovered : 1 ∈ covered ops := by decide +kernel
  have hwritten : r.output.bytesWritten = 1 := by decide +kernel
  refine ⟨by decide +kernel, hwritten, hcovered, fun hleast => ?_⟩
  exact hleast.1 (hwritten ▸ hcovered)

end StreamReassembler

end CourseNet
