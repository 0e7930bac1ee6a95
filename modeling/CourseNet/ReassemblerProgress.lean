import CourseNet.ReassemblerSafety

/-!
# Runs of the reassembler: progress

A push that covers the next needed index should write at least that byte when the output is open and
has room.  It does, unless the push starts exactly there and the leftover of an earlier over-long
push is stored at the same index and fills the whole window: then the new start is moved past the
leftover, the window check returns, and the assembly loop that would write the leftover is never
reached.
-/

namespace CourseNet

namespace StreamReassembler

/-! ### The assembly loop writes what is stored at the next index -/

theorem assembleLoop_progress {r : StreamReassembler} {d : Bytes}
    (h : Shaped r) (hmem : (r.nextAssembledIdx, d) ∈ r.unassembleStrs.entries)
    (hended : r.output.inputEnded = false) (herror : r.output.error = false)
    (hroom : 0 < r.output.remainingCapacity) :
    r.nextAssembledIdx < (assembleLoop r.unassembleStrs.entries r).1.nextAssembledIdx := by
  cases hes : r.unassembleStrs.entries with
  | nil =>
      rw [hes] at hmem
      exact absurd hmem List.not_mem_nil
  | cons e es =>
      obtain ⟨idx, str⟩ := e
      have hsorted := r.unassembleStrs.sorted
      have hhead : (idx, str) ∈ r.unassembleStrs.entries := hes ▸ List.mem_cons_self
      -- the entry at the next index is the first one
      have hkey : (idx, str) = (r.nextAssembledIdx, d) := by
        have hge := h.laid.start_ge _ hhead
        rw [hes, List.pairwise_cons] at hsorted
        rw [hes] at hmem
        rcases List.mem_cons.mp hmem with heq | htail
        · exact heq.symm
        · have := hsorted.1 _ htail
          dsimp only at hge this
          omega
      obtain ⟨rfl, rfl⟩ := Prod.mk.inj hkey
      have hpos := ByteStream.write_snd_pos hended herror hroom (h.laid.nonempty _ hmem)
      simp only [assembleLoop, if_true]
      split
      · exact Nat.lt_add_of_pos_right hpos
      · have hframe := assembleLoop_frame es
          { r with
              output := (r.output.write str).1
              nextAssembledIdx := r.nextAssembledIdx + (r.output.write str).2
              unassembledBytesNum := r.unassembledBytesNum - str.length
              unassembleStrs := r.unassembleStrs.erase r.nextAssembledIdx }
        exact lt_of_lt_of_le (Nat.lt_add_of_pos_right hpos) hframe.next_le

/-! ### Lengths of the stored strings -/

/-- Every stored string is shorter than `B`. -/
def Short (B : ℕ) (m : SortedMap ℕ Bytes) : Prop := ∀ e ∈ m.entries, e.2.length < B

theorem Short.push {B : ℕ} {r : StreamReassembler} (h : Short B r.unassembleStrs) {data : Bytes}
    (hdata : data.length < B) (index : ℕ) (eof : Bool) :
    Short B (r.pushSubstring data index eof).unassembleStrs := by
  refine pushSubstring_entries (Q := fun e => e.2.length < B) (fun k d w hd _ _ => ?_) h eof
    (fun _ _ _ => ?_) (le_refl _)
  · dsimp only at hd ⊢
    rw [List.length_drop]
    omega
  · rw [newData, List.length_take, List.length_drop]
    omega

/-! ### A push that covers the next index -/

/-- A substring that ends by its new start leaves the loop nothing to do. -/
theorem trimLoop_of_end_le {newIdx : ℕ} (iter : List (ℕ × Bytes)) {t : Trim}
    (hend : ((newIdx + t.dataSize) % 2 ^ 64).toNat ≤ newIdx) : trimLoop newIdx iter t = t := by
  cases iter with
  | nil => rfl
  | cons e es =>
      obtain ⟨downIdx, down⟩ := e
      simp only [trimLoop]
      split
      · rw [if_neg (by omega)]
      · rfl

theorem trimmed_eq_of_end_le (r : StreamReassembler) (data : Bytes) (index : ℕ)
    (hend : index + data.length ≤ r.newStart index) (hfit : index + data.length < 2 ^ 64)
    (hclose : r.newStart index - index ≤ data.length + 2 ^ 63) :
    r.trimmed data index = r ∧ (r.trim data index).dataSize ≤ 0 := by
  have hsize : ssize ((data.length + 2 ^ 64 - (r.newStart index - index)) % 2 ^ 64) ≤ 0 ∧
      ((r.newStart index + ssize ((data.length + 2 ^ 64 - (r.newStart index - index)) % 2 ^ 64))
        % 2 ^ 64).toNat ≤ r.newStart index := by
    unfold ssize
    split <;> omega
  have htrim : r.trim data index = ⟨r.unassembleStrs,
      ssize ((data.length + 2 ^ 64 - (r.newStart index - index)) % 2 ^ 64),
      r.unassembledBytesNum⟩ := trimLoop_of_end_le _ hsize.2
  rw [trimmed, htrim]
  exact ⟨rfl, hsize.1⟩

/-- A push of a piece of a stream that is shorter than `2 ^ 63` does not throw. -/
theorem Consistent.not_throws {S popped data : Bytes} {E : Prop} {r : StreamReassembler} {index : ℕ}
    {eof : Bool} (h : Consistent S E popped r) (hS : S.length < 2 ^ 63)
    (hpiece : Piece S E data index eof) : r.pushOutcome data index eof ≠ .throws := by
  have hstart : r.newStart index ≤ max index S.length := by
    have hnext := h.next_le
    rcases newStart_cases h.stored.laid index with ⟨e, he, -, -, heq⟩ | ⟨-, heq⟩
    · have hend := (h.stored.agrees e he).end_le (h.stored.nonempty e he)
      omega
    · omega
  have hfits := hpiece.fits
  unfold pushOutcome
  rcases r.pushSubstring_cases data index eof with ⟨-, hc⟩ | ⟨-, hsize, hpast, -⟩ |
    ⟨-, -, a, -, -, hc⟩
  · rw [hc]
    simp
  · obtain ⟨-, hnone⟩ := r.trimmed_eq_of_end_le data index (by omega) hfits (by omega)
    exact absurd hsize (not_lt.mpr hnone)
  · rw [hc]
    dsimp only
    split <;> simp

section Progress

variable {data : Bytes} {r : StreamReassembler} {index : ℕ}

/-- The window check compares with the end of the window as the reader sees it, modulo `2 ^ 64`. -/
theorem firstUnacceptable_mod (h : Shaped r) :
    r.firstUnacceptableIdx = (r.output.bytesRead + r.capacity) % 2 ^ 64 := by
  have hacc := r.output.accounting
  rw [h.written] at hacc
  rw [firstUnacceptableIdx, ByteStream.bufferSize]
  congr 1
  omega

/-- The window check compares with the first index past the window, if that did not wrap. -/
theorem firstUnacceptable_eq (h : Shaped r) (hwrap : r.output.bytesRead + r.capacity < 2 ^ 64) :
    r.firstUnacceptableIdx = r.nextAssembledIdx + r.output.remainingCapacity := by
  rw [firstUnacceptable_mod h, Nat.mod_eq_of_lt hwrap, h.window_end]

/-- What the store leaves for the loop: the next index has moved, or an entry sits at it. -/
def Ready (r s : StreamReassembler) : Prop :=
  r.nextAssembledIdx < s.nextAssembledIdx ∨
    (s.nextAssembledIdx = r.nextAssembledIdx ∧ s.output = r.output ∧
      ∃ d, (r.nextAssembledIdx, d) ∈ s.unassembleStrs.entries)

/-- The leftover at the next index survives the trimming and the store. -/
theorem ready_of_leftover (h : Shaped r) (hshort : Short (2 ^ 63) r.unassembleStrs)
    (hfit : r.nextAssembledIdx + data.length < 2 ^ 64) {d : Bytes}
    (hmem : (r.nextAssembledIdx, d) ∈ r.unassembleStrs.entries) :
    (0 < (r.trim data r.nextAssembledIdx).dataSize →
      r.newStart r.nextAssembledIdx - r.nextAssembledIdx ≤ data.length) ∧
    Ready r (r.stored data r.nextAssembledIdx) := by
  have hstart := newStart_of_stored h.laid hmem
  have hd := hshort _ hmem
  have hpos := h.laid.length_pos hmem
  dsimp only at hd hpos
  rcases Nat.lt_or_ge d.length data.length with hlt | hge
  · refine ⟨fun _ => by omega, Or.inr ?_⟩
    have hkeep := (trim_spec h.laid hfit (by omega)).below _ hmem (by dsimp only; omega)
    unfold StreamReassembler.stored
    split
    · have hne : ¬r.newStart r.nextAssembledIdx = 
            (r.trimmed data r.nextAssembledIdx).nextAssembledIdx :=
        show ¬r.newStart r.nextAssembledIdx = r.nextAssembledIdx by omega
      rw [StreamReassembler.storeOrWrite, if_neg hne]
      exact ⟨rfl, rfl, d, SortedMap.mem_insertNew_of_mem hkeep⟩
    · exact ⟨rfl, rfl, d, hkeep⟩
  · obtain ⟨htrimmed, hsize⟩ := r.trimmed_eq_of_end_le data r.nextAssembledIdx (by omega) hfit
      (by omega)
    refine ⟨fun hpos' => absurd hpos' (by omega), Or.inr ?_⟩
    rw [StreamReassembler.stored, if_neg (by omega), htrimmed]
    exact ⟨rfl, rfl, d, hmem⟩

/-- Without a leftover at the next index the push writes its own bytes, or gives way to an entry
that starts there. -/
theorem ready_of_fresh (h : Shaped r) (hfit : index + data.length < 2 ^ 64) (hdata : data.length < 2 ^ 63)
    (hle : index ≤ r.nextAssembledIdx) (hlt : r.nextAssembledIdx < index + data.length)
    (hstart : r.newStart index = r.nextAssembledIdx) (hended : r.output.inputEnded = false)
    (herror : r.output.error = false) (hroom : 0 < r.output.remainingCapacity) :
    r.newStart index - index ≤ data.length ∧ Ready r (r.stored data index) := by
  have hbefore : r.newStart index - index ≤ data.length := by omega
  have ht := trim_spec h.laid hfit hbefore
  refine ⟨hbefore, ?_⟩
  unfold StreamReassembler.stored
  split
  · rename_i hsize
    obtain ⟨hne, -, -, -⟩ := newData_laid h.laid hfit hsize hbefore
    have hpos := ByteStream.write_snd_pos hended herror hroom hne
    left
    rw [hstart, StreamReassembler.storeOrWrite,
      if_pos (show r.nextAssembledIdx = (r.trimmed data index).nextAssembledIdx from rfl)]
    dsimp only
    split <;> exact Nat.lt_add_of_pos_right hpos
  · rename_i hsize
    have hsize₀ := ssize_of_lt (n := data.length - (r.newStart index - index)) (by omega)
    obtain ⟨⟨k, d⟩, hmem, hk⟩ := ht.vanish (show 0 < ssize _ by omega) (by omega)
    dsimp only at hk
    rw [hk, hstart] at hmem
    exact Or.inr ⟨rfl, rfl, d, hmem⟩

/-- From a ready state the loop writes. -/
theorem Ready.assembleLoop {s : StreamReassembler} (hr : Ready r s) (hs : Shaped s)
    (hended : r.output.inputEnded = false) (herror : r.output.error = false)
    (hroom : 0 < r.output.remainingCapacity) :
    r.nextAssembledIdx <
      (StreamReassembler.assembleLoop s.unassembleStrs.entries s).1.nextAssembledIdx := by
  rcases hr with hlt | ⟨hnext, hout, d, hmem⟩
  · exact hlt.trans_le (assembleLoop_frame _ _).next_le
  · rw [← hnext] at hmem ⊢
    rw [← hout] at hended herror hroom
    exact assembleLoop_progress hs hmem hended herror hroom

/-- Unless the window wraps or a leftover fills it, a push passes the window check, does not throw,
and readies the loop. -/
theorem ready_of_push (h : Shaped r) (hshort : Short (2 ^ 63) r.unassembleStrs)
    (hfit : index + data.length < 2 ^ 64)
    (hdata : data.length < 2 ^ 63) (hle : index ≤ r.nextAssembledIdx)
    (hlt : r.nextAssembledIdx < index + data.length) (hended : r.output.inputEnded = false)
    (herror : r.output.error = false) (hroom : 0 < r.output.remainingCapacity)
    (hwrap : r.output.bytesRead + r.capacity < 2 ^ 64)
    (hfree : ¬(index = r.nextAssembledIdx ∧ ∃ d, (index, d) ∈ r.unassembleStrs.entries ∧
      r.output.remainingCapacity ≤ d.length)) :
    r.newStart index < r.firstUnacceptableIdx ∧
      (0 < (r.trim data index).dataSize → r.newStart index - index ≤ data.length) ∧
      Ready r (r.stored data index) := by
  have hwindow := firstUnacceptable_eq h hwrap
  by_cases hstored : index = r.nextAssembledIdx ∧
      ∃ d, (r.nextAssembledIdx, d) ∈ r.unassembleStrs.entries
  · obtain ⟨rfl, d, hmem⟩ := hstored
    have hroom' : d.length < r.output.remainingCapacity :=
      not_le.mp fun hlong => hfree ⟨rfl, d, hmem, hlong⟩
    have hstart := newStart_of_stored h.laid hmem
    obtain ⟨hbefore, hr⟩ := ready_of_leftover h hshort hfit hmem
    exact ⟨by omega, hbefore, hr⟩
  · have hstart := newStart_eq_next h.laid hle fun heq e he hk =>
      hstored ⟨heq, e.2, by rw [← heq, ← hk]; exact he⟩
    obtain ⟨hbefore, hr⟩ := ready_of_fresh h hfit hdata hle hlt hstart hended herror hroom
    exact ⟨by omega, fun _ => hbefore, hr⟩

/-- A push that writes has passed the window check, so the window does not wrap. -/
theorem window_of_progress (h : Shaped r) (hcap : r.capacity < 2 ^ 64) {eof : Bool}
    (hprog : r.nextAssembledIdx < (r.pushSubstring data index eof).nextAssembledIdx) :
    r.newStart index < r.firstUnacceptableIdx ∧ r.output.bytesRead + r.capacity < 2 ^ 64 := by
  have hwindow : r.newStart index < r.firstUnacceptableIdx := by
    by_contra hlate
    rw [pushSubstring, pushChecked, if_pos (not_lt.mp hlate)] at hprog
    exact lt_irrefl _ hprog
  refine ⟨hwindow, ?_⟩
  by_contra hover
  obtain ⟨-, hge, -⟩ := newStart_spec h.laid index
  have hacc := r.output.accounting
  rw [h.written] at hacc
  rw [firstUnacceptable_mod h] at hwindow
  omega

/-- One push that covers the next index, from any state that agrees with `S`. -/
theorem push_progress (h : Shaped r) (hshort : Short (2 ^ 63) r.unassembleStrs)
    (hcap : r.capacity < 2 ^ 64) (hfit : index + data.length < 2 ^ 64)
    (hdata : data.length < 2 ^ 63) (eof : Bool)
    (hle : index ≤ r.nextAssembledIdx) (hlt : r.nextAssembledIdx < index + data.length)
    (hended : r.output.inputEnded = false) (herror : r.output.error = false)
    (hroom : 0 < r.output.remainingCapacity) :
    r.nextAssembledIdx < (r.pushSubstring data index eof).nextAssembledIdx ↔
      r.output.bytesRead + r.capacity < 2 ^ 64 ∧
        ¬(index = r.nextAssembledIdx ∧ ∃ d, (index, d) ∈ r.unassembleStrs.entries ∧
          r.output.remainingCapacity ≤ d.length) := by
  constructor
  · intro hprog
    obtain ⟨hwindow, hwrap⟩ := window_of_progress h hcap hprog
    refine ⟨hwrap, ?_⟩
    rintro ⟨rfl, d, hmem, hlong⟩
    rw [firstUnacceptable_eq h hwrap, newStart_of_stored h.laid hmem] at hwindow
    omega
  · rintro ⟨hwrap, hfree⟩
    obtain ⟨hpass, hbefore, hr⟩ :=
      ready_of_push h hshort hfit hdata hle hlt hended herror hroom hwrap hfree
    rw [pushSubstring, pushChecked, if_neg (by omega), if_neg (by omega)]
    exact hr.assembleLoop (h.beforeLoop hfit hbefore) hended herror hroom

end Progress

/-! ### Runs -/

/-- A call of a run that agrees with `S`.  A `std::string` is shorter than `2 ^ 63` bytes. -/
def Op.Follows (S : Bytes) : Op → Prop
  | .push data index _ =>
      Excerpt S index data ∧ index + data.length < 2 ^ 64 ∧ data.length < 2 ^ 63
  | .read _ => True

instance (S : Bytes) : DecidablePred (Op.Follows S)
  | .push _ _ _ => inferInstanceAs (Decidable (_ ∧ _ ∧ _))
  | .read _ => isTrue trivial

/-- What a run that follows `S` keeps, whatever its end-of-file marks. -/
structure Run.Follows (S : Bytes) (capacity : ℕ) (s : Run) : Prop where
  assembled : Assembled S s.popped s.reasm
  short : Short (2 ^ 63) s.reasm.unassembleStrs
  capacity_eq : s.reasm.capacity = capacity

theorem Run.Follows.new (S : Bytes) (capacity : ℕ) : (Run.new capacity).Follows S capacity :=
  ⟨Assembled.new S capacity, fun _ he => absurd he List.not_mem_nil, rfl⟩

theorem Run.Follows.step {S : Bytes} {capacity : ℕ} {s : Run} (h : s.Follows S capacity) {op : Op}
    (hop : op.Follows S) : (s.step op).Follows S capacity := by
  cases op with
  | push data index eof =>
      obtain ⟨hS, hfit, hdata⟩ := hop
      exact ⟨(h.assembled.push hS hfit eof).1, h.short.push hdata index eof,
        (pushSubstring_frame s.reasm data index eof).capacity.trans h.capacity_eq⟩
  | read len =>
      exact ⟨⟨h.assembled.next_le, h.assembled.wrote.read len, h.assembled.cap_eq,
        h.assembled.stored⟩, h.short, h.capacity_eq⟩

theorem Run.Follows.run {S : Bytes} (capacity : ℕ) {ops : List Op}
    (hops : ∀ op ∈ ops, op.Follows S) :
    (StepSystem.run Run.step (Run.new capacity) ops).Follows S capacity := by
  induction ops using List.reverseRecOn with
  | nil => exact Run.Follows.new S capacity
  | append_singleton ops op ih =>
      rw [StepSystem.run_snoc]
      exact (ih fun o ho => hops o (List.mem_append_left _ ho)).step (hops op (by simp))

/-- **Reassembler progress.**  In every state a run can reach, a push that covers the next needed
index `_bytes_written` of an open output with room writes to it if and only if the window does not
wrap around and it is not the case that the push starts at that index where a leftover as long as
the remaining capacity is stored. -/
theorem push_progress_iff (S : Bytes) (capacity : ℕ) (hcap : capacity < 2 ^ 64) (ops : List Op)
    (hops : ∀ op ∈ ops, op.Follows S) (data : Bytes) (index : ℕ) (eof : Bool)
    (hop : (Op.push data index eof).Follows S) (r : StreamReassembler)
    (hr : r = (StepSystem.run Run.step (Run.new capacity) ops).reasm)
    (hle : index ≤ r.output.bytesWritten) (hlt : r.output.bytesWritten < index + data.length)
    (hroom : 0 < r.output.remainingCapacity) (hended : r.output.inputEnded = false)
    (herror : r.output.error = false) :
    r.output.bytesWritten < (r.pushSubstring data index eof).output.bytesWritten ↔
      r.output.bytesRead + capacity < 2 ^ 64 ∧
        ¬(index = r.output.bytesWritten ∧ ∃ d, (index, d) ∈ r.unassembleStrs.entries ∧
          r.output.remainingCapacity ≤ d.length) := by
  obtain ⟨hS, hfit, hdata⟩ := hop
  obtain ⟨hasm, hshort, hcapeq⟩ := Run.Follows.run capacity hops
  rw [← hr] at hasm hshort hcapeq
  have hafter := (hasm.push hS hfit eof).1.bytesWritten_eq
  rw [hasm.bytesWritten_eq] at hle hlt ⊢
  rw [hafter, ← hcapeq]
  exact push_progress hasm.shaped hshort (by omega) hfit hdata eof hle hlt hended herror hroom

/-- Two bytes of window and an out-of-order tail: the push that fills the gap writes. -/
theorem push_progress_iff_gap :
    let r := (StepSystem.run Run.step (Run.new 2) [.push [2, 3] 1 true]).reasm
    r.output.bytesWritten < (r.pushSubstring [1, 2] 0 false).output.bytesWritten := by
  intro r
  refine (push_progress_iff [1, 2, 3] 2 (by decide) [.push [2, 3] 1 true] (by decide +kernel) [1, 2]
    0 false (by decide +kernel) r rfl (by decide +kernel) (by decide +kernel) (by decide +kernel)
    (by decide +kernel) (by decide +kernel)).mpr ⟨by decide +kernel, ?_⟩
  rintro ⟨-, d, hmem, -⟩
  exact absurd (List.mem_singleton.mp (show (0, d) ∈ [(1, [2, 3])] from hmem)) (by simp)

/-- The leftover `[3]` of the first push sits at index 2 and fills the window of one byte: the push
that covers index 2 of an open output with room writes nothing. -/
theorem push_no_progress :
    let ops := [.push [2, 3] 1 false, .push [1] 0 false, .read 1]
    let r := (StepSystem.run Run.step (Run.new 2) ops).reasm
    (∀ op ∈ ops, op.Follows [1, 2, 3]) ∧ (Op.push [3] 2 true).Follows [1, 2, 3] ∧
      2 ≤ r.output.bytesWritten ∧ r.output.bytesWritten < 2 + [3].length ∧
      0 < r.output.remainingCapacity ∧ r.output.inputEnded = false ∧ r.output.error = false ∧
      ¬r.output.bytesWritten < (r.pushSubstring [3] 2 true).output.bytesWritten := by
  decide +kernel

end StreamReassembler

end CourseNet
