import CourseNet.ReassemblerAccounting

/-!
# The end of the stream

`_eof_idx` is written by the last phase of `push_substring`, so a push that the window check drops
leaves no end-of-file mark.  `Marked` is what the mark and the ended output tell about the stream;
every push keeps it, but only a push that passes the check adds its own mark.
-/

namespace CourseNet

namespace StreamReassembler

/-- The end-of-file index is the length of `S` if a mark was heard and unset if none was, and the
output has ended exactly if one was heard and all of `S` is written. -/
structure Marked (S : Bytes) (E : Prop) (r : StreamReassembler) : Prop where
  heard : E → r.eofIdx = S.length
  unheard : ¬E → r.eofIdx = 2 ^ 64 - 1
  ended : r.output.inputEnded = true ↔ E ∧ r.nextAssembledIdx = S.length

namespace Marked

variable {S : Bytes} {E : Prop} {r s : StreamReassembler} {data : Bytes} {index : ℕ} {eof : Bool}

theorem new (S : Bytes) (capacity : ℕ) : Marked S False (StreamReassembler.new capacity) :=
  ⟨False.elim, fun _ => rfl,
    fun h => absurd h (by simp [StreamReassembler.new, ByteStream.new]), fun h => h.1.elim⟩

theorem read (h : Marked S E r) (n : ℕ) : Marked S E (r.read n).2 := ⟨h.heard, h.unheard, h.ended⟩

theorem trimmed (h : Marked S E r) (data : Bytes) (index : ℕ) :
    Marked S E (r.trimmed data index) := ⟨h.heard, h.unheard, h.ended⟩

/-- The end-of-file test hears the mark of the push.  The next index stays below the unset
end-of-file index. -/
theorem noteEof (h : Marked S E r) (hframe : Frame r s) (hle : s.nextAssembledIdx ≤ S.length)
    (hlt : s.nextAssembledIdx < 2 ^ 64 - 1)
    (hmark : eof = true → (index + data.length) % 2 ^ 64 = S.length) :
    Marked S (E ∨ eof = true) (s.noteEof data index eof) := by
  have hheard : E ∨ eof = true → (s.noteEof data index eof).eofIdx = S.length := by
    intro hE
    cases eof with
    | false => exact hframe.eofIdx.trans (h.heard (by simpa using hE))
    | true => exact hmark rfl
  have hunheard : ¬(E ∨ eof = true) → (s.noteEof data index eof).eofIdx = 2 ^ 64 - 1 := by
    intro hE
    cases eof with
    | false => exact hframe.eofIdx.trans (h.unheard (by simpa using hE))
    | true => exact absurd (Or.inr rfl) hE
  refine ⟨hheard, hunheard, fun hend => ?_, fun ⟨hE, heq⟩ => ?_⟩
  · rcases noteEof_ended hend with hreach | hbefore
    · by_cases hE : E ∨ eof = true
      · rw [hheard hE] at hreach
        exact ⟨hE, hle.antisymm hreach⟩
      · rw [hunheard hE] at hreach
        exact absurd hreach (not_le.mpr hlt)
    · -- it had ended before, so the next index was at the end already
      obtain ⟨hE, heq⟩ := h.ended.mp (hframe.inputEnded ▸ hbefore)
      exact ⟨Or.inl hE, hle.antisymm (heq ▸ hframe.next_le)⟩
  · have hreach : (s.noteEof data index eof).eofIdx ≤ s.nextAssembledIdx := by
      rw [hheard hE]
      exact heq.ge
    rw [noteEof_output, if_pos hreach]
    rfl

end Marked

/-- An end-of-file flagged push occurred. -/
def eofSeen (ops : List Op) : Prop := ∃ data index, Op.push data index true ∈ ops

theorem eofSeen_append (ops ops' : List Op) :
    eofSeen (ops ++ ops') ↔ eofSeen ops ∨ eofSeen ops' := by
  simp only [eofSeen, List.mem_append, exists_or]

theorem eofSeen_push (data : Bytes) (index : ℕ) (eof : Bool) :
    eofSeen [Op.push data index eof] ↔ eof = true := by
  simp [eofSeen, eq_comm]

theorem not_eofSeen_read (len : ℕ) : ¬eofSeen [Op.read len] := by
  simp [eofSeen]

/-- The new start of a piece of `S` lies in `S`. -/
theorem newStart_le_length {S popped : Bytes} {r : StreamReassembler} (h : Assembled S popped r)
    (index : ℕ) (hle : index ≤ S.length) : r.newStart index ≤ S.length := by
  have hnext := h.next_le
  rcases newStart_cases h.stored.laid index with ⟨e, he, -, -, heq⟩ | ⟨-, heq⟩
  · exact heq ▸ (h.stored.agrees e he).end_le (h.stored.nonempty e he)
  · omega

/-- A push that passes the window check, or repeats a mark that was heard, is heard. -/
theorem Marked.push {S popped : Bytes} {E : Prop} {r : StreamReassembler} (h : Marked S E r)
    (hr : Assembled S popped r) (hS : S.length < 2 ^ 64 - 1) (hcap : r.capacity < 2 ^ 64)
    {data : Bytes} {index : ℕ} {eof : Bool} (hdata : Excerpt S index data)
    (hfit : index + data.length < 2 ^ 64) (heof : eof = true → index + data.length = S.length)
    (hheard : eof = true → Late r index → r.eofIdx = index + data.length) :
    Marked S (E ∨ eof = true) (r.pushSubstring data index eof) := by
  have hpush := (hr.push hdata hfit eof).1
  -- a call that leaves early changes nothing; a mark it carries was heard before
  have hskip : (eof = true → E) → Marked S (E ∨ eof = true) (r.trimmed data index) := by
    intro hE
    rw [or_iff_left_of_imp hE]
    exact h.trimmed data index
  unfold pushSubstring at hpush ⊢
  rcases r.pushSubstring_cases data index eof with ⟨hdrop, hc⟩ | ⟨-, -, hpast, hc⟩ |
    ⟨-, -, a, -, hframe, hc⟩
  · rw [hc]
    refine hskip fun hmark => ?_
    have hrec := hheard hmark ((late_iff hr.shaped hcap index).mpr hdrop)
    have hlen := heof hmark
    by_contra hE
    have hunset := h.unheard hE
    omega
  · rw [hc]
    refine hskip fun hmark => ?_
    have hlen := heof hmark
    have := newStart_le_length hr index (by omega)
    omega
  · rw [hc] at hpush ⊢
    have hle : a.1.nextAssembledIdx ≤ S.length := hpush.next_le
    exact h.noteEof hframe hle (by omega) fun hmark => (Nat.mod_eq_of_lt hfit).trans (heof hmark)

/-- An end-of-file flagged push is not late, unless its mark was heard before. -/
def Op.Announces (r : StreamReassembler) : Op → Prop
  | .push data index eof =>
      eof = true → Late r index → r.eofIdx = index + data.length
  | .read _ => True

instance (r : StreamReassembler) : DecidablePred (Op.Announces r)
  | .push _ _ _ => inferInstanceAs (Decidable (_ → _ → _))
  | .read _ => isTrue trivial

/-- **End of stream.**  In a run that agrees with `S` and whose end-of-file flagged pushes are not
late, after every call the output has ended if and only if such a push occurred and all of `S` is
written. -/
theorem ended_iff_eofSeen (S : Bytes) (capacity : ℕ) (hS : S.length < 2 ^ 64 - 1)
    (hcap : capacity < 2 ^ 64) (ops : List Op) (hops : ∀ op ∈ ops, op.Agrees S)
    (h : StepSystem.Guarded Run.step (fun s op => op.Announces s.reasm) (Run.new capacity) ops) :
    (StepSystem.run Run.step (Run.new capacity) ops).reasm.output.inputEnded = true ↔
      eofSeen ops ∧
        (StepSystem.run Run.step (Run.new capacity) ops).reasm.output.bytesWritten = S.length := by
  suffices hrun : ∀ ops, (∀ op ∈ ops, op.Agrees S) →
      StepSystem.Guarded Run.step (fun s op => op.Announces s.reasm) (Run.new capacity) ops →
      let s := StepSystem.run Run.step (Run.new capacity) ops
      Assembled S s.popped s.reasm ∧ s.reasm.capacity = capacity ∧
        Marked S (eofSeen ops) s.reasm by
    obtain ⟨hasm, -, hmarked⟩ := hrun ops hops h
    rw [hasm.bytesWritten_eq]
    exact hmarked.ended
  intro ops
  induction ops using List.reverseRecOn with
  | nil =>
      have hnone : eofSeen [] ↔ False := by simp [eofSeen]
      rw [hnone]
      exact fun _ _ => ⟨Assembled.new S capacity, rfl, Marked.new S capacity⟩
  | append_singleton ops op ih =>
      intro hops hguard
      rw [StepSystem.Guarded.snoc_iff] at hguard
      obtain ⟨hasm, hcapeq, hmarked⟩ :=
        ih (fun o ho => hops o (List.mem_append_left _ ho)) hguard.1
      have hop := hops op (List.mem_append_right _ List.mem_cons_self)
      have hheard := hguard.2
      rw [StepSystem.run_snoc, eofSeen_append]
      cases op with
      | push data index eof =>
          obtain ⟨hdata, hfit, heof⟩ := hop
          rw [eofSeen_push]
          exact ⟨(hasm.push hdata hfit eof).1,
            (pushSubstring_frame _ data index eof).capacity.trans hcapeq,
            hmarked.push hasm hS (hcapeq.trans_lt hcap) hdata hfit heof hheard⟩
      | read len =>
          rw [or_iff_left (not_eofSeen_read len)]
          exact ⟨⟨hasm.next_le, hasm.wrote.read len, hasm.cap_eq, hasm.stored⟩, hcapeq,
            hmarked.read len⟩

/-- The mark stands on a push that arrives before the bytes it follows. -/
theorem ended_iff_eofSeen_early :
    let ops := [.push [2, 3] 1 true, .push [1] 0 false, .read 1, .push [2, 3] 1 true]
    (StepSystem.run Run.step (Run.new 2) ops).reasm.output.inputEnded = true ↔
      eofSeen ops ∧ (StepSystem.run Run.step (Run.new 2) ops).reasm.output.bytesWritten = 3 :=
  ended_iff_eofSeen [1, 2, 3] 2 (by decide) (by decide)
    [.push [2, 3] 1 true, .push [1] 0 false, .read 1, .push [2, 3] 1 true]
    (by decide +kernel) (by decide +kernel)

/-- One byte of window, already full: the push that carries the mark is dropped with it. -/
theorem eof_forgotten :
    let ops := [.push [1] 0 false, .push [1] 0 true]
    let r := (StepSystem.run Run.step (Run.new 1) ops).reasm
    (∀ op ∈ ops, op.Agrees [1]) ∧ r.output.bytesWritten = [(1 : UInt8)].length ∧
      r.output.inputEnded = false ∧
      ¬(r.output.inputEnded = true ↔ eofSeen ops ∧ r.output.bytesWritten = [(1 : UInt8)].length) := by
  intro ops r
  have hwritten : r.output.bytesWritten = [(1 : UInt8)].length := by decide +kernel
  have hopen : r.output.inputEnded = false := by decide +kernel
  refine ⟨by decide +kernel, hwritten, hopen, fun h => ?_⟩
  have hseen : eofSeen ops := ⟨[1], 0, by simp [ops]⟩
  exact absurd (h.mpr ⟨hseen, hwritten⟩) (by simp [hopen])

end StreamReassembler

end CourseNet
