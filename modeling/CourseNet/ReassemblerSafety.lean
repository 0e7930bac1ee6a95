import CourseNet.ReassemblerInvariant
import CourseNet.StepSystem

/-!
# Runs of the reassembler: safety

A run interleaves pushes with reads of the output.  The run state keeps, beside the reassembler, the
bytes the reader took and whether every `assert` held so far, so that "the bytes ever written" is a
value of the run.  As long as the pushes agree with one stream the output is a prefix of it.
-/

namespace CourseNet

namespace StreamReassembler

/-- The calls of a run. -/
inductive Op
  | push (data : Bytes) (index : ℕ) (eof : Bool)
  | read (len : ℕ)

/-- A reassembler together with what its run has shown. -/
structure Run where
  reasm : StreamReassembler
  popped : Bytes
  asserted : Bool

/-- All bytes ever written to the output. -/
def Run.written (s : Run) : Bytes := s.popped ++ s.reasm.output.buffer

def Run.new (capacity : ℕ) : Run := ⟨StreamReassembler.new capacity, [], true⟩

def Run.step (s : Run) : Op → Run
  | .push data index eof =>
      { s with
          reasm := s.reasm.pushSubstring data index eof
          asserted := s.asserted && s.reasm.pushOutcome data index eof != .assertFails }
  | .read len =>
      { s with reasm := (s.reasm.read len).2, popped := s.popped ++ (s.reasm.read len).1 }

/-- The push agrees with `S`, and its end-of-file mark is set only at the end of `S`. -/
def Op.Agrees (S : Bytes) : Op → Prop
  | .push data index eof =>
      Excerpt S index data ∧ index + data.length < 2 ^ 64 ∧
        (eof = true → index + data.length = S.length)
  | .read _ => True

instance (S : Bytes) : DecidablePred (Op.Agrees S)
  | .push _ _ _ => inferInstanceAs (Decidable (_ ∧ _ ∧ _))
  | .read _ => isTrue trivial

/-- The invariant of a run whose pushes agree with `S`. -/
structure Run.Safe (S : Bytes) (capacity : ℕ) (s : Run) : Prop where
  consistent : Consistent S True s.popped s.reasm
  asserted : s.asserted = true
  capacity_eq : s.reasm.capacity = capacity
  next_lt : s.reasm.nextAssembledIdx < 2 ^ 64 - 1

theorem Run.Safe.new (S : Bytes) (capacity : ℕ) : Safe S capacity (Run.new capacity) :=
  ⟨Consistent.new S True capacity, rfl, rfl, show 0 < 2 ^ 64 - 1 by decide⟩

theorem Run.next_le_step (s : Run) (op : Op) :
    s.reasm.nextAssembledIdx ≤ (s.step op).reasm.nextAssembledIdx := by
  cases op with
  | push data index eof => exact (pushSubstring_frame _ _ _ _).next_le
  | read len => exact le_refl _

/-- One call keeps the invariant, given the window ends below `2 ^ 64` after it. -/
theorem Run.Safe.step {S : Bytes} {capacity : ℕ} {s : Run} (h : s.Safe S capacity) {op : Op}
    (hop : op.Agrees S) (hroom : (s.step op).reasm.nextAssembledIdx + capacity < 2 ^ 64) :
    (s.step op).Safe S capacity := by
  cases op with
  | read len =>
      exact ⟨h.consistent.read len, h.asserted, h.capacity_eq, h.next_lt⟩
  | push data index eof =>
      obtain ⟨hS, hfit, heof⟩ := hop
      have hpiece : Piece S True data index eof := ⟨hS, hfit, fun he => ⟨heof he, trivial⟩⟩
      have hframe := pushSubstring_frame s.reasm data index eof
      obtain ⟨hasm, hheld⟩ := h.consistent.toAssembled.push hS hfit eof
      have hlt : (s.reasm.pushSubstring data index eof).nextAssembledIdx < 2 ^ 64 - 1 := by
        rcases Nat.eq_zero_or_pos capacity with hzero | hpos
        · -- nothing can be written into an output without capacity
          have hcap := hasm.cap_eq
          have hbuf := (s.reasm.pushSubstring data index eof).output.buffer_le
          have hacc := (s.reasm.pushSubstring data index eof).output.accounting
          have hacc' := s.reasm.output.accounting
          rw [hframe.capacity, h.capacity_eq] at hcap
          rw [hasm.bytesWritten_eq, hframe.bytesRead] at hacc
          rw [h.consistent.bytesWritten_eq] at hacc'
          have := h.next_lt
          omega
        · have hroom : (s.reasm.pushSubstring data index eof).nextAssembledIdx + capacity <
              2 ^ 64 := hroom
          omega
      exact ⟨h.consistent.push hpiece hlt, by simp [Run.step, h.asserted, hheld],
        hframe.capacity.trans h.capacity_eq, hlt⟩

/-- Every run whose pushes agree with `S` is safe. -/
theorem Run.Safe.run {S : Bytes} {capacity : ℕ} (ops : List Op) (hops : ∀ op ∈ ops, op.Agrees S)
    (hroom : (StepSystem.run Run.step (Run.new capacity) ops).reasm.nextAssembledIdx + capacity
      < 2 ^ 64) :
    (StepSystem.run Run.step (Run.new capacity) ops).Safe S capacity := by
  induction ops using List.reverseRecOn with
  | nil => exact Run.Safe.new S capacity
  | append_singleton ops op ih =>
      rw [StepSystem.run_snoc] at hroom ⊢
      have hmono := (StepSystem.run Run.step (Run.new capacity) ops).next_le_step op
      have hbefore := ih (fun o ho => hops o (List.mem_append_left _ ho)) (by omega)
      exact hbefore.step (hops op (by simp)) hroom

/-- **Reassembler safety.**  After any run of pushes that agree with `S` and reads: the bytes ever
written are the first `_next_assembled_idx = bytes_written` bytes of `S`; the stored strings are
non-empty, pairwise disjoint, at or after that index, and agree with `S`; every assertion held; and
the output has ended only if all of `S` was written. -/
theorem run_safe (S : Bytes) (capacity : ℕ) (ops : List Op) (hops : ∀ op ∈ ops, op.Agrees S)
    (hroom : (StepSystem.run Run.step (Run.new capacity) ops).reasm.nextAssembledIdx + capacity
      < 2 ^ 64) :
    let s := StepSystem.run Run.step (Run.new capacity) ops
    let N := s.reasm.nextAssembledIdx
    (s.written = S.take N ∧ N ≤ S.length ∧ N = s.reasm.output.bytesWritten) ∧
    ((∀ e ∈ s.reasm.unassembleStrs.entries, e.2 ≠ [] ∧ N ≤ e.1 ∧ Excerpt S e.1 e.2) ∧
      s.reasm.unassembleStrs.entries.Pairwise fun e f => e.1 + e.2.length ≤ f.1) ∧
    s.asserted = true ∧
    (s.reasm.output.inputEnded = true → N = S.length) := by
  intro s N
  have hsafe : s.Safe S capacity := Run.Safe.run ops hops hroom
  have hstored := hsafe.consistent.stored
  refine ⟨⟨hsafe.consistent.wrote.1, hsafe.consistent.next_le,
    hsafe.consistent.bytesWritten_eq.symm⟩, ⟨fun e he => ?_, ?_⟩, hsafe.asserted,
    fun hend => (hsafe.consistent.ended hend).1⟩
  · exact ⟨hstored.nonempty e he, hstored.start_ge e he, hstored.agrees e he⟩
  · exact s.reasm.unassembleStrs.sorted.imp_of_mem fun he hf hlt => hstored.disjoint _ he _ hf hlt

/-- Out of order, past the capacity and overlapping: the stream `[1, 2, 3]` through a window of two
bytes. -/
theorem run_safe_small_window :
    let ops := [.push [2, 3] 1 true, .push [1] 0 false, .read 1, .push [1, 2, 3] 0 true]
    let s := StepSystem.run Run.step (Run.new 2) ops
    (s.written = [1, 2, 3] ∧ s.asserted = true) ∧
      s.written = List.take s.reasm.nextAssembledIdx [1, 2, 3] := by
  refine ⟨by decide +kernel, ?_⟩
  exact (run_safe [1, 2, 3] 2 [.push [2, 3] 1 true, .push [1] 0 false, .read 1,
    .push [1, 2, 3] 0 true] (by decide +kernel) (by decide +kernel)).1.1

end StreamReassembler

end CourseNet
