import CourseNet.ReassemblerInvariant
import CourseNet.SegmentStream

/-!
# A receiver of genuine segments

`Follows` is the receiver's side of a stream: it knows no sequence number base but the sender's,
it has assembled a prefix of the stream, and it has seen the end only if a FIN was sent.  Every
genuine segment keeps this, in whatever order and however often segments arrive.
-/

namespace CourseNet

namespace TCPReceiver

structure Follows (S : Bytes) (E : Prop) (isn : WrappingInt32) (popped : Bytes)
    (r : TCPReceiver) : Prop where
  consistent : StreamReassembler.Consistent S E popped r.reassembler
  isn_eq : ∀ i, r.isn = some i → i = isn
  listen : r.isn = none → r.finReceived = false
  fin : r.finReceived = true → E
  no_fin : r.finReceived = false →
    r.reassembler.eofIdx = 2 ^ 64 - 1 ∧ r.streamOut.inputEnded = false

namespace Follows

variable {S T popped : Bytes} {E F : Prop} {isn : WrappingInt32} {r : TCPReceiver}
  {seg : TCPSegment}

theorem new (S : Bytes) (E : Prop) (isn : WrappingInt32) (capacity : ℕ) :
    Follows S E isn [] (TCPReceiver.new capacity) :=
  ⟨StreamReassembler.Consistent.new S E capacity, fun _ h => absurd h (by simp [TCPReceiver.new]),
    fun _ => rfl, fun h => absurd h (by simp [TCPReceiver.new]), fun _ => ⟨rfl, rfl⟩⟩

/-- More of the stream becomes known. -/
theorem extend (h : Follows S E isn popped r) (hST : S <+: T) (hE : E → T = S) (hEF : E → F) :
    Follows T F isn popped r :=
  ⟨h.consistent.extend hST hE hEF, h.isn_eq, h.listen, fun hf => hEF (h.fin hf), h.no_fin⟩

theorem setError (h : Follows S E isn popped r) : Follows S E isn popped r.setError :=
  ⟨h.consistent.setError, h.isn_eq, h.listen, h.fin, h.no_fin⟩

theorem read (h : Follows S E isn popped r) (len : ℕ) :
    Follows S E isn (popped ++ (r.read len).1) (r.read len).2 :=
  ⟨h.consistent.read len, h.isn_eq, h.listen, h.fin, h.no_fin⟩

theorem written_le (h : Follows S E isn popped r) : r.streamOut.bytesWritten ≤ S.length :=
  h.consistent.bytesWritten_eq.trans_le h.consistent.next_le

/-- The stream index of a genuine segment is where its payload belongs. -/
theorem piece (h : Follows S E isn popped r) (hS : S.length < 2 ^ 31 - 2)
    (hseg : Genuine S E isn seg) :
    StreamReassembler.Piece S E seg.payload (r.streamIndex isn seg) seg.header.fin := by
  have hwritten := h.written_le
  cases hseg with
  | syn hsyn hfin hempty hseqno =>
      have hindex : r.streamIndex isn seg = 0 := by
        unfold streamIndex
        dsimp only
        rw [if_pos hsyn, hseqno]
        have hunwrap : unwrap (wrap 0 isn) isn (r.streamOut.bytesWritten + 1) = 0 :=
          unwrap_wrap isn (by omega) (by omega) (by omega)
        rwa [wrap_zero] at hunwrap
      rw [hindex, hempty, hfin]
      exact ⟨Excerpt.nil _ _, by simp, fun hf => absurd hf (by simp)⟩
  | empty hsyn hfin hempty =>
      have hindex : r.streamIndex isn seg < 2 ^ 64 := by
        unfold streamIndex
        dsimp only
        rw [if_neg (by simp [hsyn])]
        exact Nat.mod_lt _ (by decide)
      rw [hempty, hfin]
      exact ⟨Excerpt.nil _ _, by rwa [List.length_nil, Nat.add_zero], fun hf => absurd hf (by simp)⟩
  | stream start hsyn hstart hend hseqno hdata hfin =>
      have hindex : r.streamIndex isn seg = start - 1 := by
        unfold streamIndex
        dsimp only
        rw [if_neg (by simp [hsyn]), hseqno,
          unwrap_wrap isn (by omega) (by omega) (by omega)]
        omega
      rw [hindex]
      exact ⟨hdata, by omega, fun hf => ⟨by have := (hfin hf).2; omega, (hfin hf).1⟩⟩

theorem pushSegment (h : Follows S E isn popped r) (hS : S.length < 2 ^ 31 - 2)
    (hseg : Genuine S E isn seg) : Follows S E isn popped (r.pushSegment isn seg).1 := by
  have hpiece := h.piece hS hseg
  obtain ⟨index, hindex⟩ : ∃ index, index = r.streamIndex isn seg := ⟨_, rfl⟩
  rw [← hindex] at hpiece
  have hasm := (h.consistent.toAssembled.push hpiece.agrees hpiece.fits seg.header.fin).1
  have hle := hasm.next_le
  have hnext : (r.reassembler.pushSubstring seg.payload index seg.header.fin).nextAssembledIdx <
      2 ^ 64 - 1 := by omega
  have hcons := h.consistent.push hpiece hnext
  unfold TCPReceiver.pushSegment
  rw [← hindex]
  refine ⟨hcons, fun i hi => (Option.some.inj hi).symm, fun hno => absurd hno (by simp),
    fun hfin => ?_, fun hfin => ?_⟩
  · rcases Bool.or_eq_true_iff.mp hfin with hbefore | hnow
    · exact h.fin hbefore
    · exact hseg.of_fin (Bool.and_eq_true_iff.mp hnow).1
  · obtain ⟨hbefore, hnow⟩ := Bool.or_eq_false_iff.mp hfin
    obtain ⟨hidx, hended⟩ := h.no_fin hbefore
    have hunmarked : seg.header.fin = false ∨
        r.reassembler.pushOutcome seg.payload index seg.header.fin = .throws := by
      rcases Bool.and_eq_false_iff.mp hnow with hf | ht
      · exact Or.inl hf
      · exact Or.inr (by simpa using ht)
    obtain ⟨hidx', hended'⟩ := StreamReassembler.pushSubstring_unmarked hunmarked
    refine ⟨hidx'.trans hidx, ?_⟩
    show (r.reassembler.pushSubstring seg.payload index seg.header.fin).output.inputEnded = false
    rw [Bool.eq_false_iff]
    intro hyes
    rcases hended' hyes with hold | hreach
    · exact absurd hold (by simp [show r.reassembler.output.inputEnded = false from hended])
    · rw [hidx] at hreach
      omega

/-- A genuine segment is pushed relative to the base of the sender, or ignored before the SYN. -/
theorem segmentReceived_eq (h : Follows S E isn popped r) (hseg : Genuine S E isn seg) :
    r.segmentReceived seg = r.pushSegment isn seg ∨ r.segmentReceived seg = (r, .returns) := by
  unfold TCPReceiver.segmentReceived
  split
  · rename_i i hi
    exact Or.inl (by rw [h.isn_eq i hi])
  · split
    · rename_i hsyn
      cases hseg with
      | syn _ hfin hempty hseqno => exact Or.inl (by rw [hseqno])
      | empty hno => exact absurd hsyn (by simp [hno])
      | stream start hno => exact absurd hsyn (by simp [hno])
    · exact Or.inr rfl

/-- One genuine segment. -/
theorem segmentReceived (h : Follows S E isn popped r) (hS : S.length < 2 ^ 31 - 2)
    (hseg : Genuine S E isn seg) : Follows S E isn popped (r.segmentReceived seg).1 := by
  rcases h.segmentReceived_eq hseg with heq | heq
  · rw [heq]
    exact h.pushSegment hS hseg
  · rw [heq]
    exact h

/-- The stream delivered to the reader: a prefix of `S`, and all of `S` at the end. -/
theorem delivered (h : Follows S E isn popped r) :
    popped ++ r.streamOut.buffer <+: S ∧
      (r.streamOut.inputEnded = true → E ∧ popped ++ r.streamOut.buffer = S) := by
  have hall : popped ++ r.streamOut.buffer = S.take r.reassembler.nextAssembledIdx :=
    h.consistent.wrote.1
  rw [hall]
  refine ⟨List.take_prefix _ _, fun hended => ?_⟩
  obtain ⟨hlen, hE⟩ := h.consistent.ended hended
  exact ⟨hE, by rw [hlen, List.take_length]⟩

end Follows

end TCPReceiver

end CourseNet
