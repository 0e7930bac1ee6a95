import CourseNet.ReassemblerInvariant
import CourseNet.TCPReceiver

/-!
# What a receiver never takes back

Segments, reads and errors only move a receiver forward: the initial sequence number stays once it is
known, the counters of the stream do not go back, and neither the FIN nor the end of the stream is
forgotten.  So the acknowledgment number does not decrease, whatever arrives.
-/

namespace CourseNet

namespace TCPReceiver

/-- Nothing that the acknowledgment number and the window depend on goes back. -/
structure Advances (r s : TCPReceiver) : Prop where
  capacity : s.capacity = r.capacity
  isn : ∀ i, r.isn = some i → s.isn = some i
  finReceived : r.finReceived = true → s.finReceived = true
  stream : r.streamOut.Grows s.streamOut

theorem Advances.refl (r : TCPReceiver) : r.Advances r :=
  ⟨rfl, fun _ => id, id, ByteStream.Grows.refl _⟩

theorem advances_read (r : TCPReceiver) (len : ℕ) : r.Advances (r.read len).2 :=
  ⟨rfl, fun _ => id, id, r.streamOut.grows_popOutput len⟩

theorem advances_setError (r : TCPReceiver) : r.Advances r.setError :=
  ⟨rfl, fun _ => id, id, r.streamOut.grows_setError⟩

theorem advances_pushSegment (r : TCPReceiver) {isn : WrappingInt32}
    (h : ∀ i, r.isn = some i → i = isn) (seg : TCPSegment) :
    r.Advances (r.pushSegment isn seg).1 := by
  refine ⟨rfl, fun i hi => ?_, fun hfin => ?_, r.reassembler.pushSubstring_grows _ _ _⟩
  · rw [h i hi]
    rfl
  · show (r.finReceived || _) = true
    rw [hfin, Bool.true_or]

theorem advances_segmentReceived (r : TCPReceiver) (seg : TCPSegment) :
    r.Advances (r.segmentReceived seg).1 := by
  unfold segmentReceived
  split
  · rename_i isn hisn
    exact r.advances_pushSegment (fun i hi => Option.some.inj (hi.symm.trans hisn)) seg
  · rename_i hnone
    split
    · exact r.advances_pushSegment (fun i hi => absurd (hnone.symm.trans hi) (by simp)) seg
    · exact Advances.refl r

/-! ### The window and the acknowledgment number -/

/-- The capacities of the receiver and of its stream. -/
structure Sized (capacity : ℕ) (r : TCPReceiver) : Prop where
  capacity_eq : r.capacity = capacity
  stream_capacity : r.streamOut.capacity = capacity

theorem Sized.of_advances {capacity : ℕ} {r s : TCPReceiver} (h : Sized capacity r)
    (hrs : r.Advances s) : Sized capacity s :=
  ⟨hrs.capacity.trans h.capacity_eq, hrs.stream.capacity.trans h.stream_capacity⟩

/-- The bytes held fit into the capacity, so the window does not underflow. -/
theorem Sized.windowSize_eq {capacity : ℕ} {r : TCPReceiver} (h : Sized capacity r)
    (hcap : capacity < 2 ^ 64) :
    r.streamOut.bufferSize ≤ capacity ∧ r.windowSize = capacity - r.streamOut.bufferSize := by
  have hacc := r.streamOut.accounting
  have hbuf := r.streamOut.buffer_le
  have hown := h.capacity_eq
  have hout := h.stream_capacity
  rw [windowSize, ByteStream.bufferSize]
  constructor <;> omega

/-- One for the FIN once everything before it has arrived. -/
theorem absoluteAckno_eq (r : TCPReceiver) :
    r.absoluteAckno = r.streamOut.bytesWritten + 1 +
      (r.finReceived && r.streamOut.inputEnded).toNat := by
  unfold absoluteAckno
  dsimp only
  cases r.finReceived && r.streamOut.inputEnded <;> rfl

/-- The FIN once acknowledged stays so. -/
theorem Advances.fin_le {r s : TCPReceiver} (h : r.Advances s) :
    (r.finReceived && r.streamOut.inputEnded).toNat ≤
      (s.finReceived && s.streamOut.inputEnded).toNat := by
  refine Bool.toNat_le_toNat fun hr => ?_
  obtain ⟨hfin, hended⟩ := Bool.and_eq_true_iff.mp hr
  rw [h.finReceived hfin, h.stream.ended hended]
  rfl

theorem Advances.absoluteAckno_le {r s : TCPReceiver} (h : r.Advances s) :
    r.absoluteAckno ≤ s.absoluteAckno := by
  have hwritten := h.stream.bytesWritten
  have hfin := h.fin_le
  rw [absoluteAckno_eq, absoluteAckno_eq]
  omega

/-- The absolute acknowledgment number, zero before the SYN. -/
def acknowledged (r : TCPReceiver) : ℕ := if r.isn.isSome then r.absoluteAckno else 0

theorem Advances.acknowledged_le {r s : TCPReceiver} (h : r.Advances s) :
    r.acknowledged ≤ s.acknowledged := by
  unfold acknowledged
  cases hisn : r.isn with
  | none => exact Nat.zero_le _
  | some isn =>
      rw [h.isn isn hisn, Option.isSome_some, if_pos rfl, if_pos rfl]
      exact h.absoluteAckno_le

end TCPReceiver

end CourseNet
