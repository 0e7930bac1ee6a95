import CourseNet.ReassemblerStale
import CourseNet.ReceiverAdvance

/-!
# Segments outside the window

A segment past the window is dropped by the window check.  A segment below the acknowledgment number
is not: its payload is trimmed to nothing, but its FIN overwrites the end-of-file index with one that
the stream has passed, and the call writes what a full output left over, which may reach the end.
-/

namespace CourseNet

namespace TCPReceiver

/-- The calls of a run: segments from the network, and reads and the error from the application. -/
inductive Op
  | segment (seg : TCPSegment)
  | read (len : ℕ)
  | setError

/-- The receiver after a call. -/
def call (r : TCPReceiver) : Op → TCPReceiver
  | .segment seg => (r.segmentReceived seg).1
  | .read len => (r.read len).2
  | .setError => r.setError

/-- The absolute sequence number of a segment. -/
def absoluteSeqno (r : TCPReceiver) (isn : WrappingInt32) (seg : TCPSegment) : ℕ :=
  unwrap seg.header.seqno isn (r.streamOut.bytesWritten + 1)

/-- The segment occupies 64-bit absolute sequence numbers.  A `std::string` is shorter than
`2 ^ 63` bytes. -/
def Op.Representable (r : TCPReceiver) : Op → Prop
  | .segment seg =>
      r.absoluteSeqno (r.isn.getD seg.header.seqno) seg + seg.lengthInSequenceSpace ≤ 2 ^ 64 ∧
        seg.payload.length < 2 ^ 63
  | .read _ => True
  | .setError => True

instance (r : TCPReceiver) : DecidablePred (Op.Representable r)
  | .segment _ => inferInstanceAs (Decidable (_ ∧ _))
  | .read _ => isTrue trivial
  | .setError => isTrue trivial

section StreamIndex

variable {r : TCPReceiver} {isn : WrappingInt32} {seg : TCPSegment}

theorem streamIndex_of_syn (hsyn : seg.header.syn = true) :
    r.streamIndex isn seg = r.absoluteSeqno isn seg := by
  unfold streamIndex absoluteSeqno
  dsimp only
  rw [if_pos hsyn]

theorem streamIndex_of_not_syn (hsyn : seg.header.syn = false) :
    r.streamIndex isn seg = (r.absoluteSeqno isn seg + 2 ^ 64 - 1) % 2 ^ 64 := by
  unfold streamIndex absoluteSeqno
  dsimp only
  rw [if_neg (by simp [hsyn])]

theorem streamIndex_of_pos (hsyn : seg.header.syn = false) (hpos : 0 < r.absoluteSeqno isn seg)
    (hlt : r.absoluteSeqno isn seg ≤ 2 ^ 64) :
    r.streamIndex isn seg = r.absoluteSeqno isn seg - 1 := by
  rw [streamIndex_of_not_syn hsyn]
  omega

/-- A segment at the initial sequence number without SYN belongs nowhere; its index is the largest
`size_t`, which no window admits. -/
theorem late_of_zero (hsyn : seg.header.syn = false) (hzero : r.absoluteSeqno isn seg = 0) :
    r.reassembler.Late (r.streamIndex isn seg) := by
  rw [streamIndex_of_not_syn hsyn, hzero, StreamReassembler.Late]
  omega

end StreamIndex

/-- What a run keeps. -/
structure Standing (capacity : ℕ) (r : TCPReceiver) : Prop where
  settled : r.reassembler.Settled
  capacity_eq : r.reassembler.capacity = capacity
  window_capacity : r.capacity = capacity

namespace Standing

variable {capacity : ℕ} {r : TCPReceiver}

theorem new (capacity : ℕ) : Standing capacity (TCPReceiver.new capacity) :=
  ⟨StreamReassembler.Settled.new capacity, rfl, rfl⟩

/-- Where the payload of a representable segment ends, unless the window check drops it. -/
theorem fits (h : Standing capacity r) (hcap : capacity < 2 ^ 64) {isn : WrappingInt32}
    {seg : TCPSegment} (hrep : r.absoluteSeqno isn seg + seg.lengthInSequenceSpace ≤ 2 ^ 64)
    (hwindow : r.reassembler.newStart (r.streamIndex isn seg) < r.reassembler.firstUnacceptableIdx) :
    r.streamIndex isn seg + seg.payload.length < 2 ^ 64 := by
  have hlate := StreamReassembler.late_iff h.settled.toShaped (h.capacity_eq.trans_lt hcap)
    (r.streamIndex isn seg)
  rw [TCPSegment.lengthInSequenceSpace] at hrep
  cases hsyn : seg.header.syn with
  | true =>
      rw [hsyn, if_pos rfl] at hrep
      rw [streamIndex_of_syn hsyn]
      omega
  | false =>
      rcases Nat.eq_zero_or_pos (r.absoluteSeqno isn seg) with hzero | hpos
      · exact absurd (hlate.mp (late_of_zero hsyn hzero)) (not_le.mpr hwindow)
      · rw [streamIndex_of_pos hsyn hpos (by omega)]
        omega

theorem pushSegment (h : Standing capacity r) (hcap : capacity < 2 ^ 64) {isn : WrappingInt32}
    {seg : TCPSegment} (hrep : r.absoluteSeqno isn seg + seg.lengthInSequenceSpace ≤ 2 ^ 64)
    (hlen : seg.payload.length < 2 ^ 63) : Standing capacity (r.pushSegment isn seg).1 :=
  ⟨h.settled.push hlen (h.fits hcap hrep) seg.header.fin,
    (StreamReassembler.pushSubstring_frame _ _ _ _).capacity.trans h.capacity_eq,
    h.window_capacity⟩

/-- The window check, the size and the position of a representable segment raise no exception in the
first `2 ^ 63` bytes. -/
theorem not_throws (h : Standing capacity r) (hcap : capacity < 2 ^ 64)
    (hsmall : r.streamOut.bytesWritten ≤ 2 ^ 63) {seg : TCPSegment}
    (hop : (Op.segment seg).Representable r) : (r.segmentReceived seg).2 ≠ .throws := by
  have hnext : r.reassembler.nextAssembledIdx ≤ 2 ^ 63 := h.settled.written.symm.trans_le hsmall
  obtain ⟨hrep, -⟩ := hop
  unfold TCPReceiver.segmentReceived
  cases hisn : r.isn with
  | some isn =>
      rw [hisn] at hrep
      exact h.settled.not_throws (h.fits hcap hrep) hnext _
  | none =>
      rw [hisn] at hrep
      dsimp only
      split
      · exact h.settled.not_throws (h.fits hcap hrep) hnext _
      · simp

theorem call (h : Standing capacity r) (hcap : capacity < 2 ^ 64) {op : Op}
    (hop : op.Representable r) : Standing capacity (r.call op) := by
  cases op with
  | segment seg =>
      obtain ⟨hrep, hlen⟩ := hop
      show Standing capacity (r.segmentReceived seg).1
      unfold TCPReceiver.segmentReceived
      cases hisn : r.isn with
      | some isn =>
          rw [hisn] at hrep
          exact h.pushSegment hcap hrep hlen
      | none =>
          rw [hisn] at hrep
          dsimp only
          split
          · exact h.pushSegment hcap hrep hlen
          · exact h
  | read len =>
      exact ⟨h.settled.read len, h.capacity_eq, h.window_capacity⟩
  | setError =>
      exact ⟨h.settled.setError, h.capacity_eq, h.window_capacity⟩

theorem sized (h : Standing capacity r) : r.Sized capacity :=
  ⟨h.window_capacity, h.settled.cap_eq.trans h.capacity_eq⟩

/-- A segment past the window is late. -/
theorem late_of_past (h : Standing capacity r) (hcap : capacity < 2 ^ 64) {isn : WrappingInt32}
    {seg : TCPSegment} (hsyn : seg.header.syn = false)
    (hpast : r.absoluteAckno + r.windowSize ≤ r.absoluteSeqno isn seg)
    (hlt : r.absoluteSeqno isn seg ≤ 2 ^ 64) :
    r.reassembler.Late (r.streamIndex isn seg) := by
  have hend := h.settled.window_end
  have hwritten := h.settled.written
  have hack : r.reassembler.nextAssembledIdx + 1 ≤ r.absoluteAckno := by
    rw [← hwritten]
    exact r.absoluteAckno_bounds.1
  have hacc := r.reassembler.output.accounting
  have hcapacity := h.capacity_eq
  obtain ⟨hle, hwindow⟩ := h.sized.windowSize_eq hcap
  have hbuffer : r.streamOut.bufferSize = r.reassembler.output.buffer.length := rfl
  rw [hbuffer] at hle hwindow
  rw [hwindow] at hpast
  rw [streamIndex_of_pos hsyn (by omega) hlt, StreamReassembler.Late, StreamReassembler.windowEnd]
  omega

end Standing

/-! ### What a segment outside the window does -/

/-- The call adds to the output only bytes that were stored at their indices, and the output has
ended after it exactly if it had before. -/
def Unaffected (r s : TCPReceiver) : Prop :=
  (∃ added, s.streamOut.buffer = r.streamOut.buffer ++ added ∧
    ∀ i b, added[i]? = some b → ∃ e ∈ r.reassembler.unassembleStrs.entries,
      e.1 ≤ r.streamOut.bytesWritten + i ∧
        e.2[r.streamOut.bytesWritten + i - e.1]? = some b) ∧
  s.streamOut.inputEnded = r.streamOut.inputEnded

/-- The output has ended, or the segment is late, or lies so far back that `substr` throws, or it
carries no FIN and the string left at the next index does not reach the end of the stream. -/
def Harmless (r : TCPReceiver) (isn : WrappingInt32) (seg : TCPSegment) : Prop :=
  r.streamOut.inputEnded = true ∨ r.reassembler.Late (r.streamIndex isn seg) ∨
    r.streamIndex isn seg + seg.payload.length + 2 ^ 63 < r.streamOut.bytesWritten ∨
    (seg.header.fin = false ∧ ∀ e ∈ r.reassembler.unassembleStrs.entries,
      e.1 = r.streamOut.bytesWritten →
        e.1 + min e.2.length r.reassembler.accepts < r.reassembler.eofIdx)

theorem segmentReceived_of_isn {r : TCPReceiver} {isn : WrappingInt32} (h : r.isn = some isn)
    (seg : TCPSegment) : r.segmentReceived seg = r.pushSegment isn seg := by
  unfold segmentReceived
  rw [h]

theorem Unaffected.of_output {r s : TCPReceiver} (h : s.streamOut = r.streamOut) :
    Unaffected r s :=
  ⟨⟨[], by rw [h, List.append_nil], fun i b hi => absurd hi (by simp)⟩, by rw [h]⟩

theorem streamOut_segmentReceived {r : TCPReceiver} {isn : WrappingInt32} (h : r.isn = some isn)
    (seg : TCPSegment) : (r.segmentReceived seg).1.streamOut =
      (r.reassembler.pushSubstring seg.payload (r.streamIndex isn seg) seg.header.fin).output := by
  rw [segmentReceived_of_isn h]
  rfl

/-- A segment that occupies nothing from the acknowledgment number on ends by the next index. -/
theorem end_le_of_below {r : TCPReceiver} {isn : WrappingInt32} {seg : TCPSegment}
    (hsyn : seg.header.syn = false) (hpos : 0 < r.absoluteSeqno isn seg)
    (hended : r.streamOut.inputEnded = false)
    (hbelow : r.absoluteSeqno isn seg + seg.lengthInSequenceSpace ≤ r.absoluteAckno)
    (hlt : r.absoluteSeqno isn seg ≤ 2 ^ 64) :
    r.streamIndex isn seg + seg.payload.length + (if seg.header.fin then 1 else 0) ≤
      r.streamOut.bytesWritten := by
  have hack : r.absoluteAckno = r.streamOut.bytesWritten + 1 := by
    unfold absoluteAckno
    rw [hended, Bool.and_false]
    rfl
  rw [TCPSegment.lengthInSequenceSpace, hsyn, hack] at hbelow
  rw [streamIndex_of_pos hsyn hpos hlt]
  simp only [Bool.false_eq_true, if_false] at hbelow
  omega

/-- The two last phases of a push that brings nothing. -/
theorem unaffected_of_stale {capacity : ℕ} {r : TCPReceiver} (h : Standing capacity r)
    {isn : WrappingInt32} (hisn : r.isn = some isn) {seg : TCPSegment}
    (hended : r.streamOut.inputEnded = false)
    (hend : r.streamIndex isn seg + seg.payload.length + (if seg.header.fin then 1 else 0) ≤
      r.streamOut.bytesWritten)
    (hpush : r.reassembler.pushSubstring seg.payload (r.streamIndex isn seg) seg.header.fin =
      (StreamReassembler.assembleLoop r.reassembler.unassembleStrs.entries
        r.reassembler).1.noteEof seg.payload (r.streamIndex isn seg) seg.header.fin) :
    Unaffected r (r.segmentReceived seg).1 ↔
      seg.header.fin = false ∧ ∀ e ∈ r.reassembler.unassembleStrs.entries,
        e.1 = r.streamOut.bytesWritten →
          e.1 + min e.2.length r.reassembler.accepts < r.reassembler.eofIdx := by
  obtain ⟨a, ha⟩ : ∃ a, a = (StreamReassembler.assembleLoop
      r.reassembler.unassembleStrs.entries r.reassembler).1 := ⟨_, rfl⟩
  have hout := streamOut_segmentReceived hisn seg
  have hframe := StreamReassembler.assembleLoop_frame r.reassembler.unassembleStrs.entries
    r.reassembler
  have hwritten : r.streamOut.bytesWritten = r.reassembler.nextAssembledIdx := h.settled.written
  have hadded := h.settled.assembleLoop_adds
  have hbefore := h.settled.assembleLoop_before_eof hended
  rw [hpush] at hout
  rw [← ha] at hout hframe hadded hbefore
  have hopen : a.output.inputEnded = false := hframe.inputEnded.trans hended
  have hsame : Unaffected r (r.segmentReceived seg).1 ↔ a.nextAssembledIdx <
      (a.noteEof seg.payload (r.streamIndex isn seg) seg.header.fin).eofIdx := by
    rw [Unaffected, hout, StreamReassembler.noteEof_buffer, hended, StreamReassembler.noteEof_open hopen]
    exact and_iff_right hadded
  rw [hsame]
  cases hfin : seg.header.fin with
  | true =>
      -- the mark of the segment has been passed
      have hmark : (a.noteEof seg.payload (r.streamIndex isn seg) true).eofIdx =
          (r.streamIndex isn seg + seg.payload.length) % 2 ^ 64 := rfl
      have hle := Nat.mod_le (r.streamIndex isn seg + seg.payload.length) (2 ^ 64)
      have hnext := hframe.next_le
      rw [hfin, if_pos rfl] at hend
      constructor
      · intro hlt
        omega
      · rintro ⟨hno, -⟩
        exact absurd hno (by simp)
  | false =>
      have hmark : (a.noteEof seg.payload (r.streamIndex isn seg) false).eofIdx =
          r.reassembler.eofIdx := hframe.eofIdx
      rw [hmark, hwritten, hbefore]
      exact (and_iff_right rfl).symm

/-- **Segments outside the window.**  In every state a run of representable segments can reach, a
segment without SYN that lies wholly below the acknowledgment number or wholly past the window adds
nothing to the output but what was stored, and does not end it, if and only if it is harmless. -/
theorem unaffected_iff (capacity : ℕ) (hcap : capacity < 2 ^ 64) (ops : List Op)
    (hops : StepSystem.Guarded call (fun r op => op.Representable r) (new capacity) ops)
    (r : TCPReceiver) (hr : r = StepSystem.run call (new capacity) ops) (isn : WrappingInt32)
    (hisn : r.isn = some isn) (seg : TCPSegment) (hrep : (Op.segment seg).Representable r)
    (hsyn : seg.header.syn = false) (hlen : 0 < seg.lengthInSequenceSpace)
    (hout : r.absoluteSeqno isn seg + seg.lengthInSequenceSpace ≤ r.absoluteAckno ∨
      r.absoluteAckno + r.windowSize ≤ r.absoluteSeqno isn seg) :
    Unaffected r (r.segmentReceived seg).1 ↔ Harmless r isn seg := by
  have hst : Standing capacity r := by
    rw [hr]
    exact hops.invariant (fun _ _ hop hs => hs.call hcap hop) (Standing.new capacity)
  obtain ⟨hrep, -⟩ := hrep
  rw [hisn] at hrep
  have hrep : r.absoluteSeqno isn seg + seg.lengthInSequenceSpace ≤ 2 ^ 64 := hrep
  have hstream := streamOut_segmentReceived hisn seg
  have hsame : Harmless r isn seg → (r.reassembler.pushSubstring seg.payload
      (r.streamIndex isn seg) seg.header.fin).output = r.reassembler.output →
      (Unaffected r (r.segmentReceived seg).1 ↔ Harmless r isn seg) := fun hharm heq =>
    iff_of_true (Unaffected.of_output (hstream.trans heq)) hharm
  by_cases hended : r.streamOut.inputEnded = true
  · exact hsame (Or.inl hended) (StreamReassembler.pushSubstring_ended hended _ _ _)
  by_cases hlate : r.reassembler.Late (r.streamIndex isn seg)
  · refine hsame (Or.inr (Or.inl hlate)) ?_
    rw [StreamReassembler.pushSubstring, StreamReassembler.pushChecked_of_late
      hst.settled.toShaped (hst.capacity_eq.trans_lt hcap) hlate]
    rfl
  have hopen : r.streamOut.inputEnded = false := by simpa using hended
  have hpos : 0 < r.absoluteSeqno isn seg :=
    Nat.pos_of_ne_zero fun hzero => hlate (late_of_zero hsyn hzero)
  have hbelow := hout.resolve_right fun hpast =>
    hlate (hst.late_of_past hcap hsyn hpast (by omega))
  have hend := end_le_of_below hsyn hpos hopen hbelow (by omega)
  have hnext : r.streamOut.bytesWritten = r.reassembler.nextAssembledIdx := hst.settled.written
  have hwindow := hst.settled.window_end
  have hroom : r.reassembler.windowEnd < 2 ^ 64 := by
    by_contra hover
    exact hlate (Or.inl (not_lt.mp hover))
  have hlt : r.reassembler.nextAssembledIdx < 2 ^ 64 := by
    rw [StreamReassembler.windowEnd] at hroom
    omega
  have hstart := hst.settled.newStart_near (r.streamIndex isn seg)
  by_cases hfar : r.streamIndex isn seg + seg.payload.length + 2 ^ 63 < r.streamOut.bytesWritten
  · refine hsame (Or.inr (Or.inr (Or.inl hfar))) ?_
    exact StreamReassembler.pushSubstring_of_far (by omega) (by omega) _
  have hpass := mt (StreamReassembler.late_iff hst.settled.toShaped
    (hst.capacity_eq.trans_lt hcap) (r.streamIndex isn seg)).mpr hlate
  have hstale : r.streamIndex isn seg + seg.payload.length ≤
      r.reassembler.newStart (r.streamIndex isn seg) := by omega
  have hpush := StreamReassembler.pushSubstring_of_stale hstale (by omega) (by omega)
    (not_le.mp hpass) seg.header.fin
  rw [Harmless, or_iff_right hended, or_iff_right hlate, or_iff_right hfar]
  exact unaffected_of_stale hst hisn hopen hend hpush

instance (r : TCPReceiver) (isn : WrappingInt32) (seg : TCPSegment) :
    Decidable (Harmless r isn seg) := inferInstanceAs (Decidable (_ ∨ _ ∨ _ ∨ _))

/-- A stale byte after a SYN and ten bytes. -/
theorem unaffected_iff_stale :
    let syn : TCPSegment := { header := { syn := true } }
    let ten : TCPSegment := { header := { seqno := ⟨1⟩ }, payload := List.replicate 10 7 }
    let stale : TCPSegment := { header := { seqno := ⟨5⟩ }, payload := [9] }
    let r := StepSystem.run call (new 64000) [.segment syn, .segment ten]
    Unaffected r (r.segmentReceived stale).1 := by
  intro syn ten stale r
  exact (unaffected_iff 64000 (by decide) [.segment syn, .segment ten] (by decide +kernel) r rfl ⟨0⟩
    (by decide +kernel) stale (by decide +kernel) rfl (by decide) (by decide +kernel)).mpr
    (by decide +kernel)

/-- After a SYN and ten bytes a stale FIN ends the stream. -/
theorem stale_fin_ends :
    let syn : TCPSegment := { header := { syn := true } }
    let ten : TCPSegment := { header := { seqno := ⟨1⟩ }, payload := List.replicate 10 7 }
    let fin : TCPSegment := { header := { seqno := ⟨5⟩, fin := true } }
    let r := StepSystem.run call (new 64000) [.segment syn, .segment ten]
    r.isn = some ⟨0⟩ ∧ r.absoluteSeqno ⟨0⟩ fin + fin.lengthInSequenceSpace ≤ r.absoluteAckno ∧
      r.streamOut.inputEnded = false ∧ (r.segmentReceived fin).1.streamOut.inputEnded = true ∧
      ¬Unaffected r (r.segmentReceived fin).1 := by
  intro syn ten fin r
  have hopen : r.streamOut.inputEnded = false := by decide +kernel
  have hends : (r.segmentReceived fin).1.streamOut.inputEnded = true := by decide +kernel
  refine ⟨by decide +kernel, by decide +kernel, hopen, hends, fun h => ?_⟩
  exact absurd (hends.symm.trans (h.2.trans hopen)) (by decide)

end TCPReceiver

end CourseNet
