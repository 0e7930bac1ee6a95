import CourseNet.Excerpt
import CourseNet.ConnectionSender

/-!
# Segments that carry a stream

`Genuine` says what a segment of a sender with base `isn` looks like, given the stream `S` that
the application has written so far: it is the SYN, or an empty segment, or an excerpt of `S` at
the place its sequence number names, with FIN only at the end of `S`.  Everything a sender queues
or tracks is genuine, whatever it does.
-/

namespace CourseNet

/-- A segment that says nothing but the truth about the stream `S`; `E` is what a FIN tells. -/
inductive Genuine (S : Bytes) (E : Prop) (isn : WrappingInt32) (seg : TCPSegment) : Prop
  | syn (hsyn : seg.header.syn = true) (hfin : seg.header.fin = false) (hempty : seg.payload = [])
      (hseqno : seg.header.seqno = isn)
  | empty (hsyn : seg.header.syn = false) (hfin : seg.header.fin = false)
      (hempty : seg.payload = [])
  | stream (start : ℕ) (hsyn : seg.header.syn = false) (hstart : 1 ≤ start)
      (hend : start + seg.payload.length ≤ S.length + 1)
      (hseqno : seg.header.seqno = wrap start isn) (hdata : Excerpt S (start - 1) seg.payload)
      (hfin : seg.header.fin = true → E ∧ start + seg.payload.length = S.length + 1)

/-- The stream may turn out longer, until its end is known. -/
theorem Genuine.mono {S T : Bytes} {E F : Prop} {isn : WrappingInt32} {seg : TCPSegment}
    (h : Genuine S E isn seg) (hST : S <+: T) (hE : E → T = S) (hEF : E → F) :
    Genuine T F isn seg := by
  cases h with
  | syn hsyn hfin hempty hseqno => exact Genuine.syn hsyn hfin hempty hseqno
  | empty hsyn hfin hempty => exact Genuine.empty hsyn hfin hempty
  | stream start hsyn hstart hend hseqno hdata hfin =>
      have hlen := hST.length_le
      refine Genuine.stream start hsyn hstart (by omega) hseqno (hdata.mono hST) fun hf => ?_
      obtain ⟨he, hlast⟩ := hfin hf
      exact ⟨hEF he, by rw [hE he]; exact hlast⟩

theorem Genuine.of_fin {S : Bytes} {E : Prop} {isn : WrappingInt32} {seg : TCPSegment}
    (h : Genuine S E isn seg) (hfin : seg.header.fin = true) : E := by
  cases h with
  | syn hsyn hno => exact absurd hfin (by simp [hno])
  | empty hsyn hno => exact absurd hfin (by simp [hno])
  | stream start hsyn hstart hend hseqno hdata hlast => exact (hlast hfin).1

namespace TCPSender

/-- The segment takes none of the sequence numbers from `_next_seqno` on; an empty one may stand at
`_next_seqno` itself. -/
def Placed (s : TCPSender) (seg : TCPSegment) : Prop :=
  ∃ n, seg.header.seqno = wrap n s.isn ∧ n + seg.lengthInSequenceSpace ≤ s.nextSeqno

theorem Placed.mono {s t : TCPSender} {seg : TCPSegment} (h : s.Placed seg) (hisn : t.isn = s.isn)
    (hnext : s.nextSeqno ≤ t.nextSeqno) : t.Placed seg := by
  obtain ⟨n, hseqno, hle⟩ := h
  exact ⟨n, hisn ▸ hseqno, hle.trans hnext⟩

/-- A segment as the sender queues it: the receiver has not stamped it yet. -/
structure Raw (S : Bytes) (s : TCPSender) (seg : TCPSegment) : Prop where
  unstamped : seg.header.ack = false
  genuine : Genuine S (s.finSent = true) s.isn seg
  placed : s.Placed seg

theorem Raw.mono {S : Bytes} {s t : TCPSender} {seg : TCPSegment} (h : Raw S s seg)
    (hisn : t.isn = s.isn) (hfin : s.finSent = true → t.finSent = true)
    (hnext : s.nextSeqno ≤ t.nextSeqno) : Raw S t seg :=
  ⟨h.unstamped, hisn ▸ h.genuine.mono (List.prefix_refl S) (fun _ => rfl) hfin,
    h.placed.mono hisn hnext⟩

/-- The sender's stream holds what is left of `S`, and all its segments tell the truth about `S`. -/
structure Carries (S : Bytes) (s : TCPSender) : Prop extends s.Sound where
  wrote : ∃ taken, s.stream.Wrote taken S
  queued : ∀ seg ∈ s.segmentsOut, Raw S s seg
  kept : ∀ e ∈ s.outstanding, Raw S s e.2

theorem Carries.new (capacity : ℕ) (retxTimeout : UInt16) (fixedIsn : Option WrappingInt32)
    (random : UInt32) : Carries [] (TCPSender.new capacity retxTimeout fixedIsn random) :=
  ⟨Sound.new _ _ _ _, ⟨[], rfl, rfl⟩, fun _ h => absurd h List.not_mem_nil,
    fun _ h => absurd h List.not_mem_nil⟩

theorem blankSegment_raw (S : Bytes) (s : TCPSender) : Raw S s s.blankSegment :=
  ⟨rfl, Genuine.empty rfl rfl rfl, s.nextSeqno, rfl, le_refl _⟩

namespace Carries

variable {S : Bytes} {s s' t : TCPSender}

theorem length_eq (h : Carries S s) : S.length = s.stream.bytesWritten := by
  obtain ⟨taken, hwrote⟩ := h.wrote
  exact hwrote.length

/-- The next sequence number stays within the stream, its SYN and its FIN. -/
theorem next_le (h : Carries S s) : s.nextSeqno ≤ S.length + 2 := by
  have hacc := s.stream.accounting
  rw [h.next_eq, h.length_eq]
  have hsyn : s.synSent.toNat ≤ 1 := Bool.toNat_le _
  have hfin : s.finSent.toNat ≤ 1 := Bool.toNat_le _
  omega

/-- After the FIN the next sequence number is the last one. -/
theorem next_of_finSent (h : Carries S s) (hfin : s.finSent = true) :
    s.nextSeqno = S.length + 2 := by
  have hsyn := (h.done_of_finSent hfin).1
  rw [h.next_eq, hsyn, hfin, ByteStream.bytesRead_of_buffer_nil (h.fin_sent hfin).2, h.length_eq,
    Bool.toNat_true]
  omega

/-- The rest of the stream is in the buffer. -/
theorem excerpt_buffer (h : Carries S s) (n : ℕ) :
    Excerpt S s.stream.bytesRead (s.stream.buffer.take n) := by
  obtain ⟨taken, hall, hlen⟩ := h.wrote
  have hdrop : S.drop s.stream.bytesRead = s.stream.buffer := by
    rw [← hall, ← hlen, List.drop_left]
  rw [Excerpt, hdrop]
  exact List.take_prefix _ _

/-- What a send produces is raw. -/
theorem sends_raw (h : Carries S s) {right : ℕ} (hsend : Sends right s s') :
    ∃ seg : TCPSegment, Raw S s' seg ∧ s'.outstanding = s.outstanding ++ [(s.nextSeqno, seg)] ∧
      s'.segmentsOut = s.segmentsOut ++ [seg] ∧ ∃ taken, s'.stream.Wrote taken S := by
  cases hsend with
  | syn hsyn hlt =>
      refine ⟨s.synSegment, ⟨rfl, Genuine.syn rfl rfl rfl ?_, s.nextSeqno, rfl, le_refl _⟩,
        transmit_outstanding h.key_lt _, rfl, h.wrote⟩
      obtain ⟨hread, hfin⟩ := h.syn_unsent hsyn
      have hnext := h.next_eq
      rw [hsyn, hread, hfin] at hnext
      show wrap s.nextSeqno s.isn = s.isn
      rw [hnext]
      exact wrap_zero s.isn
  | stream n fin hsyn hn hmax hpos hfit hfin =>
      obtain ⟨taken, hwrote⟩ := h.wrote
      refine ⟨s.streamSegment n fin, ⟨rfl, ?_, s.nextSeqno, rfl, le_refl _⟩,
        transmit_outstanding (s := { s with stream := s.stream.popOutput n }) h.key_lt _, rfl,
        taken ++ s.stream.peekOutput n, hwrote.read n⟩
      have hsent := h.finSent_of_sends hn hpos fun hf => (hfin hf).1
      have hnext := h.next_eq
      rw [hsyn, hsent, Bool.toNat_true, Bool.toNat_false] at hnext
      have hlen : (s.streamSegment n fin).payload.length = n := by
        show (s.stream.buffer.take n).length = n
        rw [List.length_take]
        exact min_eq_left hn
      have hall := h.length_eq
      have hacc := s.stream.accounting
      refine Genuine.stream s.nextSeqno rfl (by omega) (by omega) rfl ?_ fun hf => ?_
      · have hread : s.nextSeqno - 1 = s.stream.bytesRead := by omega
        rw [hread]
        exact h.excerpt_buffer n
      · have hf : fin = true := hf
        obtain ⟨-, -, hwhole⟩ := hfin hf
        exact ⟨by simp [sendStream, hf], by omega⟩

theorem sends (h : Carries S s) {right : ℕ} (hsend : Sends right s s') : Carries S s' := by
  obtain ⟨seg, hraw, hout, hqueue, hwrote⟩ := h.sends_raw hsend
  have hisn := hsend.frame.isn
  have hfin := hsend.frame.finSent
  have hnext := hsend.next_bounds.1.le
  refine ⟨h.toSound.sends hsend, hwrote, fun q hq => ?_, fun e he => ?_⟩
  · rw [hqueue] at hq
    rcases List.mem_append.mp hq with hq | hq
    · exact (h.queued q hq).mono hisn hfin hnext
    · rw [List.mem_singleton.mp hq]
      exact hraw
  · rw [hout] at he
    rcases List.mem_append.mp he with he | he
    · exact (h.kept e he).mono hisn hfin hnext
    · rw [List.mem_singleton.mp he]
      exact hraw

theorem fillWindow (h : Carries S s) : Carries S s.fillWindow :=
  fillWindow_invariant h fun _ _ ht hsend => ht.sends hsend

/-- Changes that queue and track nothing but what was there, or an empty segment. -/
theorem of_sub (h : Carries S s) (ht : t.Sound) (hisn : t.isn = s.isn)
    (hfin : t.finSent = s.finSent) (hnext : t.nextSeqno = s.nextSeqno)
    (hwrote : ∃ taken, t.stream.Wrote taken S)
    (hqueue : ∀ q ∈ t.segmentsOut,
      q ∈ s.segmentsOut ∨ (∃ e ∈ s.outstanding, q = e.2) ∨ q = s.blankSegment)
    (hout : ∀ e ∈ t.outstanding, e ∈ s.outstanding) : Carries S t := by
  have hmono : ∀ {seg}, Raw S s seg → Raw S t seg := fun hraw => hraw.mono hisn (fun h => hfin ▸ h) hnext.ge
  refine ⟨ht, hwrote, fun q hq => ?_, fun e he => hmono (h.kept e (hout e he))⟩
  rcases hqueue q hq with hold | ⟨e, he, rfl⟩ | rfl
  · exact hmono (h.queued q hold)
  · exact hmono (h.kept e he)
  · exact hmono (blankSegment_raw S s)

/-- The application writes. -/
theorem write (h : Carries S s) (d : Bytes) :
    Carries (S ++ d.take (s.stream.write d).2) { s with stream := (s.stream.write d).1 } := by
  obtain ⟨taken, hwrote⟩ := h.wrote
  have hmono : ∀ {seg}, Raw S s seg →
      Raw (S ++ d.take (s.stream.write d).2) { s with stream := (s.stream.write d).1 } seg :=
    fun hraw => ⟨hraw.unstamped, hraw.genuine.mono (List.prefix_append _ _) (fun hfin => by
      rw [ByteStream.write_snd_of_ended (h.fin_sent hfin).1, List.take_zero, List.append_nil]) id,
      hraw.placed⟩
  exact ⟨h.toSound.write d, ⟨taken, hwrote.write d⟩, fun q hq => hmono (h.queued q hq),
    fun e he => hmono (h.kept e he)⟩

theorem endInput (h : Carries S s) : Carries S { s with stream := s.stream.endInput } :=
  h.of_sub h.toSound.endInput rfl rfl rfl h.wrote (fun _ hq => Or.inl hq) fun _ he => he

end Carries

end TCPSender

theorem SenderMove.carries {S : Bytes} {s t : TCPSender} (h : SenderMove s t)
    (hs : TCPSender.Carries S s) : TCPSender.Carries S t := by
  have ht := h.sound hs.toSound
  cases h with
  | ackReceived ackno w =>
      rcases s.ackReceived_cases ackno w with ⟨-, heq⟩ | ⟨hle, heq⟩
      · rw [heq]
        exact hs
      · have hframe := s.noteAck_frame (s.absoluteAckno ackno) w
        have hnoted : TCPSender.Carries S (s.noteAck (s.absoluteAckno ackno) w) :=
          hs.of_sub (hs.toSound.noteAck hle w) hframe.isn hframe.finSent hframe.nextSeqno
            (by rw [hframe.stream]; exact hs.wrote) (fun q hq => Or.inl (hframe.segmentsOut ▸ hq))
            fun e he => ((s.noteAck_outstanding _ w e).mp he).1
        have hfilled := hnoted.fillWindow
        rw [heq, TCPSender.stopTimer_eq]
        exact hfilled.of_sub (by rw [← TCPSender.stopTimer_eq]; exact hfilled.toSound.stopTimer)
          rfl rfl rfl hfilled.wrote (fun _ hq => Or.inl hq) fun _ he => he
  | fillWindow => exact hs.fillWindow
  | sendEmptySegment =>
      refine hs.of_sub ht rfl rfl rfl hs.wrote (fun q hq => ?_) fun _ he => he
      rcases List.mem_append.mp hq with hq | hq
      · exact Or.inl hq
      · exact Or.inr (Or.inr (List.mem_singleton.mp hq))
  | tick ms =>
      have hframe := s.tick_frame ms
      refine hs.of_sub ht hframe.isn hframe.finSent hframe.nextSeqno (by rw [hframe.stream]; exact hs.wrote)
        (fun q hq => ?_) fun e he => hframe.outstanding ▸ he
      rcases s.tick_segmentsOut ms with hqueue | ⟨e, he, hqueue⟩
      · exact Or.inl (hqueue ▸ hq)
      · rw [hqueue] at hq
        rcases List.mem_append.mp hq with hq | hq
        · exact Or.inl hq
        · exact Or.inr (Or.inl ⟨e, he, List.mem_singleton.mp hq⟩)
  | setError => exact hs.of_sub ht rfl rfl rfl hs.wrote (fun _ hq => Or.inl hq) fun _ he => he
  | dequeue q hq =>
      exact hs.of_sub ht rfl rfl rfl hs.wrote (fun p hp => Or.inl (hq p hp)) fun _ he => he

theorem TCPSender.Carries.clear {S : Bytes} {s : TCPSender} (h : TCPSender.Carries S s) :
    TCPSender.Carries S { s with segmentsOut := [] } :=
  (SenderMove.dequeue [] fun _ he => absurd he List.not_mem_nil).carries h

end CourseNet
