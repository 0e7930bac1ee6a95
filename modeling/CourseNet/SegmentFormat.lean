import CourseNet.ConnectionLog

/-!
# The format of the segments

Whatever a connection is told, a segment it emits has a header of five words and at most
`MAX_PAYLOAD_SIZE` bytes: the owner can put every one of them into a datagram.
-/

namespace CourseNet

/-- A header of five words, and no more bytes than `fill_window` puts into one segment. -/
structure TCPSegment.Compact (seg : TCPSegment) : Prop where
  header : seg.header.doff = 5
  size : seg.payload.length ≤ TCPConfig.maxPayloadSize

namespace TCPSender

/-- The segments that are queued and those that may be queued again. -/
structure Compact (s : TCPSender) : Prop extends s.Sound where
  queued : ∀ seg ∈ s.segmentsOut, seg.Compact
  kept : ∀ e ∈ s.outstanding, e.2.Compact

theorem blankSegment_compact (s : TCPSender) : s.blankSegment.Compact := ⟨rfl, Nat.zero_le _⟩

namespace Compact

variable {s t : TCPSender}

theorem new (capacity : ℕ) (retxTimeout : UInt16) (fixedIsn : Option WrappingInt32)
    (random : UInt32) : (TCPSender.new capacity retxTimeout fixedIsn random).Compact :=
  ⟨Sound.new _ _ _ _, fun _ h => absurd h List.not_mem_nil, fun _ h => absurd h List.not_mem_nil⟩

/-- What a send produces. -/
theorem sends_segment (h : s.Compact) {right : ℕ} (hsend : Sends right s t) :
    ∃ seg : TCPSegment, seg.Compact ∧ t.outstanding = s.outstanding ++ [(s.nextSeqno, seg)] ∧
      t.segmentsOut = s.segmentsOut ++ [seg] := by
  cases hsend with
  | syn hsyn hlt =>
      exact ⟨s.synSegment, ⟨rfl, Nat.zero_le _⟩, transmit_outstanding h.key_lt _, rfl⟩
  | stream n fin hsyn hn hmax hpos hfit hfin =>
      refine ⟨s.streamSegment n fin, ⟨rfl, ?_⟩,
        transmit_outstanding (s := { s with stream := s.stream.popOutput n }) h.key_lt _, rfl⟩
      exact (List.length_take_le n _).trans hmax

theorem sends (h : s.Compact) {right : ℕ} (hsend : Sends right s t) : t.Compact := by
  obtain ⟨seg, hseg, hout, hqueue⟩ := h.sends_segment hsend
  refine ⟨h.toSound.sends hsend, fun q hq => ?_, fun e he => ?_⟩
  · rw [hqueue, List.mem_append, List.mem_singleton] at hq
    exact hq.elim (h.queued q) fun hq => hq ▸ hseg
  · rw [hout, List.mem_append, List.mem_singleton] at he
    exact he.elim (h.kept e) fun he => he ▸ hseg

theorem fillWindow (h : s.Compact) : s.fillWindow.Compact :=
  fillWindow_invariant h fun _ _ ht hsend => ht.sends hsend

/-- Changes that queue and track nothing but what was there, or an empty segment. -/
theorem of_sub (h : s.Compact) (ht : t.Sound)
    (hqueue : ∀ q ∈ t.segmentsOut,
      q ∈ s.segmentsOut ∨ (∃ e ∈ s.outstanding, q = e.2) ∨ q = s.blankSegment)
    (hout : ∀ e ∈ t.outstanding, e ∈ s.outstanding) : t.Compact := by
  refine ⟨ht, fun q hq => ?_, fun e he => h.kept e (hout e he)⟩
  rcases hqueue q hq with hold | ⟨e, he, rfl⟩ | rfl
  · exact h.queued q hold
  · exact h.kept e he
  · exact s.blankSegment_compact

theorem move (h : s.Compact) (hmove : SenderMove s t) : t.Compact := by
  have ht := hmove.sound h.toSound
  cases hmove with
  | ackReceived ackno w =>
      rcases s.ackReceived_cases ackno w with ⟨-, heq⟩ | ⟨hle, heq⟩
      · rw [heq]
        exact h
      · have hframe := s.noteAck_frame (s.absoluteAckno ackno) w
        have hnoted : (s.noteAck (s.absoluteAckno ackno) w).Compact :=
          h.of_sub (h.toSound.noteAck hle w) (fun q hq => Or.inl (hframe.segmentsOut ▸ hq))
            fun e he => ((s.noteAck_outstanding _ w e).mp he).1
        have hfilled := hnoted.fillWindow
        rw [heq, stopTimer_eq]
        exact hfilled.of_sub (by rw [← stopTimer_eq]; exact hfilled.toSound.stopTimer)
          (fun _ hq => Or.inl hq) fun _ he => he
  | fillWindow => exact h.fillWindow
  | sendEmptySegment =>
      refine h.of_sub ht (fun q hq => ?_) fun _ he => he
      rcases List.mem_append.mp hq with hq | hq
      · exact Or.inl hq
      · exact Or.inr (Or.inr (List.mem_singleton.mp hq))
  | tick ms =>
      have hframe := s.tick_frame ms
      refine h.of_sub ht (fun q hq => ?_) fun e he => hframe.outstanding ▸ he
      rcases s.tick_segmentsOut ms with hqueue | ⟨e, he, hqueue⟩
      · exact Or.inl (hqueue ▸ hq)
      · rw [hqueue] at hq
        rcases List.mem_append.mp hq with hq | hq
        · exact Or.inl hq
        · exact Or.inr (Or.inl ⟨e, he, List.mem_singleton.mp hq⟩)
  | setError => exact h.of_sub ht (fun _ hq => Or.inl hq) fun _ he => he
  | dequeue q hq => exact h.of_sub ht (fun p hp => Or.inl (hq p hp)) fun _ he => he

theorem setStream (h : s.Compact) {b : ByteStream} (ht : { s with stream := b }.Sound) :
    { s with stream := b }.Compact :=
  h.of_sub ht (fun _ hq => Or.inl hq) fun _ he => he

end Compact

end TCPSender

namespace TCPConnection

/-- The connection emits and keeps compact segments only. -/
structure Compact (c : TCPConnection) : Prop where
  sender : c.sender.Compact
  emitted : ∀ seg ∈ c.segmentsOut, seg.Compact

theorem Compact.new (cfg : TCPConfig) (random : UInt32) : (TCPConnection.new cfg random).Compact :=
  ⟨TCPSender.Compact.new _ _ _ _, fun _ h => absurd h List.not_mem_nil⟩

namespace Compact

variable {c d : TCPConnection}

/-- A call that emits nothing. -/
theorem of_sender (h : c.Compact) (hsender : d.sender.Compact)
    (hout : d.segmentsOut = c.segmentsOut) : d.Compact :=
  ⟨hsender, hout ▸ h.emitted⟩

theorem moves (h : c.Compact) {s : TCPSender} (hmoves : SenderMoves c.sender s) : s.Compact :=
  hmoves.invariant (P := TCPSender.Compact) (fun _ _ hmove hs => hs.move hmove) h.sender

/-- The stamp leaves the format alone. -/
theorem pushSegmentsOut (h : c.Compact) : c.pushSegmentsOut.Compact := by
  refine ⟨h.sender.move (SenderMove.dequeue [] fun _ he => absurd he List.not_mem_nil), ?_⟩
  intro seg hseg
  rcases List.mem_append.mp hseg with hold | hnew
  · exact h.emitted seg hold
  · obtain ⟨q, hq, rfl⟩ := List.mem_map.mp hnew
    have hcompact := h.sender.queued q hq
    exact ⟨hcompact.header, hcompact.size⟩

/-- A call that gives the connection a sender and lets it send. -/
theorem sends (h : c.Compact) {s : TCPSender} (hs : s.Compact) (active : Bool) :
    { c with sender := s, isActive := active }.pushSegmentsOut.Compact :=
  (h.of_sender (d := { c with sender := s, isActive := active }) hs rfl).pushSegmentsOut

/-- Nor does making a RST of the front of the queue change it. -/
theorem uncleanShutdown (h : c.Compact) (sendRst : Bool) : (c.uncleanShutdown sendRst).Compact := by
  refine ⟨h.moves (c.uncleanShutdown_moves sendRst), fun seg hseg => ?_⟩
  have hall := (h.sender.setStream (b := c.sender.stream.setError) h.sender.toSound.setError).move
    SenderMove.sendEmptySegment
  unfold TCPConnection.uncleanShutdown at hseg
  dsimp only [setErrors] at hseg
  split at hseg
  · split at hseg
    · exact h.emitted seg hseg
    · rename_i q rest hq
      rcases List.mem_append.mp hseg with hold | hnew
      · exact h.emitted seg hold
      · have hcompact := hall.queued q (hq ▸ List.mem_cons_self)
        rw [List.mem_singleton.mp hnew]
        exact ⟨hcompact.header, hcompact.size⟩
  · exact h.emitted seg hseg

theorem segmentReceived (h : c.Compact) (seg : TCPSegment) : (c.segmentReceived seg).Compact := by
  rcases c.segmentReceived_cases seg with ⟨-, heq⟩ | ⟨-, -, heq⟩ | ⟨-, -, -, heq⟩ | ⟨-, -, -, heq⟩
  · rw [heq]
    exact h
  · rw [heq]
    exact (h.of_sender (d := { c with timeSinceLastSegmentReceived := 0 }) h.sender
      rfl).uncleanShutdown false
  · rw [heq]
    exact h.of_sender h.sender rfl
  · have hack := (c.received seg).acknowledge_moves seg
    have hreply := ((c.received seg).acknowledge seg).noteInboundEnd.reply_moves seg
    rw [noteInboundEnd_sender] at hreply
    rw [heq]
    exact (h.of_sender (h.moves (hack.trans hreply)) (by simp [received])).pushSegmentsOut

theorem tick (h : c.Compact) (ms : ℕ) : (c.tick ms).Compact := by
  have hticked : (c.ticked ms).Compact := h.of_sender (h.sender.move (SenderMove.tick ms)) rfl
  rcases c.tick_cases ms with ⟨-, heq⟩ | ⟨-, -, heq⟩ | ⟨-, -, heq⟩
  · rw [heq]
    exact h
  · rw [heq]
    exact hticked.uncleanShutdown true
  · rw [heq, closeIfFinished_eq]
    exact hticked.pushSegmentsOut.of_sender hticked.pushSegmentsOut.sender rfl

theorem step (h : c.Compact) (op : Op) : (c.step op).Compact := by
  cases op with
  | connect => exact h.sends h.sender.fillWindow true
  | write data =>
      show (c.write data).1.Compact
      rcases Bool.eq_false_or_eq_true c.isActive with hactive | hactive
      · rw [write_active hactive]
        exact h.sends (h.sender.setStream (h.sender.toSound.write data)).fillWindow c.isActive
      · rw [write_inactive hactive]
        exact h
  | endInputStream =>
      exact h.sends (h.sender.setStream h.sender.toSound.endInput).fillWindow c.isActive
  | segmentReceived seg => exact h.segmentReceived seg
  | tick ms => exact h.tick ms
  | readInbound len => exact h.of_sender h.sender rfl

end Compact

end TCPConnection

end CourseNet
