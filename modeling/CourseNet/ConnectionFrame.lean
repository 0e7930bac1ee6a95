import CourseNet.ConnectionSender
import CourseNet.ReceiverAdvance

/-!
# What a call leaves alone

The phases of `segment_received` each change one part of the connection.  From that: which fields a
call keeps, when the linger flag is cleared, when the highest acknowledged number moves, and how a
connection ends.
-/

namespace CourseNet

namespace TCPConnection

/-! ### A processed segment -/

/-- `segment_received` after the receiver has taken the segment. -/
def processed (c : TCPConnection) (seg : TCPSegment) : TCPConnection :=
  ((((c.received seg).acknowledge seg).noteInboundEnd).reply seg).pushSegmentsOut

/-- What it changes beside the sender and the log. -/
structure Processed (c : TCPConnection) (seg : TCPSegment) : Prop where
  cfg : (c.processed seg).cfg = c.cfg
  receiver : (c.processed seg).receiver = (c.receiver.segmentReceived seg).1
  isActive : (c.processed seg).isActive = c.isActive
  time : (c.processed seg).timeSinceLastSegmentReceived = 0
  linger : (c.processed seg).lingerAfterStreamsFinish = (c.lingerAfterStreamsFinish &&
    !((c.receiver.segmentReceived seg).1.streamOut.inputEnded &&
      !((c.received seg).acknowledge seg).sender.stream.eof))

theorem processed_frame (c : TCPConnection) (seg : TCPSegment) : c.Processed seg := by
  constructor <;>
    (unfold processed
     rw [reply_eq, noteInboundEnd_eq, acknowledge_eq]
     rfl)

/-! ### The configuration, the sequence number base and the FIN -/

theorem step_cfg (c : TCPConnection) (op : Op) : (c.step op).cfg = c.cfg := by
  cases op with
  | connect => rfl
  | write data =>
      show (c.write data).1.cfg = c.cfg
      unfold write
      split <;> rfl
  | endInputStream => rfl
  | segmentReceived seg =>
      show (c.segmentReceived seg).cfg = c.cfg
      rcases c.segmentReceived_cases seg with ⟨-, h⟩ | ⟨-, -, h⟩ | ⟨-, -, -, h⟩ | ⟨-, -, -, h⟩
      · rw [h]
      · rw [h]
        rfl
      · rw [h]
        rfl
      · rw [h]
        exact (c.processed_frame seg).cfg
  | tick ms =>
      show (c.tick ms).cfg = c.cfg
      rcases c.tick_cases ms with ⟨-, h⟩ | ⟨-, -, h⟩ | ⟨-, -, h⟩
      · rw [h]
      · rw [h, uncleanShutdown_eq]
        rfl
      · rw [h, closeIfFinished_eq]
        rfl
  | readInbound len => rfl

theorem reply_ackno (c : TCPConnection) (seg : TCPSegment) :
    (c.reply seg).sender.ackno = c.sender.ackno := by
  unfold reply
  dsimp only
  split
  · split <;> exact c.sender.fillWindow_frame.ackno
  · rfl

theorem step_isn (c : TCPConnection) (op : Op) : (c.step op).sender.isn = c.sender.isn :=
  step_sender_invariant (P := fun s => s.isn = c.sender.isn)
    (fun _ _ hmove hs => hmove.frame.isn.trans hs)
    (fun _ _ hs => (TCPSender.fillWindow_frame _).isn.trans hs)
    (fun _ hs => (TCPSender.fillWindow_frame _).isn.trans hs) c op rfl

theorem step_finSent {c : TCPConnection} (h : c.sender.finSent = true) (op : Op) :
    (c.step op).sender.finSent = true :=
  step_sender_invariant (P := fun s => s.finSent = true) (fun _ _ hmove => hmove.frame.finSent)
    (fun _ _ hs => (TCPSender.fillWindow_frame _).finSent hs)
    (fun _ hs => (TCPSender.fillWindow_frame _).finSent hs) c op h

/-- `segment_received` moves the highest acknowledged number only to that of an ACK received while
active. -/
theorem segmentReceived_ackno (c : TCPConnection) (seg : TCPSegment) :
    (c.segmentReceived seg).sender.ackno = c.sender.ackno ∨
      (c.isActive = true ∧ seg.header.rst = false ∧ seg.header.ack = true ∧
        c.sender.ackno < c.sender.absoluteAckno seg.header.ackno ∧
        c.sender.absoluteAckno seg.header.ackno ≤ c.sender.nextSeqno ∧
        (c.segmentReceived seg).sender.ackno = c.sender.absoluteAckno seg.header.ackno) := by
  rcases c.segmentReceived_cases seg with ⟨-, h⟩ | ⟨-, -, h⟩ | ⟨-, -, -, h⟩ | ⟨ha, hr, -, h⟩
  · exact Or.inl (by rw [h])
  · exact Or.inl (by rw [h]; rfl)
  · exact Or.inl (by rw [h]; rfl)
  · have hreply : (c.segmentReceived seg).sender.ackno =
        ((c.received seg).acknowledge seg).sender.ackno := by
      have hsame := reply_ackno ((c.received seg).acknowledge seg).noteInboundEnd seg
      rw [noteInboundEnd_sender] at hsame
      rw [h]
      exact hsame
    rw [hreply]
    unfold acknowledge
    split
    · rename_i hack
      rcases c.sender.ackReceived_ackno seg.header.ackno seg.header.win with
        hsame | ⟨hlt, hle, hmove⟩
      · exact Or.inl hsame
      · exact Or.inr ⟨ha, hr, hack, hlt, hle, hmove⟩
    · exact Or.inl rfl

/-- No other call moves it. -/
theorem step_ackno (c : TCPConnection) (op : Op) :
    (c.step op).sender.ackno = c.sender.ackno ∨
      ∃ seg, op = .segmentReceived seg ∧ c.isActive = true ∧ seg.header.rst = false ∧
        seg.header.ack = true ∧
        c.sender.ackno < c.sender.absoluteAckno seg.header.ackno ∧
        c.sender.absoluteAckno seg.header.ackno ≤ c.sender.nextSeqno ∧
        (c.step op).sender.ackno = c.sender.absoluteAckno seg.header.ackno := by
  cases op with
  | connect => exact Or.inl c.sender.fillWindow_frame.ackno
  | write data =>
      left
      show (c.write data).1.sender.ackno = c.sender.ackno
      rcases Bool.eq_false_or_eq_true c.isActive with h | h
      · rw [write_active h]
        exact (TCPSender.fillWindow_frame _).ackno
      · rw [write_inactive h]
  | endInputStream => exact Or.inl (TCPSender.fillWindow_frame _).ackno
  | segmentReceived seg => exact (c.segmentReceived_ackno seg).imp_right fun h => ⟨seg, rfl, h⟩
  | tick ms =>
      left
      show (c.tick ms).sender.ackno = c.sender.ackno
      have hack := (c.sender.tick_frame ms).ackno
      rcases c.tick_cases ms with ⟨-, h⟩ | ⟨-, -, h⟩ | ⟨-, -, h⟩
      · rw [h]
      · rw [h, uncleanShutdown_eq]
        exact hack
      · rw [h, closeIfFinished_sender]
        exact hack
  | readInbound len => exact Or.inl rfl

/-! ### The receiver -/

/-- What a call can do to the receiver. -/
theorem step_receiver (c : TCPConnection) (op : Op) :
    (∃ len, op = .readInbound len ∧ (c.step op).receiver = (c.receiver.read len).2) ∨
    ((∀ len, op ≠ .readInbound len) ∧
      ((c.step op).receiver = c.receiver ∨ (c.step op).receiver = c.receiver.setError ∨
        ∃ seg, op = .segmentReceived seg ∧ seg.header.rst = false ∧ c.isActive = true ∧
          (c.step op).receiver = (c.receiver.segmentReceived seg).1)) := by
  cases op with
  | connect => exact Or.inr ⟨fun _ => by simp, Or.inl rfl⟩
  | write data =>
      refine Or.inr ⟨fun _ => by simp, Or.inl ?_⟩
      show (c.write data).1.receiver = c.receiver
      unfold write
      split <;> rfl
  | endInputStream => exact Or.inr ⟨fun _ => by simp, Or.inl rfl⟩
  | segmentReceived seg =>
      refine Or.inr ⟨fun _ => by simp, ?_⟩
      show (c.segmentReceived seg).receiver = c.receiver ∨
        (c.segmentReceived seg).receiver = c.receiver.setError ∨ _
      rcases c.segmentReceived_cases seg with ⟨-, h⟩ | ⟨-, -, h⟩ | ⟨ha, hr, -, h⟩ | ⟨ha, hr, -, h⟩
      · exact Or.inl (by rw [h])
      · exact Or.inr (Or.inl (by rw [h]; rfl))
      · exact Or.inr (Or.inr ⟨seg, rfl, hr, ha, by rw [step, h]; rfl⟩)
      · refine Or.inr (Or.inr ⟨seg, rfl, hr, ha, ?_⟩)
        rw [step, h]
        exact (c.processed_frame seg).receiver
  | tick ms =>
      refine Or.inr ⟨fun _ => by simp, ?_⟩
      show (c.tick ms).receiver = c.receiver ∨ (c.tick ms).receiver = c.receiver.setError ∨ _
      rcases c.tick_cases ms with ⟨-, h⟩ | ⟨-, -, h⟩ | ⟨-, -, h⟩
      · exact Or.inl (by rw [h])
      · exact Or.inr (Or.inl (by rw [h, uncleanShutdown_eq]; rfl))
      · exact Or.inl (by rw [h, closeIfFinished_eq]; rfl)
  | readInbound len => exact Or.inl ⟨len, rfl, rfl⟩

/-- So no call takes anything back from the receiver. -/
theorem step_advances (c : TCPConnection) (op : Op) : c.receiver.Advances (c.step op).receiver := by
  rcases c.step_receiver op with ⟨len, -, hr⟩ | ⟨-, hr | hr | ⟨seg, -, -, -, hr⟩⟩
  · rw [hr]
    exact c.receiver.advances_read len
  · rw [hr]
    exact TCPReceiver.Advances.refl _
  · rw [hr]
    exact c.receiver.advances_setError
  · rw [hr]
    exact c.receiver.advances_segmentReceived seg

/-! ### The linger flag -/

/-- A processed segment clears the flag only if the inbound stream has ended with it and the FIN was
not sent before. -/
theorem processed_linger {c : TCPConnection} (hs : c.sender.Sound) {seg : TCPSegment}
    (h : (c.processed seg).lingerAfterStreamsFinish = false) :
    c.lingerAfterStreamsFinish = false ∨
      ((c.processed seg).inboundStream.inputEnded = true ∧ c.sender.finSent = false) := by
  have hframe := c.processed_frame seg
  have h := hframe.linger.symm.trans h
  rw [Bool.and_eq_false_iff] at h
  refine h.imp_right fun h => ?_
  rw [Bool.not_eq_false', Bool.and_eq_true, Bool.not_eq_true'] at h
  obtain ⟨hended, heof⟩ := h
  refine ⟨(congrArg (·.streamOut.inputEnded) hframe.receiver).trans hended, ?_⟩
  by_contra hfin
  -- a sent FIN is still sent after the acknowledgment, and then the stream is at its end
  obtain ⟨hsound, hfin'⟩ := (c.received seg).acknowledge_moves seg |>.invariant
    (P := fun s => s.Sound ∧ s.finSent = true)
    (fun _ _ hmove hs => ⟨hmove.sound hs.1, hmove.frame.finSent hs.2⟩)
    ⟨hs, show c.sender.finSent = true by simpa using hfin⟩
  have heof' := ByteStream.eof_iff.mpr (hsound.fin_sent hfin')
  rw [heof] at heof'
  exact absurd heof' (by simp)

/-- The flag is cleared only by a call after which the inbound stream has ended, and only if the FIN
was not sent before the call. -/
theorem step_linger {c : TCPConnection} (hs : c.sender.Sound) (op : Op)
    (h : (c.step op).lingerAfterStreamsFinish = false) :
    c.lingerAfterStreamsFinish = false ∨
      ((c.step op).inboundStream.inputEnded = true ∧ c.sender.finSent = false) := by
  cases op with
  | connect => exact Or.inl h
  | write data =>
      left
      have h : (c.write data).1.lingerAfterStreamsFinish = false := h
      unfold write at h
      split at h <;> exact h
  | endInputStream => exact Or.inl h
  | segmentReceived seg =>
      have h : (c.segmentReceived seg).lingerAfterStreamsFinish = false := h
      show _ ∨ ((c.segmentReceived seg).inboundStream.inputEnded = true ∧ _)
      rcases c.segmentReceived_cases seg with ⟨-, heq⟩ | ⟨-, -, heq⟩ | ⟨-, -, -, heq⟩ |
        ⟨-, -, -, heq⟩
      · rw [heq] at h
        exact Or.inl h
      · rw [heq] at h
        exact Or.inl h
      · rw [heq] at h
        exact Or.inl h
      · rw [heq] at h ⊢
        exact processed_linger hs h
  | tick ms =>
      left
      have h : (c.tick ms).lingerAfterStreamsFinish = false := h
      rcases c.tick_cases ms with ⟨-, heq⟩ | ⟨-, -, heq⟩ | ⟨-, -, heq⟩
      · rw [heq] at h
        exact h
      · rw [heq, uncleanShutdown_eq] at h
        exact h
      · rw [heq, closeIfFinished_eq] at h
        exact h
  | readInbound len => exact Or.inl h

/-! ### The end -/

theorem uncleanShutdown_error (c : TCPConnection) (sendRst : Bool) :
    (c.uncleanShutdown sendRst).sender.stream.error = true := by
  rw [uncleanShutdown_eq]
  rfl

theorem closeIfFinished_ends {c : TCPConnection} (hactive : c.isActive = true)
    (hended : c.closeIfFinished.isActive = false) :
    c.streamsFinished = true ∧ (c.lingerAfterStreamsFinish = false ∨
      10 * c.cfg.rtTimeout.toNat ≤ c.timeSinceLastSegmentReceived) := by
  unfold closeIfFinished at hended
  split at hended
  · rename_i hfinished
    refine ⟨hfinished, ?_⟩
    split at hended
    · rename_i hlinger
      exact Or.inl (by simpa using hlinger)
    · split at hended
      · rename_i htime
        exact Or.inr htime
      · exact absurd hactive (by simp [hended])
  · exact absurd hactive (by simp [hended])

/-- A call that ends a connection without an error on the outbound stream is a tick that found both
streams finished, and either need not linger or has lingered. -/
theorem step_ends {c : TCPConnection} {op : Op} (hactive : c.isActive = true)
    (hended : (c.step op).isActive = false) (herror : (c.step op).sender.stream.error = false) :
    (∃ ms, op = .tick ms) ∧ (c.step op).streamsFinished = true ∧
      ((c.step op).lingerAfterStreamsFinish = false ∨
        10 * (c.step op).cfg.rtTimeout.toNat ≤ (c.step op).timeSinceLastSegmentReceived) := by
  cases op with
  | connect => exact absurd hended (by simp [step, connect, pushSegmentsOut])
  | write data =>
      have hended : (c.write data).1.isActive = false := hended
      unfold write at hended
      split at hended <;> exact absurd hactive (by simpa [pushSegmentsOut] using hended)
  | endInputStream =>
      exact absurd hactive (by simpa [step, endInputStream, pushSegmentsOut] using hended)
  | segmentReceived seg =>
      have hended : (c.segmentReceived seg).isActive = false := hended
      have herror : (c.segmentReceived seg).sender.stream.error = false := herror
      rcases c.segmentReceived_cases seg with ⟨hno, -⟩ | ⟨-, -, heq⟩ | ⟨-, -, -, heq⟩ |
        ⟨-, -, -, heq⟩
      · exact absurd hactive (by simp [hno])
      · rw [heq, uncleanShutdown_error] at herror
        exact absurd herror (by simp)
      · rw [heq] at hended
        exact absurd hactive (by simp [show c.isActive = false from hended])
      · rw [heq] at hended
        exact absurd hactive (by simp [(c.processed_frame seg).isActive.symm.trans hended])
  | tick ms =>
      have hended : (c.tick ms).isActive = false := hended
      have herror : (c.tick ms).sender.stream.error = false := herror
      show _ ∧ (c.tick ms).streamsFinished = true ∧ ((c.tick ms).lingerAfterStreamsFinish = false ∨
        10 * (c.tick ms).cfg.rtTimeout.toNat ≤ (c.tick ms).timeSinceLastSegmentReceived)
      rcases c.tick_cases ms with ⟨hno, -⟩ | ⟨-, -, heq⟩ | ⟨-, -, heq⟩
      · exact absurd hactive (by simp [hno])
      · rw [heq, uncleanShutdown_error] at herror
        exact absurd herror (by simp)
      · rw [heq] at hended ⊢
        have hends := closeIfFinished_ends (c := (c.ticked ms).pushSegmentsOut) hactive hended
        rw [closeIfFinished_eq]
        exact ⟨⟨ms, rfl⟩, hends⟩
  | readInbound len => exact absurd hactive (by simpa [step, readInbound] using hended)

/-- The calls other than `connect` and `end_input_stream` leave the sender and the log of an ended
connection alone. -/
theorem step_inactive {c : TCPConnection} (h : c.isActive = false) {op : Op}
    (hconnect : op ≠ .connect) (hend : op ≠ .endInputStream) :
    (c.step op).isActive = false ∧ (c.step op).sender = c.sender ∧
      (c.step op).segmentsOut = c.segmentsOut := by
  cases op with
  | connect => exact absurd rfl hconnect
  | endInputStream => exact absurd rfl hend
  | write data =>
      show (c.write data).1.isActive = false ∧ _
      rw [step, write_inactive h]
      exact ⟨h, rfl, rfl⟩
  | segmentReceived seg =>
      have hself : c.segmentReceived seg = c := by rw [segmentReceived, if_pos (by simp [h])]
      rw [step, hself]
      exact ⟨h, rfl, rfl⟩
  | tick ms =>
      have hself : c.tick ms = c := by rw [tick, if_pos (by simp [h])]
      rw [step, hself]
      exact ⟨h, rfl, rfl⟩
  | readInbound len => exact ⟨h, rfl, rfl⟩

end TCPConnection

end CourseNet
