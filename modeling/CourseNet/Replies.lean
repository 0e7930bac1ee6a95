import CourseNet.ClosedWindow
import CourseNet.ConnectionQueue
import CourseNet.ReceiverWindow

/-!
# Replies

What an active connection emits when a segment arrives is what its sender queues on the way, for
nothing was queued before.  `ack_received` and `fill_window` queue only segments that occupy sequence
space; the empty segment is queued only when an answer is due and nothing else stands in the queue.
-/

namespace CourseNet

/-! ### What the sender queues -/

namespace TCPSender

/-- Every queued segment occupies sequence space. -/
def Occupying (s : TCPSender) : Prop := ∀ seg ∈ s.segmentsOut, 0 < seg.lengthInSequenceSpace

theorem Occupying.fillWindow {s : TCPSender} (h : s.Occupying) (hs : s.Sound) :
    s.fillWindow.Occupying := by
  refine (fillWindow_invariant (P := fun t => t.Sound ∧ t.Occupying) ⟨hs, h⟩ ?_).2
  rintro t t' ⟨ht, hocc⟩ hsend
  obtain ⟨seg, -, hnext, hqueue, -⟩ := ht.sends_outstanding hsend
  have hlt := hsend.next_bounds.1
  refine ⟨ht.sends hsend, fun q hq => ?_⟩
  rw [hqueue] at hq
  rcases List.mem_append.mp hq with hq | hq
  · exact hocc q hq
  · rw [List.mem_singleton.mp hq]
    omega

theorem Occupying.ackReceived {s : TCPSender} (h : s.Occupying) (hs : s.Sound)
    (ackno : WrappingInt32) (w : UInt16) : (s.ackReceived ackno w).Occupying := by
  rcases s.ackReceived_cases ackno w with ⟨-, heq⟩ | ⟨hle, heq⟩
  · rw [heq]
    exact h
  · have hnoted : (s.noteAck (s.absoluteAckno ackno) w).Occupying := fun q hq =>
      h q ((s.noteAck_frame _ w).segmentsOut ▸ hq)
    rw [heq, stopTimer_eq]
    exact hnoted.fillWindow (hs.noteAck hle w)

end TCPSender

namespace TCPConnection

variable {c : TCPConnection} {seg : TCPSegment}

/-! ### Runs of representable segments -/

/-- A segment that arrives occupies 64-bit absolute sequence numbers. -/
def Op.Representable (c : TCPConnection) : Op → Prop
  | .segmentReceived seg => (TCPReceiver.Op.segment seg).Representable c.receiver
  | _ => True

instance (c : TCPConnection) : DecidablePred (Op.Representable c)
  | .segmentReceived seg =>
      inferInstanceAs (Decidable ((TCPReceiver.Op.segment seg).Representable c.receiver))
  | .connect | .write _ | .endInputStream | .tick _ | .readInbound _ => isTrue trivial

theorem step_standing {capacity : ℕ} (hcap : capacity < 2 ^ 64)
    (h : TCPReceiver.Standing capacity c.receiver) {op : Op} (hop : op.Representable c) :
    TCPReceiver.Standing capacity (c.step op).receiver := by
  rcases c.step_receiver op with ⟨len, rfl, hr⟩ | ⟨-, hr | hr | ⟨seg, rfl, -, -, hr⟩⟩
  · rw [hr]
    exact h.call hcap (show (TCPReceiver.Op.read len).Representable c.receiver from trivial)
  · rw [hr]
    exact h
  · rw [hr]
    exact h.call hcap (show TCPReceiver.Op.setError.Representable c.receiver from trivial)
  · rw [hr]
    exact h.call hcap (show (TCPReceiver.Op.segment seg).Representable c.receiver from hop)

theorem run_standing (cfg : TCPConfig) (random : UInt32) (hcap : cfg.recvCapacity < 2 ^ 64)
    {ops : List Op}
    (hops : StepSystem.Guarded step (fun c op => op.Representable c) (new cfg random) ops) :
    TCPReceiver.Standing cfg.recvCapacity (StepSystem.run step (new cfg random) ops).receiver :=
  hops.invariant (P := fun c => TCPReceiver.Standing cfg.recvCapacity c.receiver)
    (fun _ _ hop hc => step_standing hcap hc hop) (TCPReceiver.Standing.new cfg.recvCapacity)

/-! ### What a processed segment emits -/

/-- The call appends what the sender has queued, stamped by the receiver as it is then. -/
theorem emittedSince_processed (c : TCPConnection) (seg : TCPSegment) :
    c.emittedSince (c.processed seg) =
      (((c.received seg).acknowledge seg).noteInboundEnd.reply seg).sender.segmentsOut.map
        (c.processed seg).stamp := by
  have hout : (c.processed seg).segmentsOut = c.segmentsOut ++
      (((c.received seg).acknowledge seg).noteInboundEnd.reply seg).sender.segmentsOut.map
        (c.processed seg).stamp := by
    unfold processed pushSegmentsOut
    simp only [reply_segmentsOut, noteInboundEnd_segmentsOut, acknowledge_segmentsOut]
    rfl
  rw [emittedSince, hout, List.drop_left]

theorem advertisedWindow_toNat (c : TCPConnection) :
    c.advertisedWindow.toNat = min c.receiver.windowSize 65535 := by
  unfold advertisedWindow
  split
  · rename_i hbig
    rw [min_eq_right hbig.le]
    rfl
  · rename_i hsmall
    rw [UInt16.toNat_ofNat', min_eq_left (not_lt.mp hsmall), Nat.mod_eq_of_lt (by omega)]

/-- A stamp once the SYN is known. -/
theorem stamp_of_isn {isn : WrappingInt32} (h : c.receiver.isn = some isn) (q : TCPSegment) :
    (c.stamp q).header.ack = true ∧ c.receiver.ackno = some (c.stamp q).header.ackno ∧
      (c.stamp q).header.win.toNat = min c.receiver.windowSize 65535 := by
  have hackno : c.receiver.ackno = some (wrap c.receiver.absoluteAckno isn) := by
    rw [TCPReceiver.ackno, h, Option.map_some]
  refine ⟨?_, ?_, c.advertisedWindow_toNat⟩
  · show (q.header.ack || c.receiver.ackno.isSome) = true
    rw [hackno, Option.isSome_some, Bool.or_true]
  · show c.receiver.ackno = some (c.receiver.ackno.getD q.header.ackno)
    rw [hackno, Option.getD_some]

/-- An answer that is due leaves something queued. -/
theorem reply_queued {d : TCPConnection} (h : d.sendAckNeeded seg = true) :
    (d.reply seg).sender.segmentsOut ≠ [] := by
  unfold reply
  rw [if_pos h]
  dsimp only
  split
  · simp [TCPSender.sendEmptySegment]
  · rename_i hne
    simpa using hne

/-- No answer is due: the reply leaves the sender alone. -/
theorem reply_not_needed {d : TCPConnection} (h : d.sendAckNeeded seg = false) :
    d.reply seg = d := by
  unfold reply
  rw [if_neg (by simp [h])]

/-- An empty segment calls for an answer only as a keep-alive. -/
theorem sendAckNeeded_empty {d : TCPConnection} (hlen : seg.lengthInSequenceSpace = 0)
    (hkeep : ∀ ackno, d.receiver.ackno = some ackno → seg.header.seqno ≠ ackno.sub 1) :
    d.sendAckNeeded seg = false := by
  unfold sendAckNeeded
  rw [hlen]
  cases hackno : d.receiver.ackno with
  | none => rfl
  | some ackno => simp [hkeep ackno hackno]

/-- The sender that has taken the acknowledgment queues nothing empty. -/
theorem acknowledge_occupying (hs : c.sender.Sound) (h : c.sender.segmentsOut = []) :
    (c.acknowledge seg).sender.Occupying := by
  have hnone : c.sender.Occupying := fun q hq => absurd (h ▸ hq) List.not_mem_nil
  unfold acknowledge
  split
  · exact hnone.ackReceived hs _ _
  · exact hnone

theorem processed_receiver (c : TCPConnection) (seg : TCPSegment) :
    (c.processed seg).receiver = (c.receiver.segmentReceived seg).1 :=
  (c.processed_frame seg).receiver

/-- After the call the initial sequence number is known if it was before or the segment is a SYN. -/
theorem segmentReceived_isn {r : TCPReceiver} {seg : TCPSegment}
    (h : r.isn.isSome = true ∨ seg.header.syn = true) :
    ∃ isn, (r.segmentReceived seg).1.isn = some isn := by
  unfold TCPReceiver.segmentReceived
  split
  · exact ⟨_, rfl⟩
  · rename_i hnone
    have hsyn := h.resolve_left (by rw [hnone]; simp)
    rw [if_pos hsyn]
    exact ⟨_, rfl⟩

/-- An active connection processes a representable segment without RST. -/
theorem segmentReceived_eq_processed {capacity : ℕ} (hcap : capacity < 2 ^ 64)
    (h : TCPReceiver.Standing capacity c.receiver) (hactive : c.isActive = true)
    (hrep : (Op.segmentReceived seg).Representable c)
    (hsmall : c.inboundStream.bytesWritten < 2 ^ 63) (hrst : seg.header.rst = false) :
    c.segmentReceived seg = c.processed seg := by
  rcases c.segmentReceived_cases seg with ⟨hno, -⟩ | ⟨-, hno, -⟩ | ⟨-, -, hno, -⟩ | ⟨-, -, -, heq⟩
  · exact absurd hactive (by simp [hno])
  · exact absurd hno (by simp [hrst])
  · exact absurd hno (h.not_throws hcap hsmall.le hrep)
  · exact heq

/-- What is emitted without an answer being due occupies sequence space. -/
theorem processed_occupying (hs : c.sender.Sound) (hqueue : c.sender.segmentsOut = [])
    (hlen : seg.lengthInSequenceSpace = 0)
    (hkeep : ∀ ackno, (c.processed seg).receiver.ackno = some ackno →
      seg.header.seqno ≠ ackno.sub 1) :
    ∀ reply ∈ c.emittedSince (c.processed seg), 0 < reply.lengthInSequenceSpace := by
  intro reply hreply
  have hidle := sendAckNeeded_empty (d := ((c.received seg).acknowledge seg).noteInboundEnd) hlen
    fun ackno hackno => hkeep ackno (by
      rw [c.processed_receiver seg]
      simpa [received] using hackno)
  rw [emittedSince_processed, reply_not_needed hidle] at hreply
  obtain ⟨q, hq, rfl⟩ := List.mem_map.mp hreply
  rw [noteInboundEnd_sender] at hq
  exact acknowledge_occupying (c := c.received seg) hs hqueue q hq

/-- **Replies of one connection.**  In every active state of a run of representable segments in which
fewer than `2 ^ 63` bytes were received, a segment without RST that arrives with or after the SYN is
answered by a segment with ACK, the acknowledgment number and the window of the receiver after it, if
it occupies sequence space; and if it is empty and no keep-alive, every segment it provokes occupies
sequence space. -/
theorem segmentReceived_replies (cfg : TCPConfig) (random : UInt32)
    (hcap : cfg.recvCapacity < 2 ^ 64) (ops : List Op)
    (hops : StepSystem.Guarded step (fun c op => op.Representable c) (new cfg random) ops)
    (c : TCPConnection) (hc : c = StepSystem.run step (new cfg random) ops)
    (hactive : c.isActive = true) (seg : TCPSegment)
    (hrep : (Op.segmentReceived seg).Representable c)
    (hsmall : c.inboundStream.bytesWritten < 2 ^ 63) (hrst : seg.header.rst = false)
    (hsyn : c.receiver.isn.isSome = true ∨ seg.header.syn = true) :
    let c' := c.segmentReceived seg
    (0 < seg.lengthInSequenceSpace → ∃ reply ∈ c.emittedSince c', reply.header.ack = true ∧
      c'.receiver.ackno = some reply.header.ackno ∧
      reply.header.win.toNat = min c'.receiver.windowSize 65535) ∧
    (seg.lengthInSequenceSpace = 0 →
      (∀ ackno, c'.receiver.ackno = some ackno → seg.header.seqno ≠ ackno.sub 1) →
      ∀ reply ∈ c.emittedSince c', 0 < reply.lengthInSequenceSpace) := by
  have hreach : c.Reachable := ⟨cfg, random, ops, hc⟩
  have hstanding : TCPReceiver.Standing cfg.recvCapacity c.receiver := by
    rw [hc]
    exact run_standing cfg random hcap hops
  have hprocessed := segmentReceived_eq_processed hcap hstanding hactive hrep hsmall hrst
  obtain ⟨isn, hisn⟩ := segmentReceived_isn hsyn
  rw [← c.processed_receiver seg] at hisn
  intro c'
  have hc' : c' = c.processed seg := hprocessed
  rw [hc']
  refine ⟨fun hlen => ?_, processed_occupying hreach.sound (hreach.drained hactive)⟩
  have hneeded : (((c.received seg).acknowledge seg).noteInboundEnd).sendAckNeeded seg = true := by
    unfold sendAckNeeded
    rw [decide_eq_true hlen, Bool.true_or]
  obtain ⟨q, hq⟩ := List.exists_mem_of_ne_nil _ (reply_queued hneeded)
  rw [emittedSince_processed]
  exact ⟨_, List.mem_map_of_mem hq, stamp_of_isn hisn q⟩

/-! ### Empty replies -/

/-- Only a processed segment makes `segment_received` emit anything. -/
theorem processed_of_emitted {reply : TCPSegment}
    (h : reply ∈ c.emittedSince (c.segmentReceived seg)) :
    c.isActive = true ∧ c.segmentReceived seg = c.processed seg := by
  have hnone : ∀ {d : TCPConnection}, d.segmentsOut = c.segmentsOut →
      reply ∉ c.emittedSince d := fun hsame hmem => by
    rw [emittedSince, hsame, List.drop_length] at hmem
    exact List.not_mem_nil hmem
  rcases c.segmentReceived_cases seg with ⟨-, heq⟩ | ⟨-, -, heq⟩ | ⟨-, -, -, heq⟩ |
    ⟨hactive, -, -, heq⟩
  · exact absurd h (hnone (by rw [heq]))
  · exact absurd h (hnone (by rw [heq]; rfl))
  · exact absurd h (hnone (by rw [heq]; rfl))
  · exact ⟨hactive, heq⟩

/-- The empty segment of a reply is the one that stands at `_next_seqno`. -/
theorem reply_empty {d : TCPConnection} (hs : d.sender.Sound) (hocc : d.sender.Occupying)
    {q : TCPSegment} (hq : q ∈ (d.reply seg).sender.segmentsOut)
    (hlen : q.lengthInSequenceSpace = 0) :
    q.header.seqno = wrap (d.reply seg).sender.nextSeqno (d.reply seg).sender.isn := by
  rcases Bool.eq_false_or_eq_true (d.sendAckNeeded seg) with hneeded | hidle
  · unfold reply at hq ⊢
    rw [if_pos hneeded] at hq ⊢
    dsimp only at hq ⊢
    by_cases hnil : d.sender.fillWindow.segmentsOut.isEmpty = true
    · rw [if_pos hnil] at hq ⊢
      have hone : q = d.sender.fillWindow.blankSegment := by
        simpa [TCPSender.sendEmptySegment, List.isEmpty_iff.mp hnil] using hq
      rw [hone]
      rfl
    · rw [if_neg hnil] at hq
      exact absurd (hocc.fillWindow hs q hq) (by omega)
  · rw [reply_not_needed hidle] at hq
    exact absurd (hocc q hq) (by omega)

/-- An empty segment that a call of `segment_received` emits stands at `_next_seqno`. -/
theorem emitted_empty_seqno (hs : c.sender.Sound) (hdrained : c.Drained) {reply : TCPSegment}
    (h : reply ∈ c.emittedSince (c.segmentReceived seg))
    (hlen : reply.lengthInSequenceSpace = 0) :
    reply.header.seqno =
      wrap (c.segmentReceived seg).sender.nextSeqno (c.segmentReceived seg).sender.isn := by
  obtain ⟨hactive, heq⟩ := processed_of_emitted h
  rw [heq, emittedSince_processed] at h
  obtain ⟨q, hq, rfl⟩ := List.mem_map.mp h
  have hsound : ((c.received seg).acknowledge seg).noteInboundEnd.sender.Sound := by
    rw [noteInboundEnd_sender]
    exact ((c.received seg).acknowledge_moves seg).invariant (fun _ _ hmove => hmove.sound) hs
  have hocc : ((c.received seg).acknowledge seg).noteInboundEnd.sender.Occupying := by
    rw [noteInboundEnd_sender]
    exact acknowledge_occupying (c := c.received seg) hs (hdrained hactive)
  rw [heq]
  exact reply_empty (q := q) hsound hocc hq hlen

/-- An empty segment that an empty one provokes answers a keep-alive: the number of the latter is the
one before the acknowledgment number. -/
theorem keepAlive_of_emitted_empty (hs : c.sender.Sound) (hdrained : c.Drained)
    (hempty : seg.lengthInSequenceSpace = 0) {reply : TCPSegment}
    (h : reply ∈ c.emittedSince (c.segmentReceived seg))
    (hlen : reply.lengthInSequenceSpace = 0) :
    ∃ ackno, (c.segmentReceived seg).receiver.ackno = some ackno ∧
      seg.header.seqno = ackno.sub 1 := by
  obtain ⟨hactive, heq⟩ := processed_of_emitted h
  by_contra hno
  rw [heq] at h hno
  have hpos := processed_occupying hs (hdrained hactive) hempty
    (fun ackno hackno hseqno => hno ⟨ackno, hackno, hseqno⟩) reply h
  omega

end TCPConnection

end CourseNet
