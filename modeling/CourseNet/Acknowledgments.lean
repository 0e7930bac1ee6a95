import CourseNet.Network
import CourseNet.ReceiverAdvance

/-!
# What has been acknowledged

A receiver's acknowledgment number never goes back, so every acknowledgment on its way to a
sender, however old, is at most what the receiver has acknowledged by now; and so is what the
sender has seen.  An end of the inbound stream is acknowledged in every stamp.
-/

namespace CourseNet

/-! ### The receiver -/

namespace TCPReceiver

/-- A segment is pushed relative to some initial sequence number, or ignored. -/
theorem segmentReceived_cases (r : TCPReceiver) (seg : TCPSegment) :
    (∃ i, r.segmentReceived seg = r.pushSegment i seg) ∨ r.segmentReceived seg = (r, .returns) := by
  unfold segmentReceived
  split
  · exact Or.inl ⟨_, rfl⟩
  · split
    · exact Or.inl ⟨_, rfl⟩
    · exact Or.inr rfl

namespace Follows

variable {S popped : Bytes} {E : Prop} {isn : WrappingInt32} {r : TCPReceiver} {seg : TCPSegment}

theorem acknowledged_le (h : Follows S E isn popped r) : r.acknowledged ≤ S.length + 2 := by
  have hwritten := h.written_le
  have hbounds := r.absoluteAckno_bounds
  unfold acknowledged
  split <;> omega

/-- An end of the stream was told by a FIN, and all of the stream is acknowledged with it. -/
theorem ended_acknowledged (h : Follows S E isn popped r)
    (hended : r.streamOut.inputEnded = true) :
    E ∧ r.isn = some isn ∧ r.absoluteAckno = S.length + 2 := by
  obtain ⟨hlen, hE⟩ := h.consistent.ended hended
  have hfin : r.finReceived = true := by
    by_contra hno
    exact absurd (h.no_fin (by simpa using hno)).2 (by simp [hended])
  have hsome : r.isn ≠ none := fun hno => absurd (h.listen hno) (by simp [hfin])
  obtain ⟨i, hi⟩ := Option.ne_none_iff_exists'.mp hsome
  refine ⟨hE, by rw [hi, h.isn_eq i hi], ?_⟩
  unfold absoluteAckno
  dsimp only
  rw [if_pos (by rw [hfin, hended]; rfl)]
  have hbytes : r.streamOut.bytesWritten = S.length :=
    h.consistent.bytesWritten_eq.trans hlen
  omega

/-- Only a receiver that has the FIN and everything before it acknowledges the whole stream. -/
theorem finReceived_of_acknowledged (h : Follows S E isn popped r)
    (hall : S.length + 2 ≤ r.acknowledged) : r.finReceived = true := by
  have hwritten := h.written_le
  unfold acknowledged at hall
  split at hall
  · unfold absoluteAckno at hall
    dsimp only at hall
    split at hall
    · rename_i hboth
      exact (Bool.and_eq_true_iff.mp hboth).1
    · omega
  · omega

end Follows

/-- The FIN is noted by a segment that carries it, unless the reassembler throws. -/
theorem segmentReceived_finReceived {r : TCPReceiver} {seg : TCPSegment}
    (hbefore : r.finReceived = false) (hafter : (r.segmentReceived seg).1.finReceived = true) :
    seg.header.fin = true ∧ (r.segmentReceived seg).2 ≠ .throws := by
  have hpush : ∀ i, r.segmentReceived seg = r.pushSegment i seg →
      seg.header.fin = true ∧ (r.segmentReceived seg).2 ≠ .throws := by
    intro i heq
    rw [heq] at hafter ⊢
    have hnoted : (r.finReceived || seg.header.fin && (r.pushSegment i seg).2 != .throws) = true :=
      hafter
    rw [hbefore, Bool.false_or, Bool.and_eq_true, bne_iff_ne] at hnoted
    exact hnoted
  rcases r.segmentReceived_cases seg with ⟨i, heq⟩ | heq
  · exact hpush i heq
  · rw [heq, hbefore] at hafter
    exact absurd hafter (by simp)

end TCPReceiver

/-! ### Acknowledgments between two endpoints -/

/-- What `y` acknowledges to `x`: every acknowledgment on the way, and the highest one that `x` has
seen, is at most what `y` has acknowledged. -/
structure Acks (x y : Endpoint) : Prop where
  told : ∀ seg ∈ y.conn.segmentsOut, seg.header.ack = true →
    ∃ k ≤ y.conn.receiver.acknowledged, seg.header.ackno = wrap k x.conn.sender.isn
  acked_le : x.conn.sender.ackno ≤ y.conn.receiver.acknowledged

namespace Link

variable {x y : Endpoint}

/-- The stamp of a receiver that acknowledges anything. -/
theorem stamp_ackno (h : Link y x) {q : TCPSegment} (hraw : q.header.ack = false)
    (hack : (x.conn.stamp q).header.ack = true) :
    (x.conn.stamp q).header.ackno = wrap x.conn.receiver.acknowledged y.conn.sender.isn := by
  have hsome : (q.header.ack || x.conn.receiver.ackno.isSome) = true := hack
  rw [hraw, Bool.false_or, TCPReceiver.ackno, Option.isSome_map] at hsome
  obtain ⟨i, hi⟩ := Option.isSome_iff_exists.mp hsome
  show x.conn.receiver.ackno.getD q.header.ackno = _
  rw [TCPReceiver.acknowledged, if_pos hsome, TCPReceiver.ackno, hi, Option.map_some,
    Option.getD_some, h.follows.isn_eq i hi]

/-- Once the inbound stream has ended, every stamp acknowledges all of it. -/
theorem stamp_of_ended (h : Link y x) (hended : x.conn.inboundStream.inputEnded = true)
    (q : TCPSegment) :
    (x.conn.stamp q).header.ack = true ∧
      (x.conn.stamp q).header.ackno = wrap (y.accepted.length + 2) y.conn.sender.isn := by
  obtain ⟨-, hisn, hall⟩ := h.follows.ended_acknowledged hended
  have hackno : x.conn.receiver.ackno =
      some (wrap (y.accepted.length + 2) y.conn.sender.isn) := by
    rw [TCPReceiver.ackno, hisn, hall, Option.map_some]
  refine ⟨?_, ?_⟩
  · show (q.header.ack || x.conn.receiver.ackno.isSome) = true
    rw [hackno, Option.isSome_some, Bool.or_true]
  · show x.conn.receiver.ackno.getD q.header.ackno = _
    rw [hackno, Option.getD_some]

end Link

namespace Acks

variable {x y : Endpoint}

theorem new (cfgX cfgY : TCPConfig) (randomX randomY : UInt32) :
    Acks (Endpoint.new cfgX randomX) (Endpoint.new cfgY randomY) :=
  ⟨fun _ h => absurd h List.not_mem_nil, Nat.zero_le _⟩

/-- A step of the sending side: it takes an acknowledgment for what it is. -/
theorem send (h : Acks x y) (hlink : Link x y) {op : TCPConnection.Op} (hop : y.Authentic op)
    (hsmall : x.accepted.length < 2 ^ 31 - 2) : Acks (x.step op) y := by
  refine ⟨fun seg hseg hack => ?_, ?_⟩
  · obtain ⟨k, hk, heq⟩ := h.told seg hseg hack
    exact ⟨k, hk, heq.trans (congrArg (wrap k) (x.conn.step_isn op).symm)⟩
  · show (x.conn.step op).sender.ackno ≤ _
    rcases x.conn.step_ackno op with hsame | ⟨seg, rfl, -, -, hack, -, -, hmove⟩
    · rw [hsame]
      exact h.acked_le
    · obtain ⟨k, hk, heq⟩ := h.told seg hop hack
      have hbound := hlink.follows.acknowledged_le
      have hackno := hlink.carries.ackno_le.trans hlink.carries.next_le
      rw [hmove, TCPSender.absoluteAckno, heq, unwrap_wrap _ (by omega) (by omega) (by omega)]
      exact hk

/-- A step of the acknowledging side. -/
theorem receive (h : Acks y x) (hsend : Link x y) {op : TCPConnection.Op}
    (hlink' : Link y (x.step op)) : Acks y (x.step op) := by
  have hmono := (x.conn.step_advances op).acknowledged_le
  refine ⟨fun seg hseg hack => ?_, h.acked_le.trans hmono⟩
  obtain ⟨s, hs, hemits, -⟩ := hsend.sender_step op
  rcases hemits.segments seg hseg with hold | ⟨-, hno⟩ | ⟨q, hq, rfl⟩
  · obtain ⟨k, hk, heq⟩ := h.told seg hold hack
    exact ⟨k, hk.trans hmono, heq⟩
  · exact absurd hack (by simp [hno])
  · exact ⟨_, le_refl _, hlink'.stamp_ackno (hs.queued q hq).unstamped hack⟩

end Acks

end CourseNet
