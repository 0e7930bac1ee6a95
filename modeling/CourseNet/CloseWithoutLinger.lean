import CourseNet.Acknowledgments
import CourseNet.OutboundProgress

/-!
# Closing without lingering

An endpoint that has the whole inbound stream before it sends its own FIN does not linger.  Every
copy of that FIN is then stamped with an acknowledgment of the peer's FIN, and the peer takes FIN
and acknowledgment in one call; so once the peer has acknowledged the FIN it has nothing
outstanding.
-/

namespace CourseNet

/-! ### An idle sender -/

namespace TCPSender

/-- The FIN was sent and everything is acknowledged. -/
structure Idle (s : TCPSender) : Prop extends s.Sound where
  finSent_eq : s.finSent = true
  outstanding_nil : s.outstanding = []

theorem Idle.fillWindow {s : TCPSender} (h : s.Idle) : s.fillWindow.Idle := by
  rw [Filled.fillWindow_eq (Or.inr (h.done_of_finSent h.finSent_eq))]
  exact h

/-- A sender that has sent its FIN becomes idle when all that is outstanding is acknowledged. -/
theorem Sound.ackReceived_idle {s : TCPSender} (h : s.Sound) (hfin : s.finSent = true)
    {ackno : WrappingInt32} (hle : s.absoluteAckno ackno ≤ s.nextSeqno)
    (hall : ∀ e ∈ s.outstanding, e.1 + e.2.lengthInSequenceSpace ≤ s.absoluteAckno ackno)
    (w : UInt16) : (s.ackReceived ackno w).Idle := by
  rcases s.ackReceived_cases ackno w with ⟨hlt, -⟩ | ⟨-, heq⟩
  · omega
  · have hfin' := (s.noteAck_frame (s.absoluteAckno ackno) w).finSent
    have hnil : (s.noteAck (s.absoluteAckno ackno) w).outstanding = [] := by
      refine List.eq_nil_iff_forall_not_mem.mpr fun e he => ?_
      obtain ⟨hmem, hgt⟩ := (s.noteAck_outstanding _ w e).mp he
      exact absurd (hall e hmem) (not_le.mpr hgt)
    have hfilled := Idle.fillWindow ⟨h.noteAck hle w, hfin'.trans hfin, hnil⟩
    refine ⟨h.ackReceived ackno w, ?_, ?_⟩
    · rw [heq, stopTimer_eq]
      exact hfilled.finSent_eq
    · rw [heq, stopTimer_eq]
      exact hfilled.outstanding_nil

end TCPSender

theorem SenderMove.idle {s t : TCPSender} (h : SenderMove s t) (hs : s.Idle) : t.Idle := by
  refine ⟨h.sound hs.toSound, h.frame.finSent hs.finSent_eq, ?_⟩
  cases h with
  | ackReceived ackno w =>
      rcases s.ackReceived_cases ackno w with ⟨-, heq⟩ | ⟨hle, -⟩
      · rw [heq]
        exact hs.outstanding_nil
      · have hall : ∀ e ∈ s.outstanding,
            e.1 + e.2.lengthInSequenceSpace ≤ s.absoluteAckno ackno := by
          rw [hs.outstanding_nil]
          exact fun _ he => absurd he List.not_mem_nil
        exact (hs.toSound.ackReceived_idle hs.finSent_eq hle hall w).outstanding_nil
  | fillWindow => exact hs.fillWindow.outstanding_nil
  | sendEmptySegment => exact hs.outstanding_nil
  | tick ms =>
      rw [(s.tick_frame ms).outstanding]
      exact hs.outstanding_nil
  | setError => exact hs.outstanding_nil
  | dequeue q hq => exact hs.outstanding_nil

theorem TCPConnection.step_idle {c : TCPConnection} (h : c.sender.Idle) (op : Op) :
    (c.step op).sender.Idle := by
  refine step_sender_invariant (fun _ _ hmove hs => hmove.idle hs) ?_ ?_ c op h
  · intro s d hs
    exact TCPSender.Idle.fillWindow ⟨hs.toSound.write d, hs.finSent_eq, hs.outstanding_nil⟩
  · intro s hs
    exact TCPSender.Idle.fillWindow ⟨hs.toSound.endInput, hs.finSent_eq, hs.outstanding_nil⟩

/-! ### A segment that carries the FIN and acknowledges everything -/

namespace TCPConnection

/-- Once its own FIN is sent, a connection that takes an acknowledgment of everything is idle when
the call returns. -/
theorem segmentReceived_idle {c : TCPConnection} {seg : TCPSegment} (hs : c.sender.Sound)
    (hfin : c.sender.finSent = true) (hactive : c.isActive = true)
    (hrst : seg.header.rst = false) (houtcome : (c.receiver.segmentReceived seg).2 ≠ .throws)
    (hack : seg.header.ack = true)
    (hall : c.sender.absoluteAckno seg.header.ackno = c.sender.nextSeqno) :
    (c.segmentReceived seg).sender.Idle := by
  rcases c.segmentReceived_cases seg with ⟨hno, -⟩ | ⟨-, hno, -⟩ | ⟨-, -, hno, -⟩ | ⟨-, -, -, heq⟩
  · exact absurd hactive (by simp [hno])
  · exact absurd hno (by simp [hrst])
  · exact absurd hno houtcome
  · have hacked : ((c.received seg).acknowledge seg).sender.Idle := by
      unfold acknowledge
      rw [if_pos hack]
      exact hs.ackReceived_idle hfin hall.le
        (fun e he => ((hs.tracked e he).2.2).trans_eq hall.symm) seg.header.win
    have hreply := ((c.received seg).acknowledge seg).noteInboundEnd.reply_moves seg
    rw [noteInboundEnd_sender] at hreply
    rw [heq]
    exact (SenderMoves.clear hreply).invariant (fun _ _ hmove ht => hmove.idle ht) hacked

end TCPConnection

/-! ### The end of `x` -/

/-- What the linger flag of `x` says.  Once it is cleared, `x` has all of the inbound stream,
every FIN it sends acknowledges all of it, and a peer that has taken such a FIN is idle. -/
structure Closing (x y : Endpoint) : Prop where
  linger : x.conn.lingerAfterStreamsFinish = false → x.conn.inboundStream.inputEnded = true
  covered : x.conn.lingerAfterStreamsFinish = false → ∀ seg ∈ x.conn.segmentsOut,
    seg.header.rst = false → seg.header.fin = true →
      seg.header.ack = true ∧ seg.header.ackno = wrap (y.accepted.length + 2) y.conn.sender.isn
  quiet : x.conn.lingerAfterStreamsFinish = false → y.conn.receiver.finReceived = true →
    y.conn.sender.Idle
  closed : x.conn.isActive = false → x.conn.sender.stream.error = true ∨ x.conn.sender.Idle

/-- A connection that ends with no error on its outbound stream is idle. -/
theorem TCPConnection.step_closed {c : TCPConnection} (hs : c.sender.Settled)
    (h : c.isActive = false → c.sender.stream.error = true ∨ c.sender.Idle) (op : Op)
    (hended : (c.step op).isActive = false) :
    (c.step op).sender.stream.error = true ∨ (c.step op).sender.Idle := by
  have hs' := step_settled hs op
  rcases Bool.eq_false_or_eq_true c.isActive with hactive | hactive
  · refine Bool.eq_false_or_eq_true (c.step op).sender.stream.error |>.imp_right fun herror => ?_
    obtain ⟨-, hfinished, -⟩ := step_ends hactive hended herror
    simp only [streamsFinished, Bool.and_eq_true, beq_iff_eq] at hfinished
    obtain ⟨⟨-, heof⟩, hflight⟩ := hfinished
    have hidle := hs'.bytesInFlight_eq_zero.mp hflight
    exact ⟨hs'.toSound, hs'.finSent_of_idle (ByteStream.eof_iff.mp heof).1 hidle, hidle⟩
  · refine (h hactive).imp (fun herror => ?_) fun hidle => step_idle hidle op
    by_cases hend : op = .endInputStream
    · rw [hend]
      exact (TCPSender.fillWindow_frame _).error.trans herror
    · have hconnect : op ≠ .connect := by
        rintro rfl
        exact absurd hended (by simp [step, connect, pushSegmentsOut])
      obtain ⟨-, hsame, -⟩ := step_inactive hactive hconnect hend
      rw [hsame]
      exact herror

namespace Closing

variable {x y : Endpoint}

theorem new (cfgX cfgY : TCPConfig) (randomX randomY : UInt32) :
    Closing (Endpoint.new cfgX randomX) (Endpoint.new cfgY randomY) :=
  ⟨fun h => absurd h (by simp [Endpoint.new, TCPConnection.new]),
    fun h => absurd h (by simp [Endpoint.new, TCPConnection.new]),
    fun h => absurd h (by simp [Endpoint.new, TCPConnection.new]),
    fun h => absurd h (by simp [Endpoint.new, TCPConnection.new])⟩

/-- A step of the closing side.  If it clears the linger flag then no FIN was sent before. -/
theorem send (h : Closing x y) (hs : x.conn.sender.Settled) (hsend : Link x y)
    {op : TCPConnection.Op} (hback' : Link y (x.step op)) : Closing (x.step op) y := by
  have hlinger : (x.step op).conn.lingerAfterStreamsFinish = false →
      x.conn.lingerAfterStreamsFinish = false ∨
        ((x.step op).conn.inboundStream.inputEnded = true ∧ x.conn.sender.finSent = false) :=
    TCPConnection.step_linger hs.toSound op
  have hended : (x.step op).conn.lingerAfterStreamsFinish = false →
      (x.step op).conn.inboundStream.inputEnded = true := by
    intro hl
    rcases hlinger hl with hbefore | ⟨hnow, -⟩
    · exact (x.conn.step_advances op).stream.ended (h.linger hbefore)
    · exact hnow
  refine ⟨hended, fun hl seg hseg hrst hfin => ?_, fun hl hreceived => ?_,
    TCPConnection.step_closed hs h.closed op⟩
  · obtain ⟨s, -, hemits, -⟩ := hsend.sender_step op
    rcases hemits.segments seg hseg with hold | ⟨hno, -⟩ | ⟨q, -, rfl⟩
    · rcases hlinger hl with hbefore | ⟨-, hnofin⟩
      · exact h.covered hbefore seg hold hrst hfin
      · have hsent := (hsend.emitted seg hold hrst).of_fin hfin
        exact absurd hsent (by simp [hnofin])
    · exact absurd hno (by simp [hrst])
    · exact hback'.stamp_of_ended (hended hl) q
  · rcases hlinger hl with hbefore | ⟨-, hnofin⟩
    · exact h.quiet hbefore hreceived
    · exact absurd (hsend.follows.fin hreceived) (by simp [hnofin])

/-- A step of the peer.  It takes a FIN together with an acknowledgment of everything. -/
theorem receive (h : Closing y x) (hsend : Link x y) {op : TCPConnection.Op}
    (hop : y.Authentic op) (hsmall : x.accepted.length < 2 ^ 31 - 2) :
    Closing y (x.step op) := by
  have hsent : y.conn.lingerAfterStreamsFinish = false → x.conn.sender.finSent = true :=
    fun hl => (hsend.follows.ended_acknowledged (h.linger hl)).1
  refine ⟨h.linger, fun hl seg hseg hrst hfin => ?_, fun hl hreceived => ?_, h.closed⟩
  · have hisn : (x.step op).conn.sender.isn = x.conn.sender.isn := x.conn.step_isn op
    rw [hsend.accepted_step_of_finSent (hsent hl) op, hisn]
    exact h.covered hl seg hseg hrst hfin
  · show (x.conn.step op).sender.Idle
    rcases Bool.eq_false_or_eq_true x.conn.receiver.finReceived with hbefore | hbefore
    · exact TCPConnection.step_idle (h.quiet hl hbefore) op
    · have hreceived : (x.conn.step op).receiver.finReceived = true := hreceived
      rcases x.conn.step_receiver op with ⟨len, -, hr⟩ |
        ⟨-, hr | hr | ⟨seg, rfl, hrst, hactive, hr⟩⟩
      · rw [hr] at hreceived
        exact absurd hreceived (by simp [TCPReceiver.read, hbefore])
      · rw [hr] at hreceived
        exact absurd hreceived (by simp [hbefore])
      · rw [hr] at hreceived
        exact absurd hreceived (by simp [TCPReceiver.setError, hbefore])
      · rw [hr] at hreceived
        obtain ⟨hfin, houtcome⟩ := TCPReceiver.segmentReceived_finReceived hbefore hreceived
        obtain ⟨hack, hackno⟩ := h.covered hl seg hop hrst hfin
        have hnext := hsend.carries.next_of_finSent (hsent hl)
        have hackno_le := hsend.carries.ackno_le
        refine TCPConnection.segmentReceived_idle hsend.carries.toSound (hsent hl) hactive hrst
          houtcome hack ?_
        rw [TCPSender.absoluteAckno, hackno, hnext]
        exact unwrap_wrap _ (by omega) (by omega) (by omega)

end Closing

/-! ### Both endpoints -/

/-- Everything that is known of the direction from `x` to `y` and of the end of `x`. -/
structure Lane (x y : Endpoint) : Prop where
  link : Link x y
  acks : Acks x y
  closing : Closing x y
  settled : x.conn.sender.Settled

namespace Lane

variable {x y : Endpoint}

theorem new (cfgX cfgY : TCPConfig) (randomX randomY : UInt32) :
    Lane (Endpoint.new cfgX randomX) (Endpoint.new cfgY randomY) :=
  ⟨Link.new _ _ _ _, Acks.new _ _ _ _, Closing.new _ _ _ _, TCPSender.Settled.new _ _ _ _⟩

/-- A step of `x` keeps both directions. -/
theorem step (hxy : Lane x y) (hyx : Lane y x) {op : TCPConnection.Op} (hop : y.Authentic op)
    (hx : (x.step op).accepted.length < 2 ^ 31 - 2) (hy : y.accepted.length < 2 ^ 31 - 2) :
    Lane (x.step op) y ∧ Lane y (x.step op) := by
  have hx' := (x.accepted_prefix_step op).length_le.trans_lt hx
  have hback := hyx.link.receive hop hy
  exact ⟨⟨hxy.link.send op, hxy.acks.send hxy.link hop hx',
      hxy.closing.send hxy.settled hxy.link hback,
      TCPConnection.step_settled hxy.settled op⟩,
    ⟨hback, hyx.acks.receive hxy.link hback, hyx.closing.receive hxy.link hop hx',
      hyx.settled⟩⟩

/-- If `x` has ended without an error and need not linger, `y` has nothing outstanding. -/
theorem peer_idle (hxy : Lane x y) (hyx : Lane y x) (hended : x.conn.active = false)
    (herror : x.conn.sender.stream.error = false)
    (hlinger : x.conn.lingerAfterStreamsFinish = false) :
    y.conn.sender.outstanding = [] ∧ y.conn.sender.finSent = true ∧
      y.conn.sender.ackno = y.accepted.length + 2 := by
  have hidle : x.conn.sender.Idle :=
    (hxy.closing.closed hended).resolve_left (by simp [herror])
  -- everything that `x` sent is acknowledged, so `y` has its FIN, and with it a full acknowledgment
  have hacked : x.accepted.length + 2 ≤ y.conn.receiver.acknowledged := by
    have hnext := hxy.link.carries.next_of_finSent hidle.finSent_eq
    have hackno := hidle.outstanding_eq_nil.mp hidle.outstanding_nil
    have hle := hxy.acks.acked_le
    omega
  have hpeer := hxy.closing.quiet hlinger (hxy.link.follows.finReceived_of_acknowledged hacked)
  refine ⟨hpeer.outstanding_nil, hpeer.finSent_eq, ?_⟩
  have hnext := hyx.link.carries.next_of_finSent hpeer.finSent_eq
  rw [← hnext]
  exact (hpeer.outstanding_eq_nil.mp hpeer.outstanding_nil).symm

end Lane

theorem Network.lanes {cfgA cfgB : TCPConfig} {randomA randomB : UInt32}
    {is : List (Side × TCPConnection.Op)}
    (h : StepSystem.Guarded step Allowed (new cfgA cfgB randomA randomB) is)
    (hsmall : (StepSystem.run step (new cfgA cfgB randomA randomB) is).Small) :
    Lane (StepSystem.run step (new cfgA cfgB randomA randomB) is).a
        (StepSystem.run step (new cfgA cfgB randomA randomB) is).b ∧
      Lane (StepSystem.run step (new cfgA cfgB randomA randomB) is).b
        (StepSystem.run step (new cfgA cfgB randomA randomB) is).a :=
  run_joined (J := fun x y => Lane x y ∧ Lane y x) (fun _ _ hj => ⟨hj.2, hj.1⟩)
    (fun _ _ _ hj hop hx hy => hj.1.step hj.2 hop hx hy)
    ⟨Lane.new _ _ _ _, Lane.new _ _ _ _⟩ h hsmall

/-- **Closing without lingering never strands the peer.**  Over every run of two endpoints with
fewer than `2 ^ 31 - 2` bytes in each direction: an endpoint that has become inactive without an
error while its linger flag is cleared leaves a peer that has nothing outstanding and whose FIN is
acknowledged. -/
theorem Network.close_without_linger (cfgA cfgB : TCPConfig) (randomA randomB : UInt32)
    (is : List (Side × TCPConnection.Op))
    (h : StepSystem.Guarded step Allowed (new cfgA cfgB randomA randomB) is)
    (hsmall : (StepSystem.run step (new cfgA cfgB randomA randomB) is).Small) :
    let n := StepSystem.run step (new cfgA cfgB randomA randomB) is
    (n.a.conn.active = false → n.a.conn.sender.stream.error = false →
      n.a.conn.lingerAfterStreamsFinish = false →
      n.b.conn.sender.outstanding = [] ∧ n.b.conn.sender.finSent = true ∧
        n.b.conn.sender.ackno = n.b.accepted.length + 2) ∧
    (n.b.conn.active = false → n.b.conn.sender.stream.error = false →
      n.b.conn.lingerAfterStreamsFinish = false →
      n.a.conn.sender.outstanding = [] ∧ n.a.conn.sender.finSent = true ∧
        n.a.conn.sender.ackno = n.a.accepted.length + 2) := by
  obtain ⟨hab, hba⟩ := Network.lanes h hsmall
  exact ⟨hab.peer_idle hba, hba.peer_idle hab⟩

/-- `b` ends its input first, so `a` closes without lingering once its own FIN is acknowledged. -/
def Network.passiveClose : List (Side × TCPConnection.Op) :=
  [(.a, .connect),
    (.b, .segmentReceived { header := { seqno := ⟨0⟩, syn := true, win := 64000 } }),
    (.a, .segmentReceived
      { header := { seqno := ⟨100⟩, ackno := ⟨1⟩, syn := true, ack := true, win := 64000 } }),
    (.b, .segmentReceived
      { header := { seqno := ⟨1⟩, ackno := ⟨101⟩, ack := true, win := 64000 } }),
    (.b, .endInputStream),
    (.a, .segmentReceived
      { header := { seqno := ⟨101⟩, ackno := ⟨1⟩, ack := true, fin := true, win := 64000 } }),
    (.a, .endInputStream),
    (.b, .segmentReceived
      { header := { seqno := ⟨1⟩, ackno := ⟨102⟩, ack := true, fin := true, win := 64000 } }),
    (.a, .segmentReceived
      { header := { seqno := ⟨102⟩, ackno := ⟨2⟩, ack := true, win := 64000 } }),
    (.a, .tick 1)]

theorem Network.close_without_linger_passive :
    let n := StepSystem.run step
      (new { fixedIsn := some ⟨0⟩ } { fixedIsn := some ⟨100⟩ } 0 0) passiveClose
    n.a.conn.active = false ∧ n.b.conn.sender.finSent = true ∧ n.b.conn.sender.ackno = 2 :=
  ⟨by decide +kernel, ((close_without_linger { fixedIsn := some ⟨0⟩ } { fixedIsn := some ⟨100⟩ } 0 0
    passiveClose (by decide +kernel) ⟨by decide +kernel, by decide +kernel⟩).1
    (by decide +kernel) (by decide +kernel) (by decide +kernel)).2⟩

end CourseNet
