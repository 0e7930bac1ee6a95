import CourseNet.ConnectionLog
import CourseNet.TCPState

/-!
# A listening connection

Until a SYN arrives the receiver ignores every segment.  The connection does not: a segment that
occupies sequence space is answered, and one that acknowledges the connection's own initial sequence
number goes through `ack_received`; in both cases the window is filled, and the first thing
`fill_window` sends is the connection's SYN.
-/

namespace CourseNet

namespace TCPConnection

/-- A fresh connection, some time after the last segment. -/
def listening (cfg : TCPConfig) (random : UInt32) (time : ℕ) : TCPConnection :=
  { new cfg random with timeSinceLastSegmentReceived := time }

/-- The calls of a listening owner: segments without SYN and RST, and the passage of time. -/
def Op.BeforeSyn : Op → Prop
  | .segmentReceived seg => seg.header.syn = false ∧ seg.header.rst = false
  | .tick _ => True
  | _ => False

/-- Nothing was emitted and the state is LISTEN. -/
def SilentInListen (c : TCPConnection) : Prop :=
  c.segmentsOut = [] ∧ c.state = TCPState.ofState .listen

instance (c : TCPConnection) : Decidable c.SilentInListen := inferInstanceAs (Decidable (_ ∧ _))

/-- The calls that a listening connection with this initial sequence number does not react to. -/
def Op.Ignored (isn : WrappingInt32) : Op → Prop
  | .segmentReceived seg =>
      seg.lengthInSequenceSpace = 0 ∧ (seg.header.ack = true → seg.header.ackno ≠ isn)
  | _ => True

instance (isn : WrappingInt32) : DecidablePred (Op.Ignored isn)
  | .segmentReceived seg =>
      inferInstanceAs (Decidable (seg.lengthInSequenceSpace = 0 ∧ (_ → seg.header.ackno ≠ isn)))
  | .tick _ => isTrue trivial
  | .connect => isTrue trivial
  | .write _ => isTrue trivial
  | .endInputStream => isTrue trivial
  | .readInbound _ => isTrue trivial

/-! ### Before the SYN -/

/-- Whatever the window, a sender that has sent nothing sends its SYN. -/
theorem fillWindow_sends_syn {s : TCPSender} (hsyn : s.synSent = false) (hnext : s.nextSeqno = 0) :
    s.fillWindow.segmentsOut ≠ s.segmentsOut := by
  intro hsilent
  rcases TCPSender.filled_of_silent hsilent with hfull | hdone
  · have hwindow : 0 < s.effectiveWindow := by
      unfold TCPSender.effectiveWindow
      by_cases hclosed : s.windowSize = 0
      · rw [if_pos hclosed]
        exact Nat.one_pos
      · rw [if_neg hclosed]
        exact Nat.pos_of_ne_zero fun h => hclosed (UInt16.toNat_inj.mp h)
    rw [TCPSender.windowRight] at hfull
    omega
  · exact absurd hdone.1 (by simp [hsyn])

/-- Only an acknowledgment of the initial sequence number itself may stand for zero. -/
theorem absoluteAckno_pos {s : TCPSender} {ackno : WrappingInt32}
    (h : ackno ≠ s.isn) : 0 < s.absoluteAckno ackno := by
  by_contra hzero
  have hwrap := wrap_unwrap ackno s.isn s.ackno
  rw [show unwrap ackno s.isn s.ackno = 0 from by unfold TCPSender.absoluteAckno at hzero; omega,
    wrap_zero] at hwrap
  exact h hwrap.symm

theorem absoluteAckno_isn {s : TCPSender} (hackno : s.ackno = 0) : s.absoluteAckno s.isn = 0 := by
  rw [TCPSender.absoluteAckno, hackno]
  simpa only [wrap_zero] using unwrap_wrap_self 0 s.isn

/-- An acknowledgment of the initial sequence number makes the sender start. -/
theorem ackReceived_isn_sends_syn {s : TCPSender} (hsyn : s.synSent = false)
    (hnext : s.nextSeqno = 0) (hackno : s.ackno = 0) (w : UInt16) :
    (s.ackReceived s.isn w).segmentsOut ≠ s.segmentsOut := by
  rcases s.ackReceived_cases s.isn w with ⟨hahead, -⟩ | ⟨-, h⟩
  · rw [absoluteAckno_isn hackno] at hahead
    omega
  · have hframe := s.noteAck_frame (s.absoluteAckno s.isn) w
    rw [h, TCPSender.stopTimer_eq]
    show (s.noteAck _ w).fillWindow.segmentsOut ≠ _
    rw [← hframe.segmentsOut]
    exact fillWindow_sends_syn (hframe.synSent.trans hsyn) (hframe.nextSeqno.trans hnext)

/-- A reply leaves a segment in the sender's queue. -/
theorem reply_queues {c : TCPConnection} {seg : TCPSegment}
    (h : c.sendAckNeeded seg = true ∨ c.sender.segmentsOut ≠ []) :
    (c.reply seg).sender.segmentsOut ≠ [] := by
  unfold reply
  by_cases hneeded : c.sendAckNeeded seg = true
  · rw [if_pos hneeded]
    dsimp only
    by_cases hempty : c.sender.fillWindow.segmentsOut.isEmpty = true
    · rw [if_pos hempty]
      exact List.append_ne_nil_of_right_ne_nil _ (List.cons_ne_nil _ _)
    · rw [if_neg hempty]
      exact fun hnil => hempty (by rw [hnil]; rfl)
  · rw [if_neg hneeded]
    exact h.resolve_left hneeded

/-! ### One call -/

variable (cfg : TCPConfig) (random : UInt32) (time : ℕ)

theorem listening_silent : (listening cfg random time).SilentInListen :=
  ⟨rfl, (state_listen_iff _).mpr ⟨⟨rfl, rfl⟩, ⟨rfl, rfl⟩, rfl, rfl⟩⟩

/-- The receiver drops the segment, and the connection goes on to look at it. -/
theorem listening_segmentReceived {seg : TCPSegment} (hsyn : seg.header.syn = false)
    (hrst : seg.header.rst = false) :
    (listening cfg random time).segmentReceived seg =
      ((((listening cfg random 0).acknowledge seg).noteInboundEnd).reply seg).pushSegmentsOut := by
  have hreceiver : (listening cfg random time).receiver.segmentReceived seg =
      ((listening cfg random time).receiver, .returns) := by
    show (if seg.header.syn then _ else _) = _
    rw [if_neg (by simp [hsyn])]
  have hreceived : (listening cfg random time).received seg = listening cfg random 0 := by
    rw [received, hreceiver]
    rfl
  rcases (listening cfg random time).segmentReceived_cases seg with
    ⟨hactive, -⟩ | ⟨-, hreset, -⟩ | ⟨-, -, hthrows, -⟩ | ⟨-, -, -, h⟩
  · exact absurd (show true = false from hactive) (by decide)
  · exact absurd hreset (by simp [hrst])
  · rw [hreceiver] at hthrows
    exact absurd (show PushOutcome.returns = .throws from hthrows) (by decide)
  · rw [h, hreceived]

/-- An ignored segment only restarts the clock. -/
theorem listening_ignores {seg : TCPSegment} (hsyn : seg.header.syn = false)
    (hrst : seg.header.rst = false)
    (h : (Op.segmentReceived seg).Ignored (new cfg random).sender.isn) :
    (listening cfg random time).segmentReceived seg = listening cfg random 0 := by
  obtain ⟨hlength, hack⟩ := h
  have hacknowledge : (listening cfg random 0).acknowledge seg = listening cfg random 0 := by
    unfold acknowledge
    by_cases hflag : seg.header.ack = true
    · rw [if_pos hflag]
      have hahead : 0 < (listening cfg random 0).sender.absoluteAckno seg.header.ackno :=
        absoluteAckno_pos (hack hflag)
      rcases (listening cfg random 0).sender.ackReceived_cases seg.header.ackno seg.header.win with
        ⟨-, hsame⟩ | ⟨hle, -⟩
      · rw [hsame]
      · exact absurd hle (not_le.mpr hahead)
    · rw [if_neg hflag]
  have hquiet : (listening cfg random 0).sendAckNeeded seg = false := by
    show (decide (0 < seg.lengthInSequenceSpace) || false) = false
    simp [hlength]
  rw [listening_segmentReceived cfg random time hsyn hrst, hacknowledge]
  show ((listening cfg random 0).reply seg).pushSegmentsOut = _
  rw [reply, if_neg (by simp [hquiet])]
  rfl

/-- Any other segment makes the connection send its SYN. -/
theorem listening_answers {seg : TCPSegment} (hsyn : seg.header.syn = false)
    (hrst : seg.header.rst = false)
    (h : ¬(Op.segmentReceived seg).Ignored (new cfg random).sender.isn) :
    ((listening cfg random time).segmentReceived seg).segmentsOut ≠ [] := by
  rw [listening_segmentReceived cfg random time hsyn hrst]
  suffices hqueue :
      ((((listening cfg random 0).acknowledge seg).noteInboundEnd).reply seg).sender.segmentsOut ≠
        [] from List.append_ne_nil_of_right_ne_nil _ (by simpa using hqueue)
  apply reply_queues
  by_cases hlength : seg.lengthInSequenceSpace = 0
  · right
    have hflag : seg.header.ack = true := by
      by_contra hno
      exact h ⟨hlength, fun hyes => absurd hyes hno⟩
    have hisn : seg.header.ackno = (listening cfg random 0).sender.isn := by
      by_contra hne
      exact h ⟨hlength, fun _ => hne⟩
    rw [noteInboundEnd_sender, acknowledge, if_pos hflag, hisn]
    exact ackReceived_isn_sends_syn (s := (listening cfg random 0).sender) rfl rfl rfl _
  · left
    unfold sendAckNeeded
    simp [Nat.pos_of_ne_zero hlength]

theorem listening_tick (ms : ℕ) :
    (listening cfg random time).tick ms = listening cfg random ((time + ms) % 2 ^ 64) := by
  rcases (listening cfg random time).tick_cases ms with ⟨hactive, -⟩ | ⟨-, hmax, -⟩ | ⟨-, -, h⟩
  · exact absurd (show true = false from hactive) (by decide)
  · exact absurd (show TCPConfig.maxRetxAttempts < 0 from hmax) (by decide)
  · rw [h]
    rfl

/-! ### Runs -/

/-- **A listening connection and its SYN.**  For every configuration and every sequence of ticks and
segments without SYN and RST on a fresh connection: it emits nothing and stays in LISTEN all the
time if and only if no segment occupies sequence space and none acknowledges the connection's own
initial sequence number. -/
theorem listen_silent_iff (ops : List Op) (hops : ∀ op ∈ ops, op.BeforeSyn) :
    (∀ ops', ops' <+: ops → (StepSystem.run step (new cfg random) ops').SilentInListen) ↔
      ∀ op ∈ ops, op.Ignored (new cfg random).sender.isn := by
  suffices hrun : ∀ time,
      (∀ ops', ops' <+: ops →
        (StepSystem.run step (listening cfg random time) ops').SilentInListen) ↔
        ∀ op ∈ ops, op.Ignored (new cfg random).sender.isn from hrun 0
  induction ops with
  | nil =>
      intro time
      refine iff_of_true (fun ops' hpre => ?_) (fun op hop => absurd hop List.not_mem_nil)
      rw [List.prefix_nil.mp hpre]
      exact listening_silent cfg random time
  | cons op ops ih =>
      intro time
      have hih := ih fun o ho => hops o (List.mem_cons_of_mem _ ho)
      -- an ignored call leads to a listening connection, any other to one that has sent
      have hstep : (op.Ignored (new cfg random).sender.isn ∧
            ∃ time', step (listening cfg random time) op = listening cfg random time') ∨
          (¬op.Ignored (new cfg random).sender.isn ∧
            (step (listening cfg random time) op).segmentsOut ≠ []) := by
        have hop := hops op List.mem_cons_self
        cases op with
        | segmentReceived seg =>
            by_cases hignored : (Op.segmentReceived seg).Ignored (new cfg random).sender.isn
            · exact Or.inl ⟨hignored, 0, listening_ignores cfg random time hop.1 hop.2 hignored⟩
            · exact Or.inr ⟨hignored, listening_answers cfg random time hop.1 hop.2 hignored⟩
        | tick ms => exact Or.inl ⟨trivial, _, listening_tick cfg random time ms⟩
        | connect | write | endInputStream | readInbound => exact absurd hop id
      rw [List.forall_mem_cons]
      rcases hstep with ⟨hignored, time', hnext⟩ | ⟨hreacts, hsent⟩
      · rw [and_iff_right hignored, ← hih time']
        constructor
        · intro h ops' hpre
          rw [← hnext]
          exact h (op :: ops') (List.cons_prefix_cons.mpr ⟨rfl, hpre⟩)
        · intro h ops' hpre
          rcases List.prefix_cons_iff.mp hpre with rfl | ⟨rest, rfl, hrest⟩
          · exact listening_silent cfg random time
          · rw [StepSystem.run_cons, hnext]
            exact h rest hrest
      · refine iff_of_false (fun h => hsent ?_) fun h => hreacts h.1
        exact (h [op] (List.cons_prefix_cons.mpr ⟨rfl, List.nil_prefix⟩)).1

/-- Before its SYN a stray ACK, an ACK of a later number and some waiting. -/
theorem listen_silent_stray_acks :
    let ops := [Op.segmentReceived {}, .tick 1000,
      .segmentReceived { header := { ack := true, ackno := ⟨5⟩, win := 100 } }]
    ∀ ops', ops' <+: ops →
      (StepSystem.run step (new { fixedIsn := some ⟨0⟩ } 0) ops').SilentInListen :=
  (listen_silent_iff { fixedIsn := some ⟨0⟩ } 0
    [.segmentReceived {}, .tick 1000,
      .segmentReceived { header := { ack := true, ackno := ⟨5⟩, win := 100 } }]
    (by simp [Op.BeforeSyn])).mpr (by decide)

/-- One byte of data without SYN and ACK is enough for the connection to open itself. -/
theorem listen_opens_on_data :
    let ops := [Op.segmentReceived { payload := [0] }]
    let c := StepSystem.run step (new { fixedIsn := some ⟨0⟩ } 0) ops
    (∀ op ∈ ops, op.BeforeSyn) ∧ ¬c.SilentInListen ∧
      c.state = TCPState.ofState .synSent ∧ c.segmentsOut.map (·.header.syn) = [true] :=
  ⟨by simp [Op.BeforeSyn], by decide +kernel⟩

end TCPConnection

end CourseNet
