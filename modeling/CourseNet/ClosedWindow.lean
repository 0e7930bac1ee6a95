import CourseNet.ConnectionLog

/-!
# Probing a closed window

A peer that keeps its window closed and answers every probe does not make the timeout double, but
each probe counts as a consecutive retransmission, and only a fully acknowledged segment resets
the count.  So the connection survives exactly the rounds of probe and answer that keep the
counter at `MAX_RETX_ATTEMPTS`.
-/

namespace CourseNet

/-! ### No queued segment is a RST -/

namespace TCPSender

/-- Neither a queued nor an outstanding segment is a RST. -/
def Plain (s : TCPSender) : Prop :=
  (∀ seg ∈ s.segmentsOut, seg.header.rst = false) ∧
    ∀ e ∈ s.outstanding, e.2.header.rst = false

theorem Plain.sends {s s' : TCPSender} (hs : s.Sound) (h : s.Plain) {right : ℕ}
    (hsend : Sends right s s') : s'.Plain := by
  obtain ⟨seg, hentries, -, hqueue, hrst⟩ := hs.sends_outstanding hsend
  unfold Plain
  rw [hqueue, hentries, List.forall_mem_append, List.forall_mem_append, List.forall_mem_singleton,
    List.forall_mem_singleton]
  exact ⟨⟨h.1, hrst⟩, h.2, hrst⟩

theorem Plain.fillWindow {s : TCPSender} (hs : s.Sound) (h : s.Plain) : s.fillWindow.Plain :=
  (fillWindow_invariant (P := fun t => t.Sound ∧ t.Plain) ⟨hs, h⟩
    fun _ _ ht hsend => ⟨ht.1.sends hsend, ht.2.sends ht.1 hsend⟩).2

theorem stopTimer_plain {s : TCPSender} (h : s.Plain) : s.stopTimer.Plain := by
  unfold stopTimer
  split <;> exact h

end TCPSender

theorem SenderMove.plain {s t : TCPSender} (h : SenderMove s t) (hs : s.Sound) (hp : s.Plain) :
    t.Plain := by
  cases h with
  | ackReceived ackno w =>
      rcases s.ackReceived_cases ackno w with ⟨-, heq⟩ | ⟨hle, heq⟩
      · rw [heq]
        exact hp
      · rw [heq]
        refine TCPSender.stopTimer_plain (TCPSender.Plain.fillWindow (hs.noteAck hle w) ?_)
        exact ⟨by rw [(s.noteAck_frame _ w).segmentsOut]; exact hp.1,
          fun e he => hp.2 e ((s.noteAck_outstanding _ w e).mp he).1⟩
  | fillWindow => exact hp.fillWindow hs
  | sendEmptySegment =>
      exact ⟨List.forall_mem_append.mpr ⟨hp.1, List.forall_mem_singleton.mpr rfl⟩, hp.2⟩
  | tick ms =>
      refine ⟨?_, by rw [(s.tick_frame ms).outstanding]; exact hp.2⟩
      rcases s.tick_segmentsOut ms with hqueue | ⟨e, he, hqueue⟩
      · rw [hqueue]
        exact hp.1
      · rw [hqueue, List.forall_mem_append, List.forall_mem_singleton]
        exact ⟨hp.1, hp.2 e he⟩
  | setError => exact hp
  | dequeue q hq => exact ⟨fun seg hseg => hp.1 seg (hq seg hseg), hp.2⟩

theorem TCPConnection.Reachable.plain {c : TCPConnection} (h : c.Reachable) : c.sender.Plain := by
  refine (h.sender_invariant (P := fun s => s.Sound ∧ s.Plain) ?_ ?_ ?_ ?_).2
  · exact fun s t hmove hs => ⟨hmove.sound hs.1, hmove.plain hs.1 hs.2⟩
  · exact fun s d hs => ⟨(hs.1.write d).fillWindow, TCPSender.Plain.fillWindow (hs.1.write d) hs.2⟩
  · exact fun s hs => ⟨hs.1.endInput.fillWindow, TCPSender.Plain.fillWindow hs.1.endInput hs.2⟩
  · exact fun _ _ _ _ => ⟨TCPSender.Sound.new _ _ _ _,
      fun _ hq => absurd hq List.not_mem_nil, fun _ he => absurd he List.not_mem_nil⟩

/-! ### A sender behind a closed window -/

namespace TCPSender

/-- Something is outstanding and the peer's window is closed. -/
structure Stalled (s : TCPSender) : Prop extends s.Sound where
  plain : s.Plain
  closed : s.windowSize = 0
  waiting : s.outstanding ≠ []

/-- The sender after a probe that the connection has passed on. -/
def probed (s : TCPSender) : TCPSender :=
  { s with
      timer := 0
      consecutiveRetransmissions := s.consecutiveRetransmissions + 1
      segmentsOut := [] }

namespace Stalled

variable {s : TCPSender}

theorem filled (h : s.Stalled) : s.Filled := by
  left
  have hne : s.nextSeqno ≠ s.ackno := fun heq => h.waiting (h.outstanding_eq_nil.mpr heq)
  have hle := h.ackno_le
  rw [windowRight, effectiveWindow, if_pos h.closed]
  omega

/-- A tick that expires the timer sends the first outstanding segment again. -/
theorem tick (h : s.Stalled) {ms : ℕ} (hms : s.rto ≤ UInt32.ofNat (s.timer.toNat + ms)) :
    ∃ e ∈ s.outstanding, s.tick ms =
      { s with
          timer := 0
          consecutiveRetransmissions := s.consecutiveRetransmissions + 1
          segmentsOut := s.segmentsOut ++ [e.2] } := by
  have hrun := h.running h.waiting
  unfold TCPSender.tick
  rw [if_pos hrun]
  dsimp only
  rw [if_pos hms]
  unfold retransmit
  dsimp only
  split
  · rename_i hnil
    exact absurd hnil h.waiting
  · rename_i k seg rest hout
    refine ⟨(k, seg), ?_, ?_⟩
    · rw [outstanding, hout]
      exact List.mem_cons_self
    · rw [if_neg (by rw [h.closed]; decide)]

/-- An answer that acknowledges nothing new and keeps the window closed changes nothing. -/
theorem ackReceived (h : s.Stalled) : s.ackReceived (wrap s.ackno s.isn) 0 = s := by
  have habs : s.absoluteAckno (wrap s.ackno s.isn) = s.ackno := unwrap_wrap_self _ _
  have hnone : ∀ e ∈ s.outstanding, ¬e.1 + e.2.lengthInSequenceSpace ≤ s.ackno := fun e he =>
    not_le.mpr (h.tracked e he).2.1
  have hnote : s.noteAck s.ackno 0 = s := by
    have hany : (s.outstandingSegments.entries.any fun e =>
        decide (e.1 + e.2.lengthInSequenceSpace ≤ s.ackno)) = false := by
      rw [List.any_eq_false]
      exact fun e he => by simpa using hnone e he
    have hkeep : (s.outstandingSegments.filter fun e =>
        !decide (e.1 + e.2.lengthInSequenceSpace ≤ s.ackno)) = s.outstandingSegments :=
      SortedMap.filter_eq_self fun e he => by simpa using hnone e he
    unfold noteAck dropAcked
    dsimp only
    rw [if_neg (by simp [hany]), hkeep, max_self, ← h.closed]
  rcases s.ackReceived_cases (wrap s.ackno s.isn) 0 with ⟨-, heq⟩ | ⟨-, heq⟩
  · exact heq
  · rw [heq, habs, hnote, h.filled.fillWindow_eq, stopTimer,
      if_neg (by simpa using h.waiting)]

theorem probed (h : s.Stalled) : s.probed.Stalled :=
  ⟨h.toSound.congr rfl rfl rfl rfl rfl rfl rfl,
    ⟨fun _ hq => absurd hq List.not_mem_nil, h.plain.2⟩, h.closed, h.waiting⟩

end Stalled

end TCPSender

/-! ### One round -/

namespace TCPConnection

/-- A round: a tick, and then a segment of the peer. -/
def probeRound (c : TCPConnection) (round : ℕ × TCPSegment) : TCPConnection :=
  (c.tick round.1).segmentReceived round.2

/-- The tick expires the timer, and the segment acknowledges what was acknowledged already and keeps
the window closed. -/
def ClosedRound (c : TCPConnection) (round : ℕ × TCPSegment) : Prop :=
  c.sender.rto ≤ UInt32.ofNat (c.sender.timer.toNat + round.1) ∧
    round.2.header.ack = true ∧ round.2.header.rst = false ∧
    round.2.header.ackno = wrap c.sender.ackno c.sender.isn ∧ round.2.header.win = 0

instance (c : TCPConnection) : DecidablePred c.ClosedRound := fun _ =>
  inferInstanceAs (Decidable (_ ∧ _ ∧ _ ∧ _ ∧ _))

/-- The segments emitted since `c`. -/
def emittedSince (c c' : TCPConnection) : List TCPSegment :=
  c'.segmentsOut.drop c.segmentsOut.length

/-- `c'` came from `c` without a reset. -/
def NoReset (c c' : TCPConnection) : Prop :=
  ∃ sent, c'.segmentsOut = c.segmentsOut ++ sent ∧ ∀ seg ∈ sent, seg.header.rst = false

theorem NoReset.trans {c c' c'' : TCPConnection} (h : NoReset c c') (k : NoReset c' c'') :
    NoReset c c'' := by
  obtain ⟨sent, hout, hplain⟩ := h
  obtain ⟨sent', hout', hplain'⟩ := k
  refine ⟨sent ++ sent', by rw [hout', hout, List.append_assoc], fun seg hseg => ?_⟩
  rcases List.mem_append.mp hseg with hseg | hseg
  · exact hplain seg hseg
  · exact hplain' seg hseg

theorem noReset_iff {c c' : TCPConnection} (h : c.segmentsOut <+: c'.segmentsOut) :
    NoReset c c' ↔ ∀ seg ∈ c.emittedSince c', seg.header.rst = false := by
  obtain ⟨sent, hout⟩ := h
  have hsince : c.emittedSince c' = sent := by rw [emittedSince, ← hout, List.drop_left]
  rw [hsince]
  constructor
  · rintro ⟨sent', hout', hplain⟩
    rw [← hout] at hout'
    rwa [List.append_cancel_left hout']
  · exact fun hplain => ⟨sent, hout.symm, hplain⟩

theorem stamp_rst (c : TCPConnection) (seg : TCPSegment) :
    (c.stamp seg).header.rst = seg.header.rst := rfl

theorem noReset_pushSegmentsOut {c d : TCPConnection} (h : d.segmentsOut = c.segmentsOut)
    (hplain : ∀ seg ∈ d.sender.segmentsOut, seg.header.rst = false) :
    NoReset c d.pushSegmentsOut := by
  refine ⟨d.sender.segmentsOut.map d.stamp, by rw [← h]; rfl, fun seg hseg => ?_⟩
  obtain ⟨q, hq, rfl⟩ := List.mem_map.mp hseg
  rw [stamp_rst]
  exact hplain q hq

/-- An active connection behind a closed window. -/
structure Probing (c : TCPConnection) : Prop where
  active : c.isActive = true
  stalled : c.sender.Stalled

/-- The tick of a round that keeps the counter within the limit. -/
theorem Probing.tick {c : TCPConnection} (h : c.Probing) {ms : ℕ}
    (hms : c.sender.rto ≤ UInt32.ofNat (c.sender.timer.toNat + ms))
    (hcount : c.sender.consecutiveRetransmissions + 1 ≤ TCPConfig.maxRetxAttempts) :
    (c.tick ms).isActive = true ∧ (c.tick ms).sender = c.sender.probed ∧ NoReset c (c.tick ms) := by
  obtain ⟨e, he, htick⟩ := h.stalled.tick hms
  have hqueue : ∀ seg ∈ (c.sender.tick ms).segmentsOut, seg.header.rst = false := by
    rw [htick, List.forall_mem_append, List.forall_mem_singleton]
    exact ⟨h.stalled.plain.1, h.stalled.plain.2 e he⟩
  rcases c.tick_cases ms with ⟨hno, -⟩ | ⟨-, hmax, -⟩ | ⟨-, -, heq⟩
  · exact absurd h.active (by simp [hno])
  · rw [htick] at hmax
    exact absurd hcount (UInt32.not_le.mpr hmax)
  · -- something is in flight, so the connection does not close
    have hsender : (c.ticked ms).pushSegmentsOut.sender = c.sender.probed := by
      show { c.sender.tick ms with segmentsOut := [] } = _
      rw [htick]
      rfl
    have hopen : (c.ticked ms).pushSegmentsOut.streamsFinished = false := by
      have hflight : c.sender.probed.bytesInFlight ≠ 0 := fun hzero =>
        h.stalled.probed.waiting (h.stalled.probed.toSound.bytesInFlight_eq_zero.mp hzero)
      unfold streamsFinished
      rw [hsender]
      simp [hflight]
    have hclose : c.tick ms = (c.ticked ms).pushSegmentsOut := by
      rw [heq, closeIfFinished, if_neg (by simp [hopen])]
    rw [hclose]
    exact ⟨h.active, hsender, noReset_pushSegmentsOut (d := c.ticked ms) rfl hqueue⟩

/-- A stalled sender replies with at most an empty segment. -/
theorem reply_of_stalled {c : TCPConnection} (h : c.sender.Stalled)
    (hqueue : c.sender.segmentsOut = []) (seg : TCPSegment) :
    { (c.reply seg).sender with segmentsOut := [] } = c.sender ∧
      ∀ q ∈ (c.reply seg).sender.segmentsOut, q.header.rst = false := by
  have hclear : { c.sender with segmentsOut := [] } = c.sender := by rw [← hqueue]
  unfold reply
  rw [h.filled.fillWindow_eq]
  split
  · dsimp only
    rw [hqueue, if_pos List.isEmpty_nil]
    refine ⟨hclear, ?_⟩
    show ∀ q ∈ c.sender.segmentsOut ++ [c.sender.blankSegment], q.header.rst = false
    rw [hqueue, List.nil_append, List.forall_mem_singleton]
    rfl
  · exact ⟨hclear, h.plain.1⟩

/-- The answer of a round. -/
theorem Probing.segmentReceived {c : TCPConnection} (h : c.Probing)
    (hqueue : c.sender.segmentsOut = []) {seg : TCPSegment} (hack : seg.header.ack = true)
    (hrst : seg.header.rst = false) (hackno : seg.header.ackno = wrap c.sender.ackno c.sender.isn)
    (hwin : seg.header.win = 0) :
    (c.segmentReceived seg).isActive = true ∧ (c.segmentReceived seg).sender = c.sender ∧
      NoReset c (c.segmentReceived seg) := by
  rcases c.segmentReceived_cases seg with ⟨hno, -⟩ | ⟨-, hyes, -⟩ | ⟨-, -, -, heq⟩ | ⟨-, -, -, heq⟩
  · exact absurd h.active (by simp [hno])
  · exact absurd hyes (by simp [hrst])
  · rw [heq]
    exact ⟨h.active, rfl, [], (List.append_nil _).symm, fun _ hs => absurd hs List.not_mem_nil⟩
  · have hactive := (c.processed_frame seg).isActive.trans h.active
    have hsender : ((c.received seg).acknowledge seg).noteInboundEnd.sender = c.sender := by
      rw [noteInboundEnd_sender, acknowledge, if_pos hack]
      show c.sender.ackReceived seg.header.ackno seg.header.win = c.sender
      rw [hackno, hwin, h.stalled.ackReceived]
    have hlog : ((c.received seg).acknowledge seg).noteInboundEnd.segmentsOut = c.segmentsOut := by
      simp [received]
    unfold processed at hactive
    generalize ((c.received seg).acknowledge seg).noteInboundEnd = d at hsender hlog hactive heq
    obtain ⟨hsame, hplain⟩ := d.reply_of_stalled (hsender ▸ h.stalled) (hsender ▸ hqueue) seg
    rw [heq]
    exact ⟨hactive, hsame.trans hsender,
      noReset_pushSegmentsOut ((d.reply_segmentsOut seg).trans hlog) hplain⟩

/-- A round that keeps the counter within the limit only counts. -/
theorem Probing.round {c : TCPConnection} (h : c.Probing) {round : ℕ × TCPSegment}
    (hround : c.ClosedRound round)
    (hcount : c.sender.consecutiveRetransmissions + 1 ≤ TCPConfig.maxRetxAttempts) :
    (c.probeRound round).Probing ∧ (c.probeRound round).sender = c.sender.probed ∧
      NoReset c (c.probeRound round) := by
  obtain ⟨hms, hack, hrst, hackno, hwin⟩ := hround
  obtain ⟨hactive, hsender, hreset⟩ := h.tick hms hcount
  have hprobing : (c.tick round.1).Probing := ⟨hactive, hsender ▸ h.stalled.probed⟩
  obtain ⟨hactive', hsender', hreset'⟩ := hprobing.segmentReceived (by rw [hsender]; rfl) hack hrst
    (by rw [hsender]; exact hackno) hwin
  rw [hsender] at hsender'
  exact ⟨⟨hactive', hsender' ▸ h.stalled.probed⟩, hsender', hreset.trans hreset'⟩

/-- A round that takes the counter past the limit ends the connection. -/
theorem Probing.round_over {c : TCPConnection} (h : c.Probing) {round : ℕ × TCPSegment}
    (hround : c.ClosedRound round)
    (hcount : ¬c.sender.consecutiveRetransmissions + 1 ≤ TCPConfig.maxRetxAttempts) :
    (c.probeRound round).isActive = false := by
  obtain ⟨e, -, htick⟩ := h.stalled.tick hround.1
  have hover : TCPConfig.maxRetxAttempts < (c.sender.tick round.1).consecutiveRetransmissions := by
    rw [htick]
    exact UInt32.not_le.mp hcount
  have hended : (c.tick round.1).isActive = false := by
    rcases c.tick_cases round.1 with ⟨hno, -⟩ | ⟨-, -, heq⟩ | ⟨-, hno, -⟩
    · exact absurd h.active (by simp [hno])
    · rw [heq, uncleanShutdown_eq]
      rfl
    · exact absurd hover hno
  rw [probeRound, TCPConnection.segmentReceived, if_pos (by simp [hended])]
  exact hended

theorem probeRound_inactive {c : TCPConnection} (h : c.isActive = false)
    (round : ℕ × TCPSegment) : (c.probeRound round).isActive = false := by
  have htick : c.tick round.1 = c := by rw [TCPConnection.tick, if_pos (by simp [h])]
  rw [probeRound, htick, TCPConnection.segmentReceived, if_pos (by simp [h])]
  exact h

/-! ### Rounds in a row -/

theorem probeRound_segmentsOut_grows (c : TCPConnection) (round : ℕ × TCPSegment) :
    c.segmentsOut <+: (c.probeRound round).segmentsOut :=
  (c.step_segmentsOut_grows (.tick round.1)).trans
    ((c.tick round.1).step_segmentsOut_grows (.segmentReceived round.2))

theorem rounds_segmentsOut_grows (c : TCPConnection) (rounds : List (ℕ × TCPSegment)) :
    c.segmentsOut <+: (StepSystem.run probeRound c rounds).segmentsOut := by
  refine StepSystem.run_rel (R := fun c c' => c.segmentsOut <+: c'.segmentsOut)
    (fun _ => List.prefix_refl _) ?_ probeRound_segmentsOut_grows c rounds
  exact fun h k => List.IsPrefix.trans h k

/-- No reset on the whole way means none on its second part. -/
theorem NoReset.of_trans {c c' c'' : TCPConnection} (h : NoReset c c'')
    (hfirst : c.segmentsOut <+: c'.segmentsOut) (hsecond : c'.segmentsOut <+: c''.segmentsOut) :
    NoReset c' c'' := by
  obtain ⟨sent, hout, hplain⟩ := h
  obtain ⟨sent₁, hout₁⟩ := hfirst
  obtain ⟨sent₂, hout₂⟩ := hsecond
  refine ⟨sent₂, hout₂.symm, fun seg hseg => hplain seg ?_⟩
  rw [← hout₂, ← hout₁, List.append_assoc] at hout
  rw [← List.append_cancel_left hout]
  exact List.mem_append_right _ hseg

/-- The rounds leave the connection alone exactly if none of them takes the counter past the
limit. -/
theorem Probing.rounds {c : TCPConnection} (h : c.Probing) (rounds : List (ℕ × TCPSegment))
    (hrounds : StepSystem.Guarded probeRound ClosedRound c rounds) :
    ((StepSystem.run probeRound c rounds).isActive = true ∧
      NoReset c (StepSystem.run probeRound c rounds) ∧
      (StepSystem.run probeRound c rounds).sender.rto = c.sender.rto) ↔
      ∀ k, 1 ≤ k → k ≤ rounds.length →
        c.sender.consecutiveRetransmissions + UInt32.ofNat k ≤ TCPConfig.maxRetxAttempts := by
  induction rounds generalizing c with
  | nil =>
      refine iff_of_true ⟨h.active, ⟨[], (List.append_nil _).symm, by simp⟩, rfl⟩ ?_
      intro k hlo hhi
      exact absurd hhi (by rw [List.length_nil]; omega)
  | cons round rounds ih =>
      obtain ⟨hround, hrest⟩ := hrounds
      rw [StepSystem.run_cons]
      by_cases hcount : c.sender.consecutiveRetransmissions + 1 ≤ TCPConfig.maxRetxAttempts
      · obtain ⟨hprobing, hsender, hreset⟩ := h.round hround hcount
        have hreset' : NoReset c (StepSystem.run probeRound (c.probeRound round) rounds) ↔
            NoReset (c.probeRound round) (StepSystem.run probeRound (c.probeRound round) rounds) :=
          ⟨fun hall => hall.of_trans (probeRound_segmentsOut_grows c round)
            (rounds_segmentsOut_grows _ rounds), fun hlater => hreset.trans hlater⟩
        have hrto : (c.probeRound round).sender.rto = c.sender.rto := by rw [hsender]; rfl
        have hcr : (c.probeRound round).sender.consecutiveRetransmissions =
            c.sender.consecutiveRetransmissions + 1 := by rw [hsender]; rfl
        have hadd : ∀ k, c.sender.consecutiveRetransmissions + 1 + UInt32.ofNat k =
            c.sender.consecutiveRetransmissions + UInt32.ofNat (k + 1) := fun k => by
          rw [UInt32.ofNat_add, UInt32.add_assoc, UInt32.add_comm 1]
          rfl
        rw [hreset', ← hrto, ih hprobing hrest, hcr]
        constructor
        · intro hall k hlo hhi
          obtain ⟨m, rfl⟩ : ∃ m, k = m + 1 := ⟨k - 1, by omega⟩
          rcases Nat.eq_zero_or_pos m with rfl | hpos
          · exact hcount
          · rw [← hadd]
            exact hall m hpos (by rw [List.length_cons] at hhi; omega)
        · intro hall k hlo hhi
          rw [hadd]
          exact hall (k + 1) (by omega) (by rw [List.length_cons]; omega)
      · have hended : (StepSystem.run probeRound (c.probeRound round) rounds).isActive = false :=
          StepSystem.run_invariant (P := fun c : TCPConnection => c.isActive = false)
            (fun _ _ hc => probeRound_inactive hc _) rounds (h.round_over hround hcount)
        refine iff_of_false (fun hall => ?_) fun hall => ?_
        · exact absurd hall.1 (by simp [hended])
        · exact hcount (hall 1 (le_refl _) (by rw [List.length_cons]; omega))

/-- **Probing a closed window.**  From every reachable active connection whose peer has closed the
window while something is outstanding, a run of rounds of probe and answer leaves the connection
active, emits no RST and leaves the timeout alone if and only if the counter of consecutive
retransmissions stays within `MAX_RETX_ATTEMPTS` in every round. -/
theorem closed_window_rounds_iff {c : TCPConnection} (h : c.Reachable)
    (hactive : c.isActive = true) (hclosed : c.sender.windowSize = 0)
    (hwaiting : c.sender.outstanding ≠ []) (rounds : List (ℕ × TCPSegment))
    (hrounds : StepSystem.Guarded probeRound ClosedRound c rounds) :
    let c' := StepSystem.run probeRound c rounds
    (c'.isActive = true ∧ (∀ seg ∈ c.emittedSince c', seg.header.rst = false) ∧
      c'.sender.rto = c.sender.rto) ↔
      ∀ k, 1 ≤ k → k ≤ rounds.length →
        c.sender.consecutiveRetransmissions + UInt32.ofNat k ≤ TCPConfig.maxRetxAttempts := by
  intro c'
  have hprobing : c.Probing := ⟨hactive, h.sound, h.plain, hclosed, hwaiting⟩
  rw [← noReset_iff (rounds_segmentsOut_grows c rounds)]
  exact hprobing.rounds rounds hrounds

/-- A connection whose peer accepts the SYN with a closed window, and one byte to send. -/
def closedWindowStart : TCPConnection :=
  StepSystem.run step (new { fixedIsn := some ⟨0⟩ } 0)
    [.connect, .segmentReceived { header := { syn := true, ack := true, ackno := ⟨1⟩ } },
      .write [7]]

/-- The answer to every probe: the window is still closed. -/
def stillClosed : ℕ × TCPSegment :=
  (1000, { header := { seqno := ⟨1⟩, ack := true, ackno := ⟨1⟩ } })

/-- Eight rounds are survived. -/
theorem closed_window_eight_rounds :
    (StepSystem.run probeRound closedWindowStart (List.replicate 8 stillClosed)).isActive =
      true := by
  have hcount : ∀ k ≤ 8, closedWindowStart.sender.consecutiveRetransmissions + UInt32.ofNat k ≤
      TCPConfig.maxRetxAttempts := by decide +kernel
  refine ((closed_window_rounds_iff (c := closedWindowStart) ⟨_, 0, _, rfl⟩ (by decide +kernel)
    (by decide +kernel) (by decide +kernel) (List.replicate 8 stillClosed)
    (by decide +kernel)).mpr fun k _ hhi => ?_).1
  rw [List.length_replicate] at hhi
  exact hcount k hhi

/-- The ninth round resets the connection. -/
theorem closed_window_ninth_round :
    let c' := StepSystem.run probeRound closedWindowStart (List.replicate 9 stillClosed)
    StepSystem.Guarded probeRound ClosedRound closedWindowStart (List.replicate 9 stillClosed) ∧
      closedWindowStart.isActive = true ∧ closedWindowStart.sender.windowSize = 0 ∧
      closedWindowStart.sender.outstanding ≠ [] ∧
      c'.isActive = false ∧ ∃ seg ∈ closedWindowStart.emittedSince c', seg.header.rst = true := by
  decide +kernel

end TCPConnection

end CourseNet
