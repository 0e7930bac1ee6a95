import CourseNet.ConnectionFrame
import CourseNet.OutboundProgress

/-!
# A clean close is justified

`Watch` is a connection together with what an observer of its run notes: the segments it received,
the tick time since the last of them, and whether the FIN had been sent when the inbound stream
ended.  A segment that reaches an ended connection is ignored by it and is not counted as
received.
-/

namespace CourseNet

namespace TCPConnection

/-- A connection under observation. -/
structure Watch where
  conn : TCPConnection
  received : List TCPSegment
  elapsed : ℕ
  finSentAtInboundEnd : Option Bool

namespace Watch

def new (cfg : TCPConfig) (random : UInt32) : Watch := ⟨TCPConnection.new cfg random, [], 0, none⟩

/-- The receiver takes a segment before the sender sees its acknowledgment, so what was sent before
the call is what was sent when the inbound stream ended. -/
def step (w : Watch) (op : Op) : Watch where
  conn := w.conn.step op
  received :=
    match op with
    | .segmentReceived seg => if w.conn.active then w.received ++ [seg] else w.received
    | _ => w.received
  elapsed :=
    match op with
    | .segmentReceived _ => if w.conn.active then 0 else w.elapsed
    | .tick ms => w.elapsed + ms
    | _ => w.elapsed
  finSentAtInboundEnd :=
    if w.finSentAtInboundEnd.isNone && (w.conn.step op).inboundStream.inputEnded then
      some w.conn.sender.finSent
    else w.finSentAtInboundEnd

/-- What the observer's notes say about the connection. -/
structure Inv (cfg : TCPConfig) (w : Watch) : Prop where
  settled : w.conn.sender.Settled
  cfg_eq : w.conn.cfg = cfg
  time_le : w.conn.timeSinceLastSegmentReceived ≤ w.elapsed
  fin_noted : w.finSentAtInboundEnd = some true → w.conn.sender.finSent = true
  linger : w.conn.lingerAfterStreamsFinish = false → w.finSentAtInboundEnd = some false
  acked : w.conn.sender.ackno = 0 ∨ ∃ seg ∈ w.received, seg.header.ack = true ∧
    seg.header.ackno = wrap w.conn.sender.ackno w.conn.sender.isn

theorem Inv.new (cfg : TCPConfig) (random : UInt32) : (Watch.new cfg random).Inv cfg :=
  ⟨TCPSender.Settled.new _ _ _ _, rfl, le_refl _, fun h => absurd h (by simp [Watch.new]),
    fun h => absurd h (by simp [Watch.new, TCPConnection.new]), Or.inl rfl⟩

theorem received_mono (w : Watch) (op : Op) : w.received <+: (w.step op).received := by
  unfold step
  dsimp only
  split
  · split
    · exact List.prefix_append _ _
    · exact List.prefix_refl _
  · exact List.prefix_refl _

/-- The counter of the connection never runs ahead of the observer's clock. -/
theorem time_le_step {w : Watch} (h : w.conn.timeSinceLastSegmentReceived ≤ w.elapsed) (op : Op) :
    (w.step op).conn.timeSinceLastSegmentReceived ≤ (w.step op).elapsed := by
  cases op with
  | connect => exact h
  | write data =>
      show (w.conn.write data).1.timeSinceLastSegmentReceived ≤ w.elapsed
      unfold write
      split <;> exact h
  | endInputStream => exact h
  | segmentReceived seg =>
      show (w.conn.segmentReceived seg).timeSinceLastSegmentReceived ≤
        if w.conn.active then 0 else w.elapsed
      rcases w.conn.segmentReceived_cases seg with ⟨hno, heq⟩ | ⟨hyes, -, heq⟩ | ⟨hyes, -, -, heq⟩ |
        ⟨hyes, -, -, heq⟩
      · rw [heq, if_neg (by simp [active, hno])]
        exact h
      · rw [heq, if_pos (show w.conn.active = true from hyes), uncleanShutdown_eq]
        exact le_refl _
      · rw [heq, if_pos (show w.conn.active = true from hyes)]
        exact le_refl _
      · rw [heq, if_pos (show w.conn.active = true from hyes)]
        exact ((w.conn.processed_frame seg).time).le
  | tick ms =>
      show (w.conn.tick ms).timeSinceLastSegmentReceived ≤ w.elapsed + ms
      have hticked : (w.conn.ticked ms).timeSinceLastSegmentReceived ≤ w.elapsed + ms :=
        (Nat.mod_le _ _).trans (Nat.add_le_add_right h ms)
      rcases w.conn.tick_cases ms with ⟨-, heq⟩ | ⟨-, -, heq⟩ | ⟨-, -, heq⟩
      · rw [heq]
        exact h.trans (Nat.le_add_right _ _)
      · rw [heq, uncleanShutdown_eq]
        exact hticked
      · rw [heq, closeIfFinished_eq]
        exact hticked
  | readInbound len => exact h

/-- A step keeps the note on the FIN, or makes it. -/
theorem noted_step (w : Watch) (op : Op) :
    (w.step op).finSentAtInboundEnd = w.finSentAtInboundEnd ∨
      (w.finSentAtInboundEnd = none ∧
        (w.step op).finSentAtInboundEnd = some w.conn.sender.finSent) := by
  unfold Watch.step
  dsimp only
  split
  · rename_i hcond
    exact Or.inr ⟨by simpa using (Bool.and_eq_true_iff.mp hcond).1, rfl⟩
  · exact Or.inl rfl

/-- It is made by the step that ends the inbound stream at the latest. -/
theorem noted_of_ended {w : Watch} {op : Op}
    (hended : (w.conn.step op).inboundStream.inputEnded = true) :
    (w.step op).finSentAtInboundEnd ≠ none := by
  unfold Watch.step
  dsimp only
  rw [hended, Bool.and_true]
  split
  · exact Option.some_ne_none _
  · rename_i hne
    simpa using hne

theorem Inv.fin_noted_step {cfg : TCPConfig} {w : Watch} (h : w.Inv cfg) {op : Op}
    (hfin : (w.step op).finSentAtInboundEnd = some true) : w.conn.sender.finSent = true := by
  rcases w.noted_step op with hsame | ⟨-, hnow⟩
  · exact h.fin_noted (hsame ▸ hfin)
  · rw [hnow] at hfin
    exact Option.some.inj hfin

/-- The linger flag is cleared only if the note says that the FIN was not sent. -/
theorem Inv.linger_step {cfg : TCPConfig} {w : Watch} (h : w.Inv cfg) {op : Op}
    (hlinger : (w.conn.step op).lingerAfterStreamsFinish = false) :
    (w.step op).finSentAtInboundEnd = some false := by
  rcases step_linger h.settled.toSound op hlinger with hbefore | ⟨hended, hfin⟩
  · have hsome := h.linger hbefore
    rcases w.noted_step op with hsame | ⟨hnone, -⟩
    · rw [hsame, hsome]
    · rw [hnone] at hsome
      exact absurd hsome (by simp)
  · obtain ⟨b, hb⟩ := Option.ne_none_iff_exists'.mp (noted_of_ended hended)
    cases b with
    | false => exact hb
    | true => exact absurd (h.fin_noted_step hb) (by simp [hfin])

theorem Inv.acked_step {cfg : TCPConfig} {w : Watch} (h : w.Inv cfg) (op : Op) :
    (w.conn.step op).sender.ackno = 0 ∨ ∃ seg ∈ (w.step op).received, seg.header.ack = true ∧
      seg.header.ackno = wrap (w.conn.step op).sender.ackno w.conn.sender.isn := by
  rcases w.conn.step_ackno op with hsame | ⟨seg, rfl, hactive, -, hack, -, -, hmove⟩
  · rw [hsame]
    exact h.acked.imp_right fun ⟨seg, hseg, hcover⟩ =>
      ⟨seg, (w.received_mono op).subset hseg, hcover⟩
  · refine Or.inr ⟨seg, ?_, hack, ?_⟩
    · show seg ∈ if w.conn.active then w.received ++ [seg] else w.received
      rw [if_pos (show w.conn.active = true from hactive)]
      exact List.mem_append_right _ List.mem_cons_self
    · rw [hmove]
      exact (wrap_unwrap _ _ _).symm

theorem Inv.step {cfg : TCPConfig} {w : Watch} (h : w.Inv cfg) (op : Op) :
    (w.step op).Inv cfg where
  settled := step_settled h.settled op
  cfg_eq := (step_cfg w.conn op).trans h.cfg_eq
  time_le := time_le_step h.time_le op
  fin_noted hfin := step_finSent (h.fin_noted_step hfin) op
  linger hlinger := h.linger_step hlinger
  acked := by
    have hisn : (w.step op).conn.sender.isn = w.conn.sender.isn := step_isn w.conn op
    rw [hisn]
    exact h.acked_step op

theorem Inv.run (cfg : TCPConfig) (random : UInt32) (ops : List Op) :
    (StepSystem.run Watch.step (Watch.new cfg random) ops).Inv cfg :=
  StepSystem.run_invariant (P := fun w : Watch => w.Inv cfg) (fun _ op h => h.step op) ops
    (Inv.new cfg random)

end Watch

/-- **A clean close is justified.**  If a call of a run ends the connection and the outbound
stream (whose error flag is set together with that of the inbound stream) has no error, then the
inbound stream has ended, the outbound stream is at its end, the FIN has been sent with the last
sequence number, an acknowledgment covering it was received and nothing is outstanding, and either
the FIN had not been sent when the inbound stream ended or ten timeouts have passed since the last
segment was received. -/
theorem clean_close_justified (cfg : TCPConfig) (random : UInt32) (ops : List Op) (op : Op)
    (w w' : Watch) (hw : w = StepSystem.run Watch.step (Watch.new cfg random) ops)
    (hw' : w' = w.step op) (hactive : w.conn.active = true) (hended : w'.conn.active = false)
    (herror : w'.conn.sender.stream.error = false) :
    w'.conn.inboundStream.inputEnded = true ∧
    w'.conn.sender.stream.eof = true ∧
    (w'.conn.sender.finSent = true ∧
      w'.conn.sender.nextSeqno = w'.conn.sender.stream.bytesWritten + 2) ∧
    (w'.conn.sender.outstanding = [] ∧ ∃ seg ∈ w'.received, seg.header.ack = true ∧
      seg.header.ackno =
        wrap (w'.conn.sender.stream.bytesWritten + 2) w'.conn.sender.isn) ∧
    (w'.finSentAtInboundEnd = some false ∨ 10 * cfg.rtTimeout.toNat ≤ w'.elapsed) := by
  have hinv : w'.Inv cfg := by
    rw [hw', hw]
    exact (Watch.Inv.run cfg random ops).step op
  have hstep : w'.conn = w.conn.step op := by rw [hw']; rfl
  rw [hstep] at hended herror
  obtain ⟨-, hfinished, hlinger⟩ := step_ends hactive hended herror
  rw [← hstep] at hfinished hlinger
  simp only [streamsFinished, Bool.and_eq_true, beq_iff_eq] at hfinished
  obtain ⟨⟨hin, heof⟩, hflight⟩ := hfinished
  have hs := hinv.settled
  obtain ⟨hend, hbuf⟩ := ByteStream.eof_iff.mp heof
  have hidle := hs.bytesInFlight_eq_zero.mp hflight
  have hfin := hs.finSent_of_idle hend hidle
  have hsyn := (hs.done_of_finSent hfin).1
  have hnext : w'.conn.sender.nextSeqno = w'.conn.sender.stream.bytesWritten + 2 := by
    rw [hs.next_eq, hsyn, hfin, ByteStream.bytesRead_of_buffer_nil hbuf, Bool.toNat_true]
    omega
  have hack : w'.conn.sender.ackno = w'.conn.sender.stream.bytesWritten + 2 :=
    (hs.outstanding_eq_nil.mp hidle).symm.trans hnext
  refine ⟨hin, heof, ⟨hfin, hnext⟩, ⟨hidle, ?_⟩, ?_⟩
  · rw [← hack]
    exact hinv.acked.resolve_left (by omega)
  · rcases hlinger with hlinger | htime
    · exact Or.inl (hinv.linger hlinger)
    · rw [hinv.cfg_eq] at htime
      exact Or.inr (htime.trans hinv.time_le)

/-- A passive close: the peer's FIN arrives first, and then ours is acknowledged. -/
def passiveClose : List Op :=
  [.segmentReceived { header := { syn := true, seqno := ⟨100⟩, win := 9 } },
    .segmentReceived
      { header := { seqno := ⟨101⟩, ack := true, ackno := ⟨1⟩, win := 9, fin := true } },
    .endInputStream,
    .segmentReceived { header := { seqno := ⟨102⟩, ack := true, ackno := ⟨2⟩, win := 9 } }]

/-- The next tick closes the connection without lingering. -/
theorem clean_close_justified_passive :
    let w := StepSystem.run Watch.step (Watch.new { fixedIsn := some ⟨0⟩ } 0) passiveClose
    let w' := w.step (.tick 1)
    w'.conn.active = false ∧ w'.elapsed = 1 ∧ w'.conn.inboundStream.inputEnded = true := by
  intro w w'
  exact ⟨by decide +kernel, by decide +kernel, (clean_close_justified { fixedIsn := some ⟨0⟩ } 0
    passiveClose (.tick 1) w w' rfl rfl (by decide +kernel) (by decide +kernel)
    (by decide +kernel)).1⟩

end TCPConnection

end CourseNet
