import CourseNet.ConnectionFrame

/-!
# What a connection emits

`segmentsOut` only grows, and a call appends only what its sender queued on the way, stamped by the
receiver as the call leaves it, or a RST without ACK.
-/

namespace CourseNet

namespace TCPConnection

/-- What a call that leaves `c'` may append, given a sender state `s` on its way. -/
structure Emits (c c' : TCPConnection) (s : TCPSender) : Prop where
  isn : c'.sender.isn = s.isn
  finSent : c'.sender.finSent = s.finSent
  nextSeqno : c'.sender.nextSeqno = s.nextSeqno
  segments : ∀ seg ∈ c'.segmentsOut, seg ∈ c.segmentsOut ∨
    (seg.header.rst = true ∧ seg.header.ack = false) ∨ ∃ q ∈ s.segmentsOut, seg = c'.stamp q

/-- What `c'` adds to the log of `c`, given a sender state `s` on the way. -/
def Appends (c c' : TCPConnection) (s : TCPSender) : Prop :=
  ∃ sent, c'.segmentsOut = c.segmentsOut ++ sent ∧ ∀ seg ∈ sent,
    (seg.header.rst = true ∧ seg.header.ack = false) ∨ ∃ q ∈ s.segmentsOut, seg = c'.stamp q

theorem Appends.of_eq {c c' : TCPConnection} {s : TCPSender} (h : c'.segmentsOut = c.segmentsOut) :
    Appends c c' s :=
  ⟨[], by rw [h, List.append_nil], fun _ hseg => absurd hseg List.not_mem_nil⟩

theorem appends_pushSegmentsOut {c d : TCPConnection} (h : d.segmentsOut = c.segmentsOut) :
    Appends c d.pushSegmentsOut d.sender := by
  refine ⟨d.sender.segmentsOut.map d.pushSegmentsOut.stamp, ?_, fun seg hseg => ?_⟩
  · rw [← h]
    rfl
  · obtain ⟨q, hq, rfl⟩ := List.mem_map.mp hseg
    exact Or.inr ⟨q, hq, rfl⟩

theorem Appends.grows {c c' : TCPConnection} {s : TCPSender} (h : Appends c c' s) :
    c.segmentsOut <+: c'.segmentsOut := by
  obtain ⟨sent, hout, -⟩ := h
  rw [hout]
  exact List.prefix_append _ _

theorem Appends.emits {c c' : TCPConnection} {s : TCPSender} (h : Appends c c' s)
    (hisn : c'.sender.isn = s.isn) (hfin : c'.sender.finSent = s.finSent)
    (hnext : c'.sender.nextSeqno = s.nextSeqno) : Emits c c' s := by
  obtain ⟨sent, hout, hstamped⟩ := h
  refine ⟨hisn, hfin, hnext, fun seg hseg => ?_⟩
  rw [hout] at hseg
  rcases List.mem_append.mp hseg with hold | hnew
  · exact Or.inl hold
  · exact Or.inr (hstamped seg hnew)

/-- `_unclean_shutdown(true)` appends one RST, made from the front of the queue. -/
theorem uncleanShutdown_true_segmentsOut (c : TCPConnection) :
    ∃ q : TCPSegment, (c.uncleanShutdown true).segmentsOut =
      c.segmentsOut ++ [{ q with header := { q.header with ack := false, rst := true } }] := by
  unfold uncleanShutdown
  rw [if_pos rfl]
  dsimp only
  split
  · rename_i hq
    exact absurd hq (by simp [TCPSender.sendEmptySegment])
  · rename_i seg rest hq
    exact ⟨seg, rfl⟩

/-! ### The calls -/

/-- The call takes the sender to `s` by moves, and then appends what `s` has queued. -/
structure SendsFrom (c c' : TCPConnection) (s : TCPSender) : Prop where
  moves : SenderMoves c.sender s
  isn : c'.sender.isn = s.isn
  finSent : c'.sender.finSent = s.finSent
  nextSeqno : c'.sender.nextSeqno = s.nextSeqno
  appends : Appends c c' s

theorem SendsFrom.of_eq {c c' : TCPConnection} (hisn : c'.sender.isn = c.sender.isn)
    (hfin : c'.sender.finSent = c.sender.finSent)
    (hnext : c'.sender.nextSeqno = c.sender.nextSeqno) (h : c'.segmentsOut = c.segmentsOut) :
    SendsFrom c c' c.sender :=
  ⟨Relation.ReflTransGen.refl, hisn, hfin, hnext, Appends.of_eq h⟩

theorem segmentReceived_sends (c : TCPConnection) (seg : TCPSegment) :
    ∃ s, SendsFrom c (c.segmentReceived seg) s := by
  rcases c.segmentReceived_cases seg with ⟨-, h⟩ | ⟨-, -, h⟩ | ⟨-, -, -, h⟩ | ⟨-, -, -, h⟩
  · exact ⟨c.sender, by rw [h]; exact SendsFrom.of_eq rfl rfl rfl rfl⟩
  · exact ⟨c.sender, by rw [h]; exact SendsFrom.of_eq rfl rfl rfl rfl⟩
  · exact ⟨c.sender, by rw [h]; exact SendsFrom.of_eq rfl rfl rfl rfl⟩
  · have hack := (c.received seg).acknowledge_moves seg
    have hreply := ((c.received seg).acknowledge seg).noteInboundEnd.reply_moves seg
    rw [noteInboundEnd_sender] at hreply
    rw [h]
    exact ⟨_, hack.trans hreply, rfl, rfl, rfl, appends_pushSegmentsOut (by simp [received])⟩

theorem tick_sends (c : TCPConnection) (ms : ℕ) : ∃ s, SendsFrom c (c.tick ms) s := by
  have htick : SenderMoves c.sender (c.ticked ms).sender :=
    Relation.ReflTransGen.single (SenderMove.tick ms)
  rcases c.tick_cases ms with ⟨-, h⟩ | ⟨-, -, h⟩ | ⟨-, -, h⟩
  · exact ⟨c.sender, by rw [h]; exact SendsFrom.of_eq rfl rfl rfl rfl⟩
  · obtain ⟨q, hout⟩ := (c.ticked ms).uncleanShutdown_true_segmentsOut
    refine ⟨_, htick, ?_, ?_, ?_, _, by rw [h]; exact hout, fun seg hseg => ?_⟩
    · rw [h, uncleanShutdown_eq]
      rfl
    · rw [h, uncleanShutdown_eq]
      rfl
    · rw [h, uncleanShutdown_eq]
      rfl
    · rw [List.mem_singleton.mp hseg]
      exact Or.inl ⟨rfl, rfl⟩
  · have hpush : Appends c (c.ticked ms).pushSegmentsOut (c.ticked ms).sender :=
      appends_pushSegmentsOut (d := c.ticked ms) rfl
    rw [h, closeIfFinished_eq]
    exact ⟨_, htick, rfl, rfl, rfl, hpush⟩

/-- A call that does not touch the outbound stream. -/
theorem step_sends (c : TCPConnection) {op : Op} (h : op.Quiet) :
    ∃ s, SendsFrom c (c.step op) s := by
  cases op with
  | connect =>
      exact ⟨_, Relation.ReflTransGen.single SenderMove.fillWindow, rfl, rfl, rfl,
        appends_pushSegmentsOut (d := { c with sender := c.sender.fillWindow, isActive := true })
          rfl⟩
  | write data => exact absurd h id
  | endInputStream => exact absurd h id
  | segmentReceived seg => exact c.segmentReceived_sends seg
  | tick ms => exact c.tick_sends ms
  | readInbound len => exact ⟨c.sender, SendsFrom.of_eq rfl rfl rfl rfl⟩

theorem step_emits (c : TCPConnection) {op : Op} (h : op.Quiet) :
    ∃ s, SenderMoves c.sender s ∧ Emits c (c.step op) s := by
  obtain ⟨s, hs⟩ := c.step_sends h
  exact ⟨s, hs.moves, hs.appends.emits hs.isn hs.finSent hs.nextSeqno⟩

theorem write_appends {c : TCPConnection} (h : c.isActive = true) (data : Bytes) :
    Appends c (c.write data).1
      { c.sender with stream := (c.sender.stream.write data).1 }.fillWindow := by
  rw [write_active h]
  exact appends_pushSegmentsOut (c := c) rfl

theorem write_emits {c : TCPConnection} (h : c.isActive = true) (data : Bytes) :
    Emits c (c.write data).1
      { c.sender with stream := (c.sender.stream.write data).1 }.fillWindow :=
  (write_appends h data).emits (by rw [write_active h]; rfl) (by rw [write_active h]; rfl)
    (by rw [write_active h]; rfl)

theorem endInputStream_appends (c : TCPConnection) :
    Appends c c.endInputStream { c.sender with stream := c.sender.stream.endInput }.fillWindow :=
  appends_pushSegmentsOut (c := c) rfl

theorem endInputStream_emits (c : TCPConnection) :
    Emits c c.endInputStream { c.sender with stream := c.sender.stream.endInput }.fillWindow :=
  c.endInputStream_appends.emits rfl rfl rfl

/-- Every call appends what a sender state on its way has queued, so an invariant of the sender tells
what the new segments are. -/
theorem step_appends {P : TCPSender → Prop} (hmove : ∀ s t, SenderMove s t → P s → P t)
    (hwrite : ∀ (s : TCPSender) d, P s → P { s with stream := (s.stream.write d).1 }.fillWindow)
    (hend : ∀ s : TCPSender, P s → P { s with stream := s.stream.endInput }.fillWindow)
    (c : TCPConnection) (op : Op) (hc : P c.sender) : ∃ s, P s ∧ Appends c (c.step op) s := by
  by_cases hquiet : op.Quiet
  · obtain ⟨s, hs⟩ := c.step_sends hquiet
    exact ⟨s, hs.moves.invariant hmove hc, hs.appends⟩
  · cases op with
    | write data =>
        show ∃ s, P s ∧ Appends c (c.write data).1 s
        rcases Bool.eq_false_or_eq_true c.isActive with h | h
        · exact ⟨_, hwrite _ data hc, write_appends h data⟩
        · rw [write_inactive h]
          exact ⟨c.sender, hc, Appends.of_eq rfl⟩
    | endInputStream => exact ⟨_, hend _ hc, c.endInputStream_appends⟩
    | connect | segmentReceived | tick | readInbound => exact absurd trivial hquiet

/-! ### The log -/

/-- No call removes a segment. -/
theorem step_segmentsOut_grows (c : TCPConnection) (op : Op) :
    c.segmentsOut <+: (c.step op).segmentsOut := by
  obtain ⟨s, -, happends⟩ := step_appends (P := fun _ => True) (fun _ _ _ _ => trivial)
    (fun _ _ _ => trivial) (fun _ _ => trivial) c op trivial
  exact happends.grows

theorem run_segmentsOut_grows (c : TCPConnection) (ops : List Op) :
    c.segmentsOut <+: (StepSystem.run step c ops).segmentsOut := by
  refine StepSystem.run_rel (R := fun c c' => c.segmentsOut <+: c'.segmentsOut)
    (fun _ => List.prefix_refl _) ?_ step_segmentsOut_grows c ops
  exact fun h k => List.IsPrefix.trans h k

end TCPConnection

end CourseNet
