import CourseNet.SenderInvariant
import CourseNet.TCPConnection

/-!
# What a connection does to its sender

Every call of a connection changes its sender by a sequence of a few moves, apart from `write` and
`end_input_stream`, which change the stream and then fill the window.  So an invariant of the sender
is shown for one move at a time (`Reachable.sender_invariant`).
-/

namespace CourseNet

/-- One change that a connection makes to its sender. -/
inductive SenderMove (s : TCPSender) : TCPSender → Prop
  | ackReceived (ackno : WrappingInt32) (w : UInt16) : SenderMove s (s.ackReceived ackno w)
  | fillWindow : SenderMove s s.fillWindow
  | sendEmptySegment : SenderMove s s.sendEmptySegment
  | tick (ms : ℕ) : SenderMove s (s.tick ms)
  | setError : SenderMove s { s with stream := s.stream.setError }
  | dequeue (q : List TCPSegment) (hq : ∀ seg ∈ q, seg ∈ s.segmentsOut) :
      SenderMove s { s with segmentsOut := q }

/-- A sequence of moves. -/
abbrev SenderMoves : TCPSender → TCPSender → Prop := Relation.ReflTransGen SenderMove

namespace SenderMoves

variable {s t : TCPSender}

theorem invariant {P : TCPSender → Prop} (hmove : ∀ s t, SenderMove s t → P s → P t)
    (h : SenderMoves s t) (hs : P s) : P t := by
  induction h with
  | refl => exact hs
  | tail _ hlast ih => exact hmove _ _ hlast ih

theorem clear (h : SenderMoves s t) : SenderMoves s { t with segmentsOut := [] } :=
  h.tail (SenderMove.dequeue [] fun _ he => absurd he List.not_mem_nil)

end SenderMoves

namespace TCPConnection

/-! ### The phases

Each phase of `segment_received` and `tick` changes one part of the connection. -/

theorem acknowledge_eq (c : TCPConnection) (seg : TCPSegment) :
    c.acknowledge seg = { c with sender := (c.acknowledge seg).sender } := by
  unfold acknowledge
  split <;> rfl

theorem noteInboundEnd_eq (c : TCPConnection) :
    c.noteInboundEnd =
      { c with
          lingerAfterStreamsFinish := c.lingerAfterStreamsFinish &&
            !(c.receiver.streamOut.inputEnded && !c.sender.stream.eof) } := by
  unfold noteInboundEnd
  split
  · rename_i h
    rw [h, Bool.not_true, Bool.and_false]
  · rename_i h
    rw [Bool.eq_false_iff.mpr h, Bool.not_false, Bool.and_true]

theorem reply_eq (c : TCPConnection) (seg : TCPSegment) :
    c.reply seg = { c with sender := (c.reply seg).sender } := by
  unfold reply
  split <;> rfl

theorem closeIfFinished_eq (c : TCPConnection) :
    c.closeIfFinished = { c with isActive := c.closeIfFinished.isActive } := by
  unfold closeIfFinished
  split
  · split
    · rfl
    · split <;> rfl
  · rfl

theorem uncleanShutdown_eq (c : TCPConnection) (sendRst : Bool) :
    c.uncleanShutdown sendRst =
      { c.setErrors with
          sender := { c.setErrors.sender with
            segmentsOut := (c.uncleanShutdown sendRst).sender.segmentsOut }
          segmentsOut := (c.uncleanShutdown sendRst).segmentsOut } := by
  unfold uncleanShutdown
  dsimp only
  split
  · split <;> rfl
  · rfl

@[simp] theorem noteInboundEnd_sender (c : TCPConnection) : c.noteInboundEnd.sender = c.sender := by
  rw [noteInboundEnd_eq]

@[simp] theorem noteInboundEnd_receiver (c : TCPConnection) :
    c.noteInboundEnd.receiver = c.receiver := by
  rw [noteInboundEnd_eq]

@[simp] theorem closeIfFinished_sender (c : TCPConnection) :
    c.closeIfFinished.sender = c.sender := by
  rw [closeIfFinished_eq]

@[simp] theorem acknowledge_receiver (c : TCPConnection) (seg : TCPSegment) :
    (c.acknowledge seg).receiver = c.receiver := by
  rw [acknowledge_eq]

@[simp] theorem acknowledge_segmentsOut (c : TCPConnection) (seg : TCPSegment) :
    (c.acknowledge seg).segmentsOut = c.segmentsOut := by
  rw [acknowledge_eq]

@[simp] theorem noteInboundEnd_segmentsOut (c : TCPConnection) :
    c.noteInboundEnd.segmentsOut = c.segmentsOut := by
  rw [noteInboundEnd_eq]

@[simp] theorem reply_segmentsOut (c : TCPConnection) (seg : TCPSegment) :
    (c.reply seg).segmentsOut = c.segmentsOut := by
  rw [reply_eq]

/-! ### The moves of a phase -/

theorem acknowledge_moves (c : TCPConnection) (seg : TCPSegment) :
    SenderMoves c.sender (c.acknowledge seg).sender := by
  unfold acknowledge
  split
  · exact Relation.ReflTransGen.single (SenderMove.ackReceived _ _)
  · exact Relation.ReflTransGen.refl

theorem reply_moves (c : TCPConnection) (seg : TCPSegment) :
    SenderMoves c.sender (c.reply seg).sender := by
  unfold reply
  split
  · have hfill : SenderMoves c.sender c.sender.fillWindow :=
      Relation.ReflTransGen.single SenderMove.fillWindow
    dsimp only
    split
    · exact hfill.tail SenderMove.sendEmptySegment
    · exact hfill
  · exact Relation.ReflTransGen.refl

theorem uncleanShutdown_moves (c : TCPConnection) (sendRst : Bool) :
    SenderMoves c.sender (c.uncleanShutdown sendRst).sender := by
  have herror : SenderMoves c.sender c.setErrors.sender :=
    Relation.ReflTransGen.single SenderMove.setError
  unfold uncleanShutdown
  dsimp only
  split
  · have hempty := herror.tail SenderMove.sendEmptySegment
    split
    · exact hempty
    · rename_i seg rest hq
      refine hempty.tail (SenderMove.dequeue rest fun seg' hseg => ?_)
      rw [hq]
      exact List.mem_cons_of_mem _ hseg
  · exact herror

/-! ### The calls -/

/-- The state in which `segment_received` looks at the acknowledgment. -/
def received (c : TCPConnection) (seg : TCPSegment) : TCPConnection :=
  { c with
      timeSinceLastSegmentReceived := 0
      receiver := (c.receiver.segmentReceived seg).1 }

/-- The four ways `segment_received` goes. -/
theorem segmentReceived_cases (c : TCPConnection) (seg : TCPSegment) :
    (c.isActive = false ∧ c.segmentReceived seg = c) ∨
    (c.isActive = true ∧ seg.header.rst = true ∧
      c.segmentReceived seg =
        { c with timeSinceLastSegmentReceived := 0 }.uncleanShutdown false) ∨
    (c.isActive = true ∧ seg.header.rst = false ∧
      (c.receiver.segmentReceived seg).2 = .throws ∧ c.segmentReceived seg = c.received seg) ∨
    (c.isActive = true ∧ seg.header.rst = false ∧
      (c.receiver.segmentReceived seg).2 ≠ .throws ∧
      c.segmentReceived seg =
        ((((c.received seg).acknowledge seg).noteInboundEnd).reply seg).pushSegmentsOut) := by
  unfold segmentReceived
  rcases Bool.eq_false_or_eq_true c.isActive with hactive | hactive
  · rw [if_neg (by simp [hactive])]
    dsimp only
    rcases Bool.eq_false_or_eq_true seg.header.rst with hrst | hrst
    · exact Or.inr (Or.inl ⟨hactive, hrst, if_pos hrst⟩)
    · rw [if_neg (by simp [hrst])]
      by_cases hthrow : (c.receiver.segmentReceived seg).2 = .throws
      · exact Or.inr (Or.inr (Or.inl ⟨hactive, hrst, hthrow, if_pos (by simp [hthrow])⟩))
      · exact Or.inr (Or.inr (Or.inr ⟨hactive, hrst, hthrow, if_neg (by simpa using hthrow)⟩))
  · exact Or.inl ⟨hactive, by rw [if_pos (by simp [hactive])]⟩

theorem segmentReceived_moves (c : TCPConnection) (seg : TCPSegment) :
    SenderMoves c.sender (c.segmentReceived seg).sender := by
  rcases c.segmentReceived_cases seg with ⟨-, h⟩ | ⟨-, -, h⟩ | ⟨-, -, -, h⟩ | ⟨-, -, -, h⟩
  · rw [h]
  · rw [h]
    exact uncleanShutdown_moves _ false
  · rw [h]
    exact Relation.ReflTransGen.refl
  · rw [h]
    have hack := (c.received seg).acknowledge_moves seg
    have hreply := ((c.received seg).acknowledge seg).noteInboundEnd.reply_moves seg
    rw [noteInboundEnd_sender] at hreply
    exact SenderMoves.clear (hack.trans hreply)

/-- The state in which `tick` looks at the retransmission counter. -/
def ticked (c : TCPConnection) (ms : ℕ) : TCPConnection :=
  { c with
      timeSinceLastSegmentReceived := (c.timeSinceLastSegmentReceived + ms) % 2 ^ 64
      sender := c.sender.tick ms }

/-- The three ways `tick` goes. -/
theorem tick_cases (c : TCPConnection) (ms : ℕ) :
    (c.isActive = false ∧ c.tick ms = c) ∨
    (c.isActive = true ∧
      TCPConfig.maxRetxAttempts < (c.sender.tick ms).consecutiveRetransmissions ∧
      c.tick ms = (c.ticked ms).uncleanShutdown true) ∨
    (c.isActive = true ∧
      ¬TCPConfig.maxRetxAttempts < (c.sender.tick ms).consecutiveRetransmissions ∧
      c.tick ms = (c.ticked ms).pushSegmentsOut.closeIfFinished) := by
  unfold tick
  rcases Bool.eq_false_or_eq_true c.isActive with hactive | hactive
  · rw [if_neg (by simp [hactive])]
    dsimp only
    by_cases hmax : TCPConfig.maxRetxAttempts < (c.sender.tick ms).consecutiveRetransmissions
    · exact Or.inr (Or.inl ⟨hactive, hmax, if_pos hmax⟩)
    · exact Or.inr (Or.inr ⟨hactive, hmax, if_neg hmax⟩)
  · exact Or.inl ⟨hactive, by rw [if_pos (by simp [hactive])]⟩

theorem tick_moves (c : TCPConnection) (ms : ℕ) : SenderMoves c.sender (c.tick ms).sender := by
  have htick : SenderMoves c.sender (c.ticked ms).sender :=
    Relation.ReflTransGen.single (SenderMove.tick ms)
  rcases c.tick_cases ms with ⟨-, h⟩ | ⟨-, -, h⟩ | ⟨-, -, h⟩
  · rw [h]
  · rw [h]
    exact htick.trans (uncleanShutdown_moves _ true)
  · rw [h, closeIfFinished_sender]
    exact SenderMoves.clear htick

theorem connect_moves (c : TCPConnection) : SenderMoves c.sender c.connect.sender :=
  SenderMoves.clear (Relation.ReflTransGen.single SenderMove.fillWindow)

/-- `write` on an active connection. -/
theorem write_active {c : TCPConnection} (h : c.isActive = true) (data : Bytes) :
    c.write data =
      ({ c with sender :=
          { c.sender with stream := (c.sender.stream.write data).1 }.fillWindow }.pushSegmentsOut,
        (c.sender.stream.write data).2) := by
  unfold write
  rw [if_neg (by simp [h])]

theorem write_inactive {c : TCPConnection} (h : c.isActive = false) (data : Bytes) :
    c.write data = (c, 0) := by
  unfold write
  rw [if_pos (by simp [h])]

/-- The calls that do not touch the outbound stream. -/
def Op.Quiet : Op → Prop
  | .write _ | .endInputStream => False
  | _ => True

theorem step_moves (c : TCPConnection) {op : Op} (h : op.Quiet) :
    SenderMoves c.sender (c.step op).sender := by
  cases op with
  | connect => exact c.connect_moves
  | write data => exact absurd h id
  | endInputStream => exact absurd h id
  | segmentReceived seg => exact c.segmentReceived_moves seg
  | tick ms => exact c.tick_moves ms
  | readInbound len => exact Relation.ReflTransGen.refl

/-! ### Invariants of the sender -/

section SenderInvariant

variable {P : TCPSender → Prop}

/-- One call. -/
theorem step_sender_invariant (hmove : ∀ s t, SenderMove s t → P s → P t)
    (hwrite : ∀ (s : TCPSender) d, P s → P { s with stream := (s.stream.write d).1 }.fillWindow)
    (hend : ∀ s : TCPSender, P s → P { s with stream := s.stream.endInput }.fillWindow)
    (c : TCPConnection) (op : Op) (hc : P c.sender) : P (c.step op).sender := by
  have hclear : ∀ s : TCPSender, P s → P { s with segmentsOut := [] } := fun s hs =>
    hmove _ _ (SenderMove.dequeue [] fun _ he => absurd he List.not_mem_nil) hs
  by_cases hquiet : op.Quiet
  · exact (c.step_moves hquiet).invariant hmove hc
  · cases op with
    | write data =>
        show P (c.write data).1.sender
        rcases Bool.eq_false_or_eq_true c.isActive with h | h
        · rw [write_active h]
          exact hclear _ (hwrite _ data hc)
        · rw [write_inactive h]
          exact hc
    | endInputStream => exact hclear _ (hend _ hc)
    | connect | segmentReceived | tick | readInbound => exact absurd trivial hquiet

/-- Every reachable connection. -/
theorem Reachable.sender_invariant (hmove : ∀ s t, SenderMove s t → P s → P t)
    (hwrite : ∀ (s : TCPSender) d, P s → P { s with stream := (s.stream.write d).1 }.fillWindow)
    (hend : ∀ s : TCPSender, P s → P { s with stream := s.stream.endInput }.fillWindow)
    (hnew : ∀ capacity retxTimeout fixedIsn random,
      P (TCPSender.new capacity retxTimeout fixedIsn random))
    {c : TCPConnection} (h : c.Reachable) : P c.sender := by
  obtain ⟨cfg, random, hrun⟩ := h
  exact hrun.invariant (P := fun c => P c.sender)
    (step_sender_invariant hmove hwrite hend) (hnew _ _ _ _)

end SenderInvariant

end TCPConnection

/-! ### The sender's invariant in a connection -/

/-- A move keeps the sequence number base and the end of the input, and does not forget that the FIN
was sent. -/
theorem SenderMove.frame {s t : TCPSender} (h : SenderMove s t) : TCPSender.MoveFrame s t := by
  cases h with
  | ackReceived ackno w => exact s.ackReceived_frame ackno w
  | fillWindow =>
      have hframe := s.fillWindow_frame
      exact ⟨hframe.isn, hframe.inputEnded, hframe.finSent⟩
  | sendEmptySegment => exact ⟨rfl, rfl, id⟩
  | tick ms =>
      have hframe := s.tick_frame ms
      exact ⟨hframe.isn, congrArg (·.inputEnded) hframe.stream, hframe.finSent.trans⟩
  | setError => exact ⟨rfl, rfl, id⟩
  | dequeue q hq => exact ⟨rfl, rfl, id⟩

theorem SenderMove.sound {s t : TCPSender} (h : SenderMove s t) (hs : s.Sound) : t.Sound := by
  cases h with
  | ackReceived ackno w => exact hs.ackReceived ackno w
  | fillWindow => exact hs.fillWindow
  | sendEmptySegment => exact hs.sendEmptySegment
  | tick ms => exact hs.tick ms
  | setError => exact hs.setError
  | dequeue q hq => exact hs.setQueue q

theorem TCPConnection.step_sound {c : TCPConnection} (h : c.sender.Sound) (op : Op) :
    (c.step op).sender.Sound :=
  step_sender_invariant (fun _ _ hmove hs => hmove.sound hs) (fun _ d hs => (hs.write d).fillWindow)
    (fun _ hs => hs.endInput.fillWindow) c op h

theorem TCPConnection.Reachable.sound {c : TCPConnection} (h : c.Reachable) : c.sender.Sound := by
  obtain ⟨cfg, random, hrun⟩ := h
  exact hrun.invariant (P := fun c => c.sender.Sound) (fun _ op hc => step_sound hc op)
    (TCPSender.Sound.new _ _ _ _)

end CourseNet
