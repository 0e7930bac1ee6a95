import CourseNet.SenderInvariant
import CourseNet.StepSystem

/-!
# The sender and the right edge of the window

The window is `_ackno + _window_size`, and `ack_received` takes the window of every acceptable ACK
but the acknowledgment number of the newest only.  An outdated ACK with a large window therefore
opens a window that no ACK advertised.  In every run without such an ACK the sender stays within
the largest right edge advertised.
-/

namespace CourseNet

namespace TCPSender

/-- The calls of a run. -/
inductive Op
  | write (data : Bytes)
  | endInput
  | fillWindow
  | tick (ms : ℕ)
  | ackReceived (ackno : WrappingInt32) (windowSize : UInt16)

/-- A sender with the largest right edge that the ACKs so far advertised. -/
structure Run where
  sender : TCPSender
  edge : ℕ

/-- The right edge an ACK advertises: a window of zero counts as one. -/
def advertisedEdge (absoluteAckno : ℕ) (windowSize : UInt16) : ℕ :=
  absoluteAckno + max windowSize.toNat 1

def Run.new (capacity : ℕ) (retxTimeout : UInt16) (fixedIsn : Option WrappingInt32)
    (random : UInt32) : Run := ⟨TCPSender.new capacity retxTimeout fixedIsn random, 1⟩

def Run.step (r : Run) : Op → Run
  | .write data =>
      { r with sender := { r.sender with stream := (r.sender.stream.write data).1 } }
  | .endInput => { r with sender := { r.sender with stream := r.sender.stream.endInput } }
  | .fillWindow => { r with sender := r.sender.fillWindow }
  | .tick ms => { r with sender := r.sender.tick ms }
  | .ackReceived ackno windowSize =>
      { sender := r.sender.ackReceived ackno windowSize
        edge := if r.sender.absoluteAckno ackno ≤ r.sender.nextSeqno then
            max r.edge (advertisedEdge (r.sender.absoluteAckno ackno) windowSize)
          else r.edge }

/-- An outdated ACK carries no window that reaches, counted from the highest acknowledged number,
past the largest right edge advertised. -/
def Run.Harmless (r : Run) : Op → Prop
  | .ackReceived ackno windowSize =>
      r.sender.absoluteAckno ackno < r.sender.ackno →
        advertisedEdge r.sender.ackno windowSize ≤ r.edge
  | _ => True

instance (r : Run) : DecidablePred r.Harmless
  | .write _ | .endInput | .fillWindow | .tick _ => isTrue trivial
  | .ackReceived _ _ => inferInstanceAs (Decidable (_ → _))

theorem windowRight_eq (s : TCPSender) : s.windowRight = advertisedEdge s.ackno s.windowSize := by
  unfold windowRight effectiveWindow advertisedEdge
  split
  · rename_i hzero
    rw [hzero]
    rfl
  · rename_i hne
    have hpos : s.windowSize.toNat ≠ 0 := fun h => hne (UInt16.toNat_inj.mp h)
    omega

/-- The next sequence number and the window itself lie within the edge. -/
def Run.Within (r : Run) : Prop := r.sender.nextSeqno ≤ r.edge ∧ r.sender.windowRight ≤ r.edge

theorem fillWindow_within {s : TCPSender} {edge : ℕ} (hnext : s.nextSeqno ≤ edge)
    (hright : s.windowRight ≤ edge) :
    s.fillWindow.nextSeqno ≤ edge ∧ s.fillWindow.windowRight ≤ edge :=
  ⟨s.fillWindow_next_le.trans (max_le hnext hright), s.fillWindow_windowRight.trans_le hright⟩

theorem Run.Within.step {r : Run} (h : r.Within) {op : Op} (hop : r.Harmless op) :
    (r.step op).Within := by
  cases op with
  | write data => exact h
  | endInput => exact h
  | fillWindow => exact fillWindow_within h.1 h.2
  | tick ms =>
      have hframe := r.sender.tick_frame ms
      refine ⟨hframe.nextSeqno.trans_le h.1, ?_⟩
      rw [windowRight_eq]
      show advertisedEdge (r.sender.tick ms).ackno (r.sender.tick ms).windowSize ≤ r.edge
      rw [hframe.ackno, hframe.windowSize, ← windowRight_eq]
      exact h.2
  | ackReceived ackno windowSize =>
      have hop : r.sender.absoluteAckno ackno < r.sender.ackno →
        advertisedEdge r.sender.ackno windowSize ≤ r.edge := hop
      unfold Run.Within Run.step
      rcases r.sender.ackReceived_cases ackno windowSize with ⟨hlt, heq⟩ | ⟨hle, heq⟩
      · dsimp only
        rw [heq, if_neg (not_le.mpr hlt)]
        exact h
      · dsimp only
        rw [heq, if_pos hle]
        generalize r.sender.absoluteAckno ackno = a at hop
        have hframe := r.sender.noteAck_frame a windowSize
        have hright : (r.sender.noteAck a windowSize).windowRight ≤
            max r.edge (advertisedEdge a windowSize) := by
          rw [windowRight_eq, hframe.ackno, hframe.windowSize]
          rcases Nat.lt_or_ge a r.sender.ackno with hold | hnew
          · rw [max_eq_left hold.le]
            exact (hop hold).trans (le_max_left _ _)
          · rw [max_eq_right hnew]
            exact le_max_right _ _
        obtain ⟨hnext', hright'⟩ :=
          fillWindow_within (hframe.nextSeqno.trans_le (h.1.trans (le_max_left _ _))) hright
        rw [stopTimer_eq]
        exact ⟨hnext', hright'⟩

/-- **The sender stays within the advertised window.**  In every run in which no outdated ACK
carries a window that would reach past the largest right edge advertised, the next sequence number
never passes that edge. -/
theorem run_within_window (capacity : ℕ) (retxTimeout : UInt16) (fixedIsn : Option WrappingInt32)
    (random : UInt32) (ops : List Op)
    (h : StepSystem.Guarded Run.step Run.Harmless (Run.new capacity retxTimeout fixedIsn random)
      ops) :
    let r := StepSystem.run Run.step (Run.new capacity retxTimeout fixedIsn random) ops
    r.sender.nextSeqno ≤ r.edge :=
  (h.invariant (P := Run.Within) (fun _ _ hop hs => hs.step hop)
    ⟨Nat.zero_le _, show 0 + 1 ≤ 1 from le_refl _⟩).1

/-- Ten bytes through a window of five, then a repeated old ACK with the same window. -/
theorem run_within_window_repeat :
    let ops := [.fillWindow, .ackReceived ⟨1⟩ 5, .write [1, 2, 3, 4, 5, 6, 7, 8, 9, 10],
      .fillWindow, .ackReceived ⟨3⟩ 5, .ackReceived ⟨1⟩ 5]
    let r := StepSystem.run Run.step (Run.new 64 1000 (some ⟨0⟩) 0) ops
    r.sender.nextSeqno ≤ r.edge :=
  run_within_window 64 1000 (some ⟨0⟩) 0 [.fillWindow, .ackReceived ⟨1⟩ 5,
    .write [1, 2, 3, 4, 5, 6, 7, 8, 9, 10], .fillWindow, .ackReceived ⟨3⟩ 5, .ackReceived ⟨1⟩ 5]
    (by decide +kernel)

/-- The window shrinks as it advances, from `[1, 6)` to `[6, 7)`; an outdated ACK of the first
window then opens `[6, 11)`, although no ACK advertised an edge past 7. -/
theorem run_beyond_window :
    let ops := [.fillWindow, .ackReceived ⟨1⟩ 5, .write [1, 2, 3, 4, 5, 6, 7, 8, 9, 10],
      .fillWindow, .ackReceived ⟨6⟩ 1, .ackReceived ⟨1⟩ 5]
    let r := StepSystem.run Run.step (Run.new 64 1000 (some ⟨0⟩) 0) ops
    r.edge = 7 ∧ r.sender.nextSeqno = 11 ∧ ¬r.sender.nextSeqno ≤ r.edge := by
  decide +kernel

end TCPSender

end CourseNet
