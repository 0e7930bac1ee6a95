import CourseNet.ConnectionLog

/-!
# The sender's queue between calls

Every call of an active connection ends by moving the sender's queue to the log, so between calls an
active connection has nothing queued: what a call emits is what its sender queues during the call.
-/

namespace CourseNet

namespace TCPConnection

/-- An active connection has nothing queued. -/
def Drained (c : TCPConnection) : Prop := c.isActive = true → c.sender.segmentsOut = []

theorem step_drained {c : TCPConnection} (h : c.Drained) (op : Op) : (c.step op).Drained := by
  cases op with
  | connect => exact fun _ => rfl
  | write data =>
      show (c.write data).1.Drained
      rcases Bool.eq_false_or_eq_true c.isActive with ha | ha
      · rw [write_active ha]
        exact fun _ => rfl
      · rw [write_inactive ha]
        exact h
  | endInputStream => exact fun _ => rfl
  | segmentReceived seg =>
      show (c.segmentReceived seg).Drained
      rcases c.segmentReceived_cases seg with ⟨-, heq⟩ | ⟨-, -, heq⟩ | ⟨-, -, -, heq⟩ |
        ⟨-, -, -, heq⟩
      · rw [heq]
        exact h
      · rw [heq]
        exact fun hactive => absurd hactive (by simp [uncleanShutdown, setErrors])
      · rw [heq]
        exact h
      · rw [heq]
        exact fun _ => rfl
  | tick ms =>
      show (c.tick ms).Drained
      rcases c.tick_cases ms with ⟨-, heq⟩ | ⟨-, -, heq⟩ | ⟨-, -, heq⟩
      · rw [heq]
        exact h
      · rw [heq, uncleanShutdown_eq]
        exact fun hactive => absurd hactive (by simp [setErrors])
      · rw [heq]
        intro _
        rw [closeIfFinished_sender]
        rfl
  | readInbound len => exact h

theorem Reachable.drained {c : TCPConnection} (h : c.Reachable) : c.Drained := by
  obtain ⟨cfg, random, hrun⟩ := h
  exact hrun.invariant (P := Drained) (fun _ op hc => step_drained hc op) fun _ => rfl

/-- The RST of an abort is made from the front of the queue; the rest of the queue stays. -/
theorem uncleanShutdown_true_of_cons {c : TCPConnection} {seg : TCPSegment} {rest : List TCPSegment}
    (h : c.sender.segmentsOut ++ [c.sender.blankSegment] = seg :: rest) :
    (c.uncleanShutdown true).sender.segmentsOut = rest ∧
      (c.uncleanShutdown true).segmentsOut = c.segmentsOut ++
        [{ seg with header := { seg.header with ack := false, rst := true } }] := by
  have hqueue : c.setErrors.sender.sendEmptySegment.segmentsOut = seg :: rest := h
  unfold uncleanShutdown
  rw [if_pos rfl]
  dsimp only
  split
  · rename_i hnil
    exact absurd (hnil.symm.trans hqueue) (by simp)
  · rename_i seg' rest' hcons
    obtain ⟨rfl, rfl⟩ := List.cons.inj (hcons.symm.trans hqueue)
    exact ⟨rfl, rfl⟩

end TCPConnection

end CourseNet
