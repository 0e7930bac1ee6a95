import CourseNet.ConnectionLog

/-!
# Calls after the end of a connection

`write`, `tick` and `segment_received` check that the connection is active; `end_input_stream`
does not.  On a connection that has ended it still fills the window and flushes the sender's
queue.  Such a call is silent exactly when the queue is empty and the sender has nothing to send,
the FIN included.
-/

namespace CourseNet

namespace TCPConnection

/-- The queue is empty, and the window is full or everything up to the FIN has been sent. -/
def Spent (c : TCPConnection) : Prop :=
  c.sender.segmentsOut = [] ∧
    (c.sender.windowRight ≤ c.sender.nextSeqno ∨
      (c.sender.synSent = true ∧ c.sender.stream.buffer = [] ∧ c.sender.finSent = true))

/-- On a spent connection `end_input_stream` only notes the end of the input. -/
theorem endInputStream_of_spent {c : TCPConnection} (h : c.Spent) :
    c.endInputStream.segmentsOut = c.segmentsOut ∧ c.endInputStream.Spent := by
  have hfilled : { c.sender with stream := c.sender.stream.endInput }.Filled :=
    h.2.imp_right fun ⟨hsyn, hbuf, hfin⟩ => ⟨hsyn, hbuf, fun _ => hfin⟩
  unfold endInputStream
  rw [hfilled.fillWindow_eq]
  refine ⟨?_, rfl, h.2⟩
  show c.segmentsOut ++ c.sender.segmentsOut.map _ = c.segmentsOut
  rw [h.1, List.map_nil, List.append_nil]

/-- On any other it emits a segment. -/
theorem endInputStream_of_not_spent {c : TCPConnection} (h : ¬c.Spent) :
    c.segmentsOut.length < c.endInputStream.segmentsOut.length := by
  obtain ⟨sent, hsent⟩ :=
    { c.sender with stream := c.sender.stream.endInput }.fillWindow_segmentsOut
  have hlen : c.endInputStream.segmentsOut.length =
      c.segmentsOut.length + (c.sender.segmentsOut.length + sent.length) := by
    unfold endInputStream pushSegmentsOut
    simp only [List.length_append, List.length_map, hsent]
  suffices hpos : 0 < c.sender.segmentsOut.length + sent.length by omega
  by_contra hzero
  have hqueue : c.sender.segmentsOut = [] := List.length_eq_zero_iff.mp (by omega)
  have hnone : sent = [] := List.length_eq_zero_iff.mp (by omega)
  refine h ⟨hqueue, ?_⟩
  -- nothing was sent, so the window was filled already
  have hfilled := TCPSender.filled_of_silent
    (s := { c.sender with stream := c.sender.stream.endInput }) (by rw [hsent, hnone]; simp)
  exact hfilled.imp_right fun ⟨hsyn, hbuf, hfin⟩ => ⟨hsyn, hbuf, hfin rfl⟩

/-- **Silence after the end.**  For every connection that is no longer active and every sequence of
calls without `connect`: it stays inactive and emits nothing if and only if the sequence has no
`end_input_stream`, or the sender's queue is empty and there is nothing left that `end_input_stream`
could send. -/
theorem inactive_silent_iff (c : TCPConnection) (h : c.isActive = false) (ops : List Op)
    (hops : ∀ op ∈ ops, op ≠ .connect) :
    ((StepSystem.run step c ops).isActive = false ∧
      (StepSystem.run step c ops).segmentsOut = c.segmentsOut) ↔
      .endInputStream ∉ ops ∨ c.Spent := by
  induction ops generalizing c with
  | nil => exact iff_of_true ⟨h, rfl⟩ (Or.inl List.not_mem_nil)
  | cons op ops ih =>
      have hrest : ∀ o ∈ ops, o ≠ .connect := fun o ho => hops o (List.mem_cons_of_mem _ ho)
      rw [StepSystem.run_cons]
      by_cases hend : op = .endInputStream
      · rw [hend]
        by_cases hspent : c.Spent
        · obtain ⟨hout, hspent'⟩ := endInputStream_of_spent hspent
          have hsilent := (ih c.endInputStream h hrest).mpr (Or.inr hspent')
          rw [hout] at hsilent
          exact iff_of_true hsilent (Or.inr hspent)
        · refine iff_of_false (fun ⟨_, hout⟩ => ?_) ?_
          · have hgrow := (run_segmentsOut_grows c.endInputStream ops).length_le
            have hmore := endInputStream_of_not_spent hspent
            have hsame := congrArg List.length hout
            have hstep : c.step .endInputStream = c.endInputStream := rfl
            rw [hstep] at hsame
            omega
          · simp [hspent]
      · obtain ⟨hinactive, hsender, hout⟩ :=
          step_inactive h (hops op List.mem_cons_self) hend
        have hiff := ih (c.step op) hinactive hrest
        rw [hout] at hiff
        rw [hiff, Spent, hsender, List.mem_cons, not_or]
        exact or_congr_left (by simp [Ne.symm hend])

/-- After a reset: without `end_input_stream` nothing is emitted. -/
theorem inactive_silent_after_reset :
    let c := StepSystem.run step (new {} 0)
      [.connect, .segmentReceived { header := { rst := true } }]
    let c' := StepSystem.run step c [.write [1], .tick 1000, .segmentReceived {}]
    c'.isActive = false ∧ c'.segmentsOut = c.segmentsOut :=
  (inactive_silent_iff (StepSystem.run step (new {} 0)
      [.connect, .segmentReceived { header := { rst := true } }]) (by decide +kernel)
    [.write [1], .tick 1000, .segmentReceived {}] (by simp)).mpr (Or.inl (by simp))

/-- A handshake, a reset by the peer, and then the end of the local input: the FIN goes out on the
ended connection. -/
theorem inactive_sends_fin :
    let c := StepSystem.run step (new { fixedIsn := some ⟨0⟩ } 0)
      [.connect,
        .segmentReceived { header := { syn := true, ack := true, ackno := ⟨1⟩, win := 9 } },
        .segmentReceived { header := { rst := true } }]
    let c' := StepSystem.run step c [.endInputStream]
    c.isActive = false ∧ ¬(c'.isActive = false ∧ c'.segmentsOut = c.segmentsOut) ∧
      (c'.segmentsOut.drop c.segmentsOut.length).map (·.header.fin) = [true] := by
  decide +kernel

end TCPConnection

end CourseNet
