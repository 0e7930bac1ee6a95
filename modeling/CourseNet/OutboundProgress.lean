import CourseNet.ConnectionSender
import CourseNet.SenderWindow

/-!
# No silent stall of the outbound stream

Between the calls of a connection its sender has filled the window, and the retransmission timer
guards everything that is not yet acknowledged.
-/

namespace CourseNet

namespace TCPSender

/-- What holds of a sender between the calls of its connection. -/
structure Settled (s : TCPSender) : Prop extends s.Sound where
  tight : s.Tight
  filled : s.synSent = true ∨ s.stream.inputEnded = true → s.Filled

theorem Settled.new (capacity : ℕ) (retxTimeout : UInt16) (fixedIsn : Option WrappingInt32)
    (random : UInt32) : (TCPSender.new capacity retxTimeout fixedIsn random).Settled :=
  ⟨Sound.new _ _ _ _, Tight.new _ _ _ _,
    fun h => absurd h (by simp [TCPSender.new, ByteStream.new])⟩

/-- `Filled` and `Tight` speak of these fields only. -/
theorem Settled.congr {s t : TCPSender} (h : s.Settled) (ht : t.Sound)
    (hsyn : t.synSent = s.synSent) (hfin : t.finSent = s.finSent)
    (hbuf : t.stream.buffer = s.stream.buffer)
    (hended : t.stream.inputEnded = s.stream.inputEnded)
    (hnext : t.nextSeqno = s.nextSeqno) (hright : t.windowRight = s.windowRight)
    (hrun : t.timerRunning = s.timerRunning) (hout : t.outstanding = s.outstanding) :
    t.Settled := by
  refine ⟨ht, ?_, ?_⟩
  · unfold Tight
    rw [hrun, hout]
    exact h.tight
  · unfold Filled Done
    rw [hsyn, hfin, hbuf, hended, hnext, hright]
    exact h.filled

/-- A settled sender whose input has ended and that has nothing outstanding has sent its FIN. -/
theorem Settled.finSent_of_idle {s : TCPSender} (h : s.Settled)
    (hended : s.stream.inputEnded = true) (hidle : s.outstanding = []) : s.finSent = true := by
  rcases h.filled (Or.inr hended) with hfull | ⟨-, -, hfin⟩
  · have heq := h.outstanding_eq_nil.mp hidle
    rw [windowRight_eq, advertisedEdge] at hfull
    omega
  · exact hfin hended

theorem Settled.fillWindow {s : TCPSender} (h : s.Sound) (ht : s.Tight) : s.fillWindow.Settled :=
  ⟨h.fillWindow, ht.fillWindow h, fun _ => s.fillWindow_filled⟩

theorem Filled.stopTimer {s : TCPSender} (h : s.Filled) : s.stopTimer.Filled := by
  unfold TCPSender.stopTimer
  split <;> exact h

theorem Settled.ackReceived {s : TCPSender} (h : s.Settled) (ackno : WrappingInt32) (w : UInt16) :
    (s.ackReceived ackno w).Settled := by
  refine ⟨h.toSound.ackReceived ackno w, h.tight.ackReceived ackno w, ?_⟩
  rcases s.ackReceived_cases ackno w with ⟨-, heq⟩ | ⟨-, heq⟩
  · rw [heq]
    exact h.filled
  · rw [heq]
    exact fun _ => ((s.noteAck _ w).fillWindow_filled).stopTimer

end TCPSender

theorem SenderMove.settled {s t : TCPSender} (h : SenderMove s t) (hs : s.Settled) :
    t.Settled := by
  have ht := h.sound hs.toSound
  cases h with
  | ackReceived ackno w => exact hs.ackReceived ackno w
  | fillWindow => exact TCPSender.Settled.fillWindow hs.toSound hs.tight
  | sendEmptySegment => exact hs.congr ht rfl rfl rfl rfl rfl rfl rfl rfl
  | tick ms =>
      have hframe := s.tick_frame ms
      refine hs.congr ht hframe.synSent hframe.finSent (congrArg (·.buffer) hframe.stream)
        (congrArg (·.inputEnded) hframe.stream) hframe.nextSeqno ?_ hframe.timerRunning
        hframe.outstanding
      unfold TCPSender.windowRight TCPSender.effectiveWindow
      rw [hframe.ackno, hframe.windowSize]
  | setError => exact hs.congr ht rfl rfl rfl rfl rfl rfl rfl rfl
  | dequeue q hq => exact hs.congr ht rfl rfl rfl rfl rfl rfl rfl rfl

namespace TCPConnection

theorem step_settled {c : TCPConnection} (h : c.sender.Settled) (op : Op) :
    (c.step op).sender.Settled := by
  refine step_sender_invariant (fun _ _ hmove hs => hmove.settled hs) ?_ ?_ c op h
  · exact fun _ d hs => TCPSender.Settled.fillWindow (hs.toSound.write d) hs.tight
  · exact fun _ hs => TCPSender.Settled.fillWindow hs.toSound.endInput hs.tight

/-- The sender of every reachable connection is settled. -/
theorem Reachable.settled {c : TCPConnection} (h : c.Reachable) : c.sender.Settled := by
  obtain ⟨cfg, random, hrun⟩ := h
  exact hrun.invariant (P := fun c => c.sender.Settled) (fun _ op hc => step_settled hc op)
    (TCPSender.Settled.new _ _ _ _)

/-- **No silent stall.**  Once the SYN of a reachable connection has been sent, the window is full
or nothing is left to send; outstanding segments are empty exactly when everything sent is
acknowledged; the timer runs exactly when some segment is outstanding; and so, as long as an
accepted byte or a due FIN is unacknowledged, a segment is outstanding and the timer runs. -/
theorem reachable_no_stall {c : TCPConnection} (h : c.Reachable) (hsyn : c.sender.synSent = true) :
    (c.sender.ackno + max c.sender.windowSize.toNat 1 ≤ c.sender.nextSeqno ∨
      (c.sender.stream.buffer = [] ∧
        (c.sender.stream.inputEnded = true → c.sender.finSent = true))) ∧
    (c.sender.outstanding = [] ↔ c.sender.nextSeqno = c.sender.ackno) ∧
    (c.sender.timerRunning = true ↔ c.sender.outstanding ≠ []) ∧
    (c.sender.ackno < c.sender.stream.bytesWritten + 1 ∨
      (c.sender.stream.inputEnded = true ∧ c.sender.ackno < c.sender.stream.bytesWritten + 2) →
      c.sender.outstanding ≠ [] ∧ c.sender.timerRunning = true) := by
  have hs := h.settled
  have hfilled : c.sender.windowRight ≤ c.sender.nextSeqno ∨ c.sender.Done :=
    hs.filled (Or.inl hsyn)
  refine ⟨?_, hs.outstanding_eq_nil, ⟨hs.tight, hs.running⟩, fun hunacked => ?_⟩
  · rw [← TCPSender.advertisedEdge, ← TCPSender.windowRight_eq]
    exact hfilled.imp_right And.right
  · suffices hne : c.sender.outstanding ≠ [] from ⟨hne, hs.running hne⟩
    intro hnil
    have heq := hs.outstanding_eq_nil.mp hnil
    rcases hfilled with hfull | ⟨-, hbuf, hfin⟩
    · -- an effective window is never empty
      rw [TCPSender.windowRight_eq, TCPSender.advertisedEdge] at hfull
      omega
    · have hnext := hs.next_eq
      rw [hsyn, ByteStream.bytesRead_of_buffer_nil hbuf, Bool.toNat_true] at hnext
      rcases hunacked with hdata | ⟨hended, hdata⟩
      · omega
      · rw [hfin hended, Bool.toNat_true] at hnext
        omega

/-- Three bytes written before the handshake ends: the SYN is outstanding and timed. -/
theorem reachable_no_stall_connect :
    let c := StepSystem.run step (new {} 7) [.connect, .write [1, 2, 3]]
    c.sender.outstanding ≠ [] ∧ c.sender.timerRunning = true :=
  (reachable_no_stall (c := StepSystem.run step (new {} 7) [.connect, .write [1, 2, 3]])
    ⟨{}, 7, _, rfl⟩ (by decide +kernel)).2.2.2 (Or.inl (by decide +kernel))

end TCPConnection

end CourseNet
