import CourseNet.ClosedWindow
import CourseNet.ConnectionQueue

/-!
# The reset of an abort

`_unclean_shutdown(true)` queues an empty segment and makes the RST from the front of the queue.  The
tick that makes the retransmission counter exceed its limit has just queued the first outstanding
segment again, so that segment becomes the RST, and the empty one stays queued.
-/

namespace CourseNet

namespace TCPConnection

/-- Both streams are in error, the connection has ended, one bare RST at the next sequence number was
appended, and the sender has nothing queued. -/
structure AbortsWithBareReset (c c' : TCPConnection) : Prop where
  outbound_error : c'.sender.stream.error = true
  inbound_error : c'.receiver.streamOut.error = true
  ended : c'.isActive = false
  emits : ∃ rst : TCPSegment, c.emittedSince c' = [rst] ∧ rst.header.rst = true ∧
    rst.header.ack = false ∧ rst.header.syn = false ∧ rst.header.fin = false ∧
    rst.payload = [] ∧ rst.header.seqno = wrap c'.sender.nextSeqno c'.sender.isn
  drained : c'.sender.segmentsOut = []

variable {c : TCPConnection} {ms : ℕ}

/-- An abort whatever the queue holds: the streams and the flag. -/
theorem tick_abort (hactive : c.isActive = true)
    (hmax : TCPConfig.maxRetxAttempts < (c.sender.tick ms).consecutiveRetransmissions) :
    c.tick ms = (c.ticked ms).uncleanShutdown true := by
  rcases c.tick_cases ms with ⟨hno, -⟩ | ⟨-, -, heq⟩ | ⟨-, hno, -⟩
  · exact absurd hactive (by simp [hno])
  · exact heq
  · exact absurd hmax hno

/-- A tick that retransmits leaves the retransmitted segment in front of the queue. -/
theorem abort_of_expires (h : c.Reachable) (hactive : c.isActive = true)
    (hmax : TCPConfig.maxRetxAttempts < (c.sender.tick ms).consecutiveRetransmissions)
    (hexp : c.sender.Expires ms) :
    ∃ e, c.sender.outstanding.head? = some e ∧
      c.emittedSince (c.tick ms) =
        [{ e.2 with header := { e.2.header with ack := false, rst := true } }] ∧
      (c.tick ms).sender.segmentsOut = [c.sender.blankSegment] := by
  rcases c.sender.tick_cases ms with ⟨-, e, hhead, heq⟩ | ⟨hno, -⟩
  · refine ⟨e, hhead, ?_⟩
    have hqueue : (c.ticked ms).sender.segmentsOut ++ [(c.ticked ms).sender.blankSegment] =
        [e.2, c.sender.blankSegment] := by
      show (c.sender.tick ms).segmentsOut ++ [(c.sender.tick ms).blankSegment] = _
      rw [heq, TCPSender.resent, h.drained hactive]
      rfl
    obtain ⟨hrest, hout⟩ := uncleanShutdown_true_of_cons hqueue
    rw [tick_abort hactive hmax, emittedSince, hout]
    exact ⟨List.drop_left, hrest⟩
  · exact absurd hexp hno

/-- **The abort.**  No tick that makes the retransmission counter exceed its limit appends a bare RST:
the segment appended is the first outstanding one, with SYN, FIN and payload as it has them and RST
set in place of ACK, and the empty segment meant for the RST stays in the sender's queue. -/
theorem abort_not_bare (h : c.Reachable) (hactive : c.isActive = true)
    (hbefore : ¬TCPConfig.maxRetxAttempts < c.sender.consecutiveRetransmissions)
    (hmax : TCPConfig.maxRetxAttempts < (c.sender.tick ms).consecutiveRetransmissions) :
    ¬AbortsWithBareReset c (c.tick ms) ∧
      ∃ e, c.sender.outstanding.head? = some e ∧
        c.emittedSince (c.tick ms) =
          [{ e.2 with header := { e.2.header with ack := false, rst := true } }] ∧
        (c.tick ms).sender.segmentsOut = [c.sender.blankSegment] := by
  have hexp : c.sender.Expires ms := by
    by_contra hno
    rcases c.sender.tick_cases ms with ⟨hyes, -⟩ | ⟨-, heq⟩
    · exact hno hyes
    · rw [heq] at hmax
      exact hbefore hmax
  obtain ⟨e, hhead, hout, hrest⟩ := abort_of_expires h hactive hmax hexp
  refine ⟨fun hbare => ?_, e, hhead, hout, hrest⟩
  have hnil := hbare.drained
  rw [hrest] at hnil
  exact absurd hnil (by simp)

/-- A connection whose SYN was retransmitted eight times. -/
def unanswered : TCPConnection :=
  StepSystem.run step (new { fixedIsn := some ⟨7⟩ } 0)
    (.connect :: (List.range 8).map fun i => .tick (1000 * 2 ^ i))

theorem unanswered_reachable : unanswered.Reachable := ⟨_, _, _, rfl⟩

/-- The ninth expiry of its timer. -/
theorem abort_not_bare_syn : ¬AbortsWithBareReset unanswered (unanswered.tick 256000) :=
  (abort_not_bare unanswered_reachable (by decide +kernel) (by decide +kernel)
    (by decide +kernel)).1

/-- The RST it sends is the SYN, at the initial sequence number, and an empty segment stays queued. -/
theorem abort_sends_syn :
    unanswered.isActive = true ∧ unanswered.sender.consecutiveRetransmissions = 8 ∧
      (unanswered.tick 256000).sender.consecutiveRetransmissions = 9 ∧
      (unanswered.emittedSince (unanswered.tick 256000)).map
        (fun seg => (seg.header.rst, seg.header.syn, seg.header.seqno)) = [(true, true, ⟨7⟩)] ∧
      wrap unanswered.sender.nextSeqno unanswered.sender.isn = ⟨8⟩ ∧
      (unanswered.tick 256000).sender.segmentsOut.length = 1 ∧
      ¬AbortsWithBareReset unanswered (unanswered.tick 256000) := by
  have hleft : (unanswered.tick 256000).sender.segmentsOut.length = 1 := by decide +kernel
  refine ⟨by decide +kernel, by decide +kernel, by decide +kernel, by decide +kernel,
    by decide +kernel, hleft, fun h => ?_⟩
  rw [h.drained] at hleft
  exact absurd hleft (by decide)

end TCPConnection

end CourseNet
