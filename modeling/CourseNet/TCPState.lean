import CourseNet.TCPConnection

/-!
# The official states

`TCPState` of `tcp_state.cc` summarises a connection by what its sender and its receiver show, and
two flags of its own; each of the official states is one such summary.
-/

namespace CourseNet

/-- `TCPReceiverStateSummary`. -/
inductive TCPReceiverStateSummary
  | error | listen | synRecv | finRecv
deriving DecidableEq, Repr

/-- `TCPSenderStateSummary`. -/
inductive TCPSenderStateSummary
  | error | closed | synSent | synAcked | finSent | finAcked
deriving DecidableEq, Repr

structure TCPState where
  sender : TCPSenderStateSummary
  receiver : TCPReceiverStateSummary
  active : Bool := true
  lingerAfterStreamsFinish : Bool := true
deriving DecidableEq, Repr

/-- `TCPState::State`, the names of the RFC. -/
inductive TCPState.State
  | listen | synRcvd | synSent | established | closeWait | lastAck | finWait1 | finWait2 | closing
  | timeWait | closed | reset
deriving DecidableEq, Repr

/-- `state_summary` of a receiver. -/
def TCPReceiver.stateSummary (r : TCPReceiver) : TCPReceiverStateSummary :=
  if r.streamOut.error then .error
  else if r.ackno.isNone then .listen
  else if r.streamOut.inputEnded then .finRecv
  else .synRecv

/-- `state_summary` of a sender. -/
def TCPSender.stateSummary (s : TCPSender) : TCPSenderStateSummary :=
  if s.stream.error then .error
  else if s.nextSeqno = 0 then .closed
  else if s.nextSeqno = s.bytesInFlight then .synSent
  else if !s.stream.eof then .synAcked
  else if s.nextSeqno < s.stream.bytesWritten + 2 then .synAcked
  else if s.bytesInFlight ≠ 0 then .finSent
  else .finAcked

namespace TCPState

/-- The constructor from a state's name. -/
def ofState : State → TCPState
  | .listen => { receiver := .listen, sender := .closed }
  | .synRcvd => { receiver := .synRecv, sender := .synSent }
  | .synSent => { receiver := .listen, sender := .synSent }
  | .established => { receiver := .synRecv, sender := .synAcked }
  | .closeWait => { receiver := .finRecv, sender := .synAcked, lingerAfterStreamsFinish := false }
  | .lastAck => { receiver := .finRecv, sender := .finSent, lingerAfterStreamsFinish := false }
  | .closing => { receiver := .finRecv, sender := .finSent }
  | .finWait1 => { receiver := .synRecv, sender := .finSent }
  | .finWait2 => { receiver := .synRecv, sender := .finAcked }
  | .timeWait => { receiver := .finRecv, sender := .finAcked }
  | .reset =>
      { receiver := .error, sender := .error, lingerAfterStreamsFinish := false, active := false }
  | .closed =>
      { receiver := .finRecv, sender := .finAcked, lingerAfterStreamsFinish := false,
        active := false }

/-- The constructor from the parts of a connection. -/
def ofParts (sender : TCPSender) (receiver : TCPReceiver) (active linger : Bool) : TCPState where
  sender := sender.stateSummary
  receiver := receiver.stateSummary
  active := active
  lingerAfterStreamsFinish := if active then linger else false

end TCPState

/-- `state()`. -/
def TCPConnection.state (c : TCPConnection) : TCPState :=
  TCPState.ofParts c.sender c.receiver c.active c.lingerAfterStreamsFinish

/-- In LISTEN nothing has been sent and nothing has been accepted. -/
theorem TCPConnection.state_listen_iff (c : TCPConnection) :
    c.state = TCPState.ofState .listen ↔
      (c.sender.stream.error = false ∧ c.sender.nextSeqno = 0) ∧
      (c.receiver.streamOut.error = false ∧ c.receiver.isn = none) ∧
      c.isActive = true ∧ c.lingerAfterStreamsFinish = true := by
  have hsender : c.sender.stateSummary = .closed ↔
      c.sender.stream.error = false ∧ c.sender.nextSeqno = 0 := by
    unfold TCPSender.stateSummary
    split_ifs <;> simp_all
  have hreceiver : c.receiver.stateSummary = .listen ↔
      c.receiver.streamOut.error = false ∧ c.receiver.isn = none := by
    unfold TCPReceiver.stateSummary TCPReceiver.ackno
    split_ifs <;> simp_all
  rw [← hsender, ← hreceiver]
  show TCPState.ofParts _ _ _ _ = _ ↔ _
  rw [TCPState.ofParts, TCPState.ofState, TCPState.mk.injEq, active]
  refine and_congr_right fun _ => and_congr_right fun _ => and_congr_right fun hactive => ?_
  rw [hactive, if_pos rfl]

end CourseNet
