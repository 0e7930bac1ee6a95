import CourseNet.CloseWithoutLinger
import CourseNet.SocketNetwork

/-!
# The end of a socket

`_tcp_loop` ends when there is nothing left to poll.  If that is because no rule is interested any
more, the connection has ended, its segments were handed to the adapter and its inbound stream to the
owner's pair; and if it ended without an error, both streams are complete.
-/

namespace CourseNet

namespace TCPThread

variable {α δ ω : Type} [FdAdapter α δ ω]

/-- What a rule that is not interested leaves undone: nothing. -/
def Idle : RuleName → TCPThread α → Prop
  | .datagramIn, s => s.tcp.conn.active = false
  | .pipeIn, _ => True
  | .pipeOut, s => s.tcp.conn.inboundStream.buffer = [] ∧
      (s.tcp.conn.inboundStream.Over → s.inboundShutdown = true)
  | .datagramOut, s => s.segmentsOut = []

theorem idle_of_interest (k : RuleName) (s : TCPThread α) (_ : (rule k).finished s = false)
    (h : (rule k).interest s = false) : s.Idle k := by
  cases k with
  | datagramIn => exact h
  | pipeIn => trivial
  | pipeOut =>
      simp only [rule, Bool.or_eq_false_iff, Bool.not_eq_false', Bool.and_eq_false_iff,
        ByteStream.bufferEmpty, List.isEmpty_iff] at h
      refine ⟨h.1, fun hover => ?_⟩
      rcases h.2 with hopen | hshut
      · exact absurd hover (by simp [ByteStream.Over, hopen])
      · exact hshut
  | datagramOut =>
      have h : (!s.segmentsOut.isEmpty) = false := h
      rwa [Bool.not_eq_false', List.isEmpty_iff] at h

/-- The rules as they were added. -/
def ruleNames : List RuleName := [.datagramIn, .pipeIn, .pipeOut, .datagramOut]

/-- A cancel does not wake a rule before it. -/
theorem idle_cancel : ruleNames.Pairwise fun k j =>
    ∀ s : TCPThread α, s.Idle k → ((rule j).cancel s).Idle k := by
  simp only [ruleNames, List.pairwise_cons, List.mem_cons, List.not_mem_nil, or_false,
    forall_eq_or_imp, forall_eq, List.Pairwise.nil, and_true, IsEmpty.forall_iff, implies_true]
  exact ⟨⟨fun _ h => h, fun _ h => h, fun _ h => h⟩, ⟨fun _ h => h, fun _ h => h⟩, fun _ h => h⟩

end TCPThread

namespace TCPSpongeSocket

open TCPThread (RuleName Input)

variable {α δ ω : Type} [FdAdapter α δ ω]

/-- No poll of the step was interrupted by a signal. -/
def Op.Uninterrupted : Op δ → Prop
  | .turn answer _ => answer ≠ .interrupted
  | .write _ | .shutdownWrite | .read _ | .abort => True

/-- A socket that has finished by itself has no rule left with something to do. -/
structure Drains (s : TCPSpongeSocket α) : Prop where
  rules : List.Sublist s.eventloop.rules TCPThread.ruleNames
  idle : s.phase = .finished → s.abort = false → ∀ k ∈ s.eventloop.rules, s.thread.Idle k

theorem Drains.tcpLoop {s : TCPSpongeSocket α} (h : s.Drains) (hphase : s.phase ≠ .finished)
    {answer : EventLoop.Poll RuleName (Input δ)} (hanswer : answer ≠ .interrupted) (ms : ℕ)
    (after : Phase) : (s.tcpLoop answer ms after).Drains := by
  have hnodup : s.eventloop.rules.Nodup := (show TCPThread.ruleNames.Nodup by decide).sublist h.rules
  obtain ⟨calls, -, hwait⟩ := EventLoop.waitNextEvent_phase TCPThread.rule hnodup answer
  have hrules := hwait.sublist.trans h.rules
  have hexit := EventLoop.waitNextEvent_exit TCPThread.idle_of_interest
    (TCPThread.idle_cancel.sublist h.rules) answer
  unfold TCPSpongeSocket.tcpLoop
  generalize EventLoop.waitNextEvent TCPThread.rule s.eventloop answer = r at hrules hexit
  obtain ⟨l, result⟩ := r
  have hgoes : (if s.abort then { s with eventloop := l, phase := after }
      else if l.state.tcp.conn.active then
        { s with eventloop := { l with state := l.state.tick ms } }
      else { s with eventloop := l }).Drains := by
    split
    · rename_i habort
      exact ⟨hrules, fun _ hno => absurd hno (by simp [habort])⟩
    · split
      · exact ⟨hrules, fun hfinished => absurd hfinished hphase⟩
      · exact ⟨hrules, fun hfinished => absurd hfinished hphase⟩
  cases result with
  | throws error => exact ⟨hrules, nofun⟩
  | exit => exact ⟨hrules, fun _ _ => (hexit rfl).resolve_left hanswer⟩
  | success => exact hgoes
  | timeout => exact hgoes

theorem Drains.closeOwner {s : TCPSpongeSocket α} (h : s.Drains) : s.closeOwner.Drains := by
  unfold TCPSpongeSocket.closeOwner
  split
  · refine ⟨h.rules, fun hphase habort k hk => ?_⟩
    have hidle := h.idle hphase habort k hk
    cases k <;> exact hidle
  · exact h

/-- Nothing but a turn matters. -/
theorem Drains.step {s : TCPSpongeSocket α} (h : s.Drains) {op : Op δ} (hop : op.Uninterrupted) :
    (s.step op).Drains := by
  have hpair : ∀ pair : SocketPair, (s.withThread { s.thread with pair := pair }).Drains := by
    refine fun pair => ⟨h.rules, fun hphase habort k hk => ?_⟩
    have hidle := h.idle hphase habort k hk
    cases k <;> exact hidle
  cases op with
  | turn answer ms =>
      show (s.turn answer ms).Drains
      unfold turn
      split
      · rename_i hphase
        split
        · exact h.tcpLoop (by simp [hphase]) hop ms _
        · exact ⟨h.rules, nofun⟩
      · rename_i hphase
        exact (h.tcpLoop (by simp [hphase]) hop ms _).closeOwner
      · exact h
      · exact h
  | write data => exact hpair _
  | shutdownWrite => exact hpair _
  | read n => exact hpair _
  | abort => exact ⟨h.rules, fun _ hno => absurd hno (by simp [TCPSpongeSocket.step])⟩

end TCPSpongeSocket

/-- The end of the stream is acknowledged only after the end has been seen. -/
theorem TCPReceiver.Follows.ended_of_acknowledged {S popped : Bytes} {E : Prop}
    {isn : WrappingInt32} {r : TCPReceiver} (h : r.Follows S E isn popped)
    (hall : S.length + 2 ≤ r.acknowledged) : r.streamOut.inputEnded = true := by
  have hwritten := h.written_le
  unfold acknowledged at hall
  split at hall
  · rw [r.absoluteAckno_eq] at hall
    have hlast : (r.finReceived && r.streamOut.inputEnded).toNat ≠ 0 := by omega
    rw [ne_eq, Bool.toNat_eq_zero, Bool.not_eq_false, Bool.and_eq_true] at hlast
    exact hlast.2
  · omega

namespace SocketNetwork

variable {α δ ω : Type} [FdAdapter α δ ω]

/-- The loop has ended by itself: nobody aborted it, and the rules for the network and for the inbound
stream were never cancelled. -/
def Completed (s : TCPSpongeSocket α) : Prop :=
  s.phase = .finished ∧ s.abort = false ∧
    ∀ k ∈ [TCPThread.RuleName.datagramIn, .pipeOut, .datagramOut], k ∈ s.eventloop.rules

instance (s : TCPSpongeSocket α) : Decidable (Completed s) := inferInstanceAs (Decidable (_ ∧ _))

/-- Everything that either owner wrote has arrived at the other socket. -/
structure Complete (x y : TCPSpongeSocket α) : Prop where
  state : x.thread.tcp.conn.state = TCPState.ofState .closed
  closed : x.thread.pair.ownerClosed = true ∧ y.thread.pair.ownerClosed = true
  inbound : x.thread.pair.ownerRead ++ x.thread.pair.toOwner = y.thread.pair.ownerWrote
  outbound : y.thread.pair.ownerRead ++ y.thread.pair.toOwner ++
    y.thread.tcp.conn.inboundStream.buffer = x.thread.pair.ownerWrote
  ended : y.thread.tcp.conn.inboundStream.inputEnded = true

variable [LawfulFdAdapter α]

theorem completed_direction {x y : TCPSpongeSocket α} (hx : x.Accounts) (hy : y.Accounts)
    (hxy : Lane x.thread.tcp y.thread.tcp) (hyx : Lane y.thread.tcp x.thread.tcp)
    (hdrains : x.Drains) (hcompleted : Completed x) :
    x.thread.tcp.conn.active = false ∧ x.thread.segmentsOut = [] ∧
      x.thread.tcp.conn.inboundStream.buffer = [] ∧
      (x.thread.tcp.conn.sender.stream.error = false → Complete x y) := by
  obtain ⟨hphase, habort, hrules⟩ := hcompleted
  have hidle := fun k hk => hdrains.idle hphase habort k (hrules k hk)
  have hended : x.thread.tcp.conn.active = false := hidle .datagramIn (by decide)
  have hempty : x.thread.tcp.conn.inboundStream.buffer = [] := (hidle .pipeOut (by decide)).1
  refine ⟨hended, hidle .datagramOut (by decide), hempty, fun herror => ?_⟩
  have hcharted := hx.ledger.charted
  have hsender := (hcharted.closed hended).resolve_left (by simp [herror])
  have hover := (hcharted.received hended).resolve_left (by simp [herror])
  -- what `y` wrote
  obtain ⟨hclosed, hdelivered⟩ := hyx.link.integrity.2 hover
  obtain ⟨hyclosed, hywrote⟩ := hy.ledger.books.ended hclosed
  -- what `x` wrote: its FIN is acknowledged
  have hfin := hxy.link.carries.fin_sent hsender.finSent_eq
  obtain ⟨hxclosed, hxwrote⟩ := hx.ledger.books.ended (hxy.link.ended.symm.trans hfin.1)
  have hacked : x.thread.tcp.accepted.length + 2 ≤ y.thread.tcp.conn.receiver.acknowledged := by
    have hnext := hxy.link.carries.next_of_finSent hsender.finSent_eq
    have hackno := hsender.outstanding_eq_nil.mp hsender.outstanding_nil
    have hle := hxy.acks.acked_le
    omega
  have hyended := hxy.link.follows.ended_of_acknowledged hacked
  obtain ⟨-, houtbound⟩ := hxy.link.integrity.2 hyended
  refine ⟨?_, ⟨hxclosed, hyclosed⟩, ?_, ?_, hyended⟩
  · rw [TCPConnection.state_of_inactive hcharted hended, herror]
    rfl
  · rw [Endpoint.delivered, hempty, List.append_nil, hx.ledger.books.popped] at hdelivered
    exact hdelivered.trans hywrote
  · rw [Endpoint.delivered, hy.ledger.books.popped] at houtbound
    exact houtbound.trans hxwrote

theorem run_drains {a b : TCPSpongeSocket α} (ha : a.Opened) (hb : b.Opened)
    {is : List (Side × TCPSpongeSocket.Op δ)} (h : ∀ i ∈ is, i.2.Uninterrupted) :
    (StepSystem.run step ⟨a, b⟩ is).a.Drains ∧ (StepSystem.run step ⟨a, b⟩ is).b.Drains := by
  have hopened : ∀ {s : TCPSpongeSocket α}, s.Opened → s.Drains := fun hs => by
    cases hs with
    | connect hunused heq =>
        rw [TCPSpongeSocket.connect_eq, Option.some.injEq] at heq
        subst heq
        exact ⟨List.Sublist.refl _, nofun⟩
    | listenAndAccept hunused => exact ⟨List.Sublist.refl _, nofun⟩
  have hrun : ∀ (n : SocketNetwork α), n.a.Drains ∧ n.b.Drains →
      (StepSystem.run step n is).a.Drains ∧ (StepSystem.run step n is).b.Drains := by
    induction is with
    | nil => exact fun n hn => hn
    | cons i is ih =>
        intro n hn
        refine ih (fun j hj => h j (List.mem_cons_of_mem _ hj)) (n.step i) ?_
        have hi := h i List.mem_cons_self
        obtain ⟨side, op⟩ := i
        cases side with
        | a => exact ⟨hn.1.step hi, hn.2⟩
        | b => exact ⟨hn.1, hn.2.step hi⟩
  exact hrun ⟨a, b⟩ ⟨hopened ha, hopened hb⟩

/-- **A clean close is complete.**  Over every run of two sockets whose owners write fewer than
`2 ^ 31 - 2` bytes each and whose polls are not interrupted: when the loop of a socket has ended by
itself, its connection has ended, all its segments went to the adapter and all of its inbound stream
to the pair; and if there was no error, the state is CLOSED, both owners have closed, and everything
that either of them wrote has arrived at the other socket. -/
theorem clean_close_complete {a b : TCPSpongeSocket α} (ha : a.Opened) (hb : b.Opened)
    (is : List (Side × TCPSpongeSocket.Op δ)) (h : StepSystem.Guarded step Allowed ⟨a, b⟩ is)
    (hsteady : ∀ i ∈ is, i.2.Uninterrupted) (hsmall : (StepSystem.run step ⟨a, b⟩ is).Small) :
    let n := StepSystem.run step ⟨a, b⟩ is
    (Completed n.a → n.a.thread.tcp.conn.active = false ∧ n.a.thread.segmentsOut = [] ∧
      n.a.thread.tcp.conn.inboundStream.buffer = [] ∧
      (n.a.thread.tcp.conn.sender.stream.error = false → Complete n.a n.b)) ∧
    (Completed n.b → n.b.thread.tcp.conn.active = false ∧ n.b.thread.segmentsOut = [] ∧
      n.b.thread.tcp.conn.inboundStream.buffer = [] ∧
      (n.b.thread.tcp.conn.sender.stream.error = false → Complete n.b n.a)) := by
  obtain ⟨cfgA, cfgB, randomA, randomB, js, hjs, hmatches⟩ := run_matches ha hb h
  obtain ⟨hxy, hyx⟩ := Network.lanes hjs (hmatches.small hsmall)
  rw [← hmatches.connections] at hxy hyx
  obtain ⟨hdrainsA, hdrainsB⟩ := run_drains ha hb hsteady
  exact ⟨completed_direction hmatches.a hmatches.b hxy hyx hdrainsA,
    completed_direction hmatches.b hmatches.a hyx hxy hdrainsB⟩

/-- After the transfer the server's owner closes too, and the last acknowledgment lets its loop end. -/
def udpClose : List (Side × TCPSpongeSocket.Op ReceivedDatagram) :=
  udpTransfer ++
  [(.b, .shutdownWrite),
    (.b, readyWithout [.pipeIn, .datagramOut] ⟨1, 10⟩),
    (.a, ready [.datagramIn] ⟨2, 20⟩
      [0, 20, 0, 10, 0, 0, 0, 101, 0, 0, 0, 3, 80, 17, 250, 0, 181, 103, 0, 0] (by decide)),
    (.a, readyWithout [.datagramOut] ⟨2, 20⟩),
    (.b, ready [.datagramIn] ⟨1, 10⟩
      [0, 10, 0, 20, 0, 0, 0, 3, 0, 0, 0, 102, 80, 16, 250, 0, 181, 103, 0, 0] (by decide)),
    (.b, .turn .timeout 10)]

theorem clean_close_complete_server :
    let n := StepSystem.run step overUdp udpClose
    n.b.thread.tcp.conn.state = TCPState.ofState .closed ∧
      n.a.thread.pair.ownerRead ++ n.a.thread.pair.toOwner ++
        n.a.thread.tcp.conn.inboundStream.buffer = n.b.thread.pair.ownerWrote := by
  have hcomplete := ((clean_close_complete overUdp_opened.1 overUdp_opened.2 udpClose
    (by decide +kernel) (by simp [udpClose, udpTransfer, readyWithout, ready,
      TCPSpongeSocket.Op.Uninterrupted])
    ⟨by decide +kernel, by decide +kernel⟩).2 (by decide +kernel)).2.2.2 (by decide +kernel)
  exact ⟨hcomplete.state, hcomplete.outbound⟩

end SocketNetwork

end CourseNet
