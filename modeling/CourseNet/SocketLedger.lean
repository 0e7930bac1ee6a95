import CourseNet.AdapterLaws
import CourseNet.StateProgress
import CourseNet.StreamHistory
import CourseNet.TCPSpongeSocket

/-!
# The books of a socket

Between the pair of stream sockets and the connection no byte is lost, doubled or reordered by a rule
of `TCPSpongeSocket`: what the owner wrote is what the connection accepted and what still waits in the
pair, and what the connection gave out is what the owner read and what still waits.  Each rule keeps
these books or throws, and only a few things can make it throw.
-/

namespace CourseNet

/-! ### Calls of a connection -/

namespace Endpoint

variable {peer x y : Endpoint}

/-- A call of a connection that is already set up, by a network that forges nothing. -/
inductive Call (peer x : Endpoint) : Endpoint → Prop
  | step {op : TCPConnection.Op} (hop : peer.Authentic op) (hconnect : op ≠ .connect) :
      Call peer x (x.step op)

/-- Such calls, one after the other. -/
abbrev Calls (peer : Endpoint) : Endpoint → Endpoint → Prop := Relation.ReflTransGen (Call peer)

/-- The last of them was the arrival of a segment, and left by the exception of the receiver. -/
def Threw (peer x y : Endpoint) : Prop :=
  ∃ z, Calls peer x z ∧ ∃ seg ∈ peer.conn.segmentsOut,
    z.conn.segmentReceivedThrows seg = true ∧ y = z.step (.segmentReceived seg)

theorem step_inputEnded (h : x.conn.sender.stream.inputEnded = x.ended) (op : TCPConnection.Op) :
    (x.step op).conn.sender.stream.inputEnded = (x.step op).ended := by
  by_cases hquiet : op.Quiet
  · have hsame : (x.step op).ended = x.ended := by
      cases op with
      | write data | endInputStream => exact absurd hquiet id
      | connect | segmentReceived | tick | readInbound => rfl
    rw [hsame]
    exact (x.conn.step_moves hquiet).invariant (P := fun s => s.stream.inputEnded = x.ended)
      (fun _ _ hmove hs => hmove.frame.inputEnded.trans hs) h
  · cases op with
    | write data =>
        show (x.conn.write data).1.sender.stream.inputEnded = x.ended
        rcases Bool.eq_false_or_eq_true x.conn.isActive with hactive | hactive
        · rw [TCPConnection.write_active hactive]
          exact (TCPSender.fillWindow_frame _).inputEnded.trans
            ((ByteStream.write_inputEnded _ _).trans h)
        · rw [TCPConnection.write_inactive hactive]
          exact h
    | endInputStream => exact (TCPSender.fillWindow_frame _).inputEnded
    | connect | segmentReceived | tick | readInbound => exact absurd trivial hquiet

end Endpoint

/-- The inbound stream has ended and was read, or it has failed. -/
def ByteStream.Over (b : ByteStream) : Prop := b.eof = true ∨ b.error = true

theorem ByteStream.Over.step {b : ByteStream} (h : b.Over) (op : ByteStream.Op) :
    (b.step op).Over := by
  refine h.imp (fun heof => ByteStream.eof_step heof op) fun herror => ?_
  cases op with
  | write data => exact (b.write_error data).trans herror
  | setError => rfl
  | peekOutput len | popOutput len | read len | endInput => exact herror

/-- No call opens it again. -/
theorem TCPConnection.step_over {c : TCPConnection} (h : c.inboundStream.Over) (op : Op) :
    (c.step op).inboundStream.Over := by
  unfold inboundStream at h ⊢
  rcases c.step_receiver op with ⟨len, -, hr⟩ | ⟨-, hr | hr | ⟨seg, -, -, -, hr⟩⟩
  · rw [hr]
    exact h.step (.read len)
  · rw [hr]
    exact h
  · rw [hr]
    exact h.step .setError
  · rw [hr]
    rcases c.receiver.segmentReceived_cases seg with ⟨i, heq⟩ | heq
    · rw [heq]
      exact StreamReassembler.pushSubstring_output (P := ByteStream.Over)
        (fun b d hb => hb.step (.write d)) (fun b hb => hb.step .endInput) h _ _ _
    · rw [heq]
      exact h

theorem TCPConnection.write_le (c : TCPConnection) (data : Bytes) :
    (c.write data).2 ≤ data.length := by
  rcases Bool.eq_false_or_eq_true c.isActive with hactive | hactive
  · rw [write_active hactive]
    exact ByteStream.write_snd_le_length _ _
  · rw [write_inactive hactive]
    exact Nat.zero_le _

/-- An open connection accepts what fits. -/
theorem TCPConnection.write_open {c : TCPConnection} (hactive : c.isActive = true)
    (hended : c.sender.stream.inputEnded = false) (herror : c.sender.stream.error = false)
    {data : Bytes} (hdata : data.length ≤ c.remainingOutboundCapacity) :
    (c.write data).2 = data.length := by
  rw [write_active hactive, ByteStream.write_snd, hended, herror]
  exact min_eq_left hdata

/-! ### The pair -/

namespace SocketPair

variable {p : SocketPair} {x : Endpoint}

/-- What a successful read returns. -/
structure Received (p : SocketPair) (limit : ℕ) (q : SocketPair) (got : Bytes) : Prop where
  split : p.toThread = got ++ q.toThread
  size : got.length ≤ min FileDescriptor.bufferSize limit
  eof : 0 < limit → got = [] → p.toThread = [] ∧ p.ownerClosed = true
  rest : q = { p with toThread := q.toThread }

theorem recv_received {limit n : ℕ} {q : SocketPair} {got : Bytes}
    (h : p.recv limit n = some (q, got)) : p.Received limit q got := by
  unfold recv at h
  dsimp only at h
  split at h
  · cases h
  · rename_i hread
    generalize hk : min (min FileDescriptor.bufferSize limit) n = k at h hread
    cases h
    refine ⟨?_, ?_, fun hlimit hnil => ?_, rfl⟩
    · exact (List.prefix_iff_eq_append.mp (List.take_prefix k p.toThread)).symm
    · exact (List.length_take_le _ _).trans (hk ▸ min_le_left _ _)
    · rw [hnil] at hread
      simpa [hlimit] using hread

/-- The accounts of the pair with the connection. -/
structure Ledger (p : SocketPair) (x : Endpoint) : Prop where
  accepted : x.accepted <+: p.ownerWrote
  ended : x.ended = true → p.ownerClosed = true ∧ x.accepted = p.ownerWrote
  popped : x.popped = p.ownerRead ++ p.toOwner

/-- What was not accepted yet is in the pair. -/
structure Balanced (p : SocketPair) (x : Endpoint) : Prop where
  pending : x.accepted ++ p.toThread = p.ownerWrote
  ended : x.ended = true → p.ownerClosed = true ∧ p.toThread = []
  popped : x.popped = p.ownerRead ++ p.toOwner

theorem Balanced.ledger (h : p.Balanced x) : p.Ledger x := by
  refine ⟨h.pending ▸ List.prefix_append _ _, fun hended => ?_, h.popped⟩
  obtain ⟨hclosed, hnil⟩ := h.ended hended
  refine ⟨hclosed, ?_⟩
  rw [← h.pending, hnil, List.append_nil]

/-- The owner's calls. -/
theorem Ledger.write (h : p.Ledger x) (data : Bytes) : (p.write data).Ledger x := by
  unfold SocketPair.write
  split
  · exact h
  · rename_i hopen
    exact ⟨h.accepted.trans (List.prefix_append _ _), fun hended =>
      absurd (h.ended hended).1 hopen, h.popped⟩

theorem Ledger.read (h : p.Ledger x) (n : ℕ) : (p.read n).Ledger x :=
  ⟨h.accepted, h.ended, by
    rw [h.popped]
    simp only [SocketPair.read, List.append_assoc, List.take_append_drop]⟩

theorem Ledger.close (h : p.Ledger x) (threadClosed : Bool) :
    { p with ownerClosed := true, threadClosed := threadClosed }.Ledger x :=
  ⟨h.accepted, fun hended => ⟨rfl, (h.ended hended).2⟩, h.popped⟩

theorem Balanced.write (h : p.Balanced x) (data : Bytes) : (p.write data).Balanced x := by
  unfold SocketPair.write
  split
  · exact h
  · rename_i hopen
    refine ⟨?_, fun hended => absurd (h.ended hended).1 hopen, h.popped⟩
    dsimp only
    rw [← List.append_assoc, h.pending]

theorem Balanced.read (h : p.Balanced x) (n : ℕ) : (p.read n).Balanced x :=
  ⟨h.pending, h.ended, by
    rw [h.popped]
    simp only [SocketPair.read, List.append_assoc, List.take_append_drop]⟩

theorem Balanced.close (h : p.Balanced x) (threadClosed : Bool) :
    { p with ownerClosed := true, threadClosed := threadClosed }.Balanced x :=
  ⟨h.pending, fun hended => ⟨rfl, (h.ended hended).2⟩, h.popped⟩

/-- A call of the connection that touches neither end of the pair. -/
theorem Balanced.internal (h : p.Balanced x) {op : TCPConnection.Op}
    (hop : (∃ seg, op = .segmentReceived seg) ∨ ∃ ms, op = .tick ms) :
    p.Balanced (x.step op) := by
  rcases hop with ⟨seg, rfl⟩ | ⟨ms, rfl⟩
  · exact ⟨h.pending, h.ended, h.popped⟩
  · exact ⟨h.pending, h.ended, h.popped⟩

/-- The end of the input, when the owner has closed and nothing is left. -/
theorem Balanced.endInput (h : p.Balanced x) (hclosed : p.ownerClosed = true)
    (hnil : p.toThread = []) : p.Balanced (x.step .endInputStream) :=
  ⟨h.pending, fun _ => ⟨hclosed, hnil⟩, h.popped⟩

/-- What was read is written, in part or as a whole. -/
theorem Balanced.recv (h : p.Balanced x) {limit : ℕ} {q : SocketPair} {got : Bytes}
    (hrecv : p.Received limit q got) :
    ((x.conn.write got).2 = got.length → q.Balanced (x.step (.write got))) ∧
      q.Ledger (x.step (.write got)) := by
  have hpending := h.pending
  have hended : x.ended = true → q.ownerClosed = true ∧ got = [] ∧ q.toThread = [] := by
    intro hend
    obtain ⟨hclosed, hnil⟩ := h.ended hend
    rw [hrecv.split, List.append_eq_nil_iff] at hnil
    rw [hrecv.rest]
    exact ⟨hclosed, hnil⟩
  have haccepted : (x.step (.write got)).accepted = x.accepted ++ got.take (x.conn.write got).2 :=
    rfl
  have hwrote : q.ownerWrote = x.accepted ++ (got ++ q.toThread) := by
    rw [← hrecv.split, hpending, hrecv.rest]
  have hpopped : (x.step (.write got)).popped = q.ownerRead ++ q.toOwner := by
    rw [hrecv.rest]
    exact h.popped
  refine ⟨fun hfull => ⟨?_, fun hend => ?_, hpopped⟩, ?_, fun hend => ?_, hpopped⟩
  · rw [haccepted, hfull, List.take_length, hwrote, List.append_assoc]
  · obtain ⟨hclosed, -, hnil⟩ := hended hend
    exact ⟨hclosed, hnil⟩
  · rw [haccepted, hwrote, List.prefix_append_right_inj]
    exact (List.take_prefix _ _).trans (List.prefix_append _ _)
  · obtain ⟨hclosed, hgot, hnil⟩ := hended hend
    refine ⟨hclosed, ?_⟩
    rw [haccepted, hwrote, hgot, hnil, List.take_nil, List.append_nil, List.append_nil,
      List.append_nil]

/-- What the kernel took is popped. -/
theorem Balanced.send (h : p.Balanced x) {taken : Bytes}
    (htaken : taken <+: x.conn.inboundStream.buffer) :
    (p.send taken).Balanced (x.step (.readInbound taken.length)) := by
  refine ⟨h.pending, h.ended, ?_⟩
  have hread : (x.conn.readInbound taken.length).1 = taken := by
    show x.conn.inboundStream.peekOutput taken.length = taken
    rw [ByteStream.peekOutput_eq]
    exact (List.prefix_iff_eq_take.mp htaken).symm
  show x.popped ++ (x.conn.readInbound taken.length).1 = p.ownerRead ++ (p.toOwner ++ taken)
  rw [hread, h.popped, List.append_assoc]

end SocketPair

/-! ### The thread -/

namespace TCPThread

variable {α δ ω : Type} [FdAdapter α δ ω] [LawfulFdAdapter α]

/-- The connection and the adapter of a thread. -/
structure Sound (s : TCPThread α) : Prop where
  charted : s.tcp.conn.Charted
  compact : s.tcp.conn.Compact
  inputEnded : s.tcp.conn.sender.stream.inputEnded = s.tcp.ended
  holds : LawfulFdAdapter.Holds (· ∈ s.tcp.conn.segmentsOut) s.datagramAdapter
  shut : s.inboundShutdown = true → s.tcp.conn.inboundStream.Over

/-- A thread whatever happened to it. -/
structure Ledger (s : TCPThread α) : Prop extends s.Sound where
  books : s.pair.Ledger s.tcp

/-- A thread that nothing has stopped. -/
structure Live (s : TCPThread α) : Prop extends s.Sound where
  books : s.pair.Balanced s.tcp
  eof : s.threadData.eof = true → s.pair.ownerClosed = true ∧ s.pair.toThread = []
  opened : s.threadData.closed = false

theorem Live.ledger {s : TCPThread α} (h : s.Live) : s.Ledger := ⟨h.toSound, h.books.ledger⟩

theorem Sound.step {s : TCPThread α} (h : s.Sound) (op : TCPConnection.Op)
    (hconnect : op ≠ .connect) : { s with tcp := s.tcp.step op }.Sound :=
  ⟨h.charted.step op fun hop => absurd hop hconnect, h.compact.step op,
    Endpoint.step_inputEnded h.inputEnded op,
    LawfulFdAdapter.holds_mono
      (fun _ hseg => (s.tcp.conn.step_segmentsOut_grows op).subset hseg) h.holds,
    fun hshut => TCPConnection.step_over (h.shut hshut) op⟩

/-- What an exception says about the state it leaves: a connection that accepts less than it
advertised was reset, and neither the adapter nor a read of the pair nor the check for a busy wait
ever throws. -/
def Explains (s : TCPThread α) : EventLoop.Error Exception → Prop
  | .polledFd | .callback .wouldBlock | .callback (.write _) | .callback .segmentReceived => True
  | .callback .acceptedLess => s.tcp.conn.state = TCPState.ofState .reset
  | .callback .adapter | .callback (.read _) | .busyWait => False

/-- The network hands over only what the peer's adapter has written, or what is not for this
connection; and the kernel reports a hangup without input only when the owner has closed and nothing
is left to read. -/
def Honest (outs : List ω) (s : TCPThread α) : EventLoop.Poll RuleName (Input δ) → Prop
  | .ready revents input =>
      (LawfulFdAdapter.Carried α outs input.datagram ∨
        LawfulFdAdapter.Foreign s.datagramAdapter input.datagram) ∧
      ((revents .pipeIn).pollHup = true → (revents .pipeIn).pollIn = false →
        s.pair.ownerClosed = true ∧ s.pair.toThread = [])
  | .timeout | .interrupted => True

/-- In a turn that began with `start`, before an exception. -/
structure Turn (peer : Endpoint) (outs : List ω) (start : Endpoint)
    (answer : EventLoop.Poll RuleName (Input δ)) (s : TCPThread α) : Prop where
  live : s.Live
  calls : Endpoint.Calls peer start s.tcp
  honest : s.Honest outs answer

/-- And after one. -/
structure Stopped (peer start : Endpoint) (e : EventLoop.Error Exception) (s : TCPThread α) :
    Prop where
  ledger : s.Ledger
  calls : Endpoint.Calls peer start s.tcp
  explains : s.Explains e
  threw : e = .callback .segmentReceived → Endpoint.Threw peer start s.tcp

theorem Turn.stopped {peer start : Endpoint} {outs : List ω}
    {answer : EventLoop.Poll RuleName (Input δ)} {s : TCPThread α}
    (h : Turn peer outs start answer s) {e : EventLoop.Error Exception} (he : s.Explains e)
    (hthrew : e = .callback .segmentReceived → Endpoint.Threw peer start s.tcp) :
    Stopped peer start e s := ⟨h.live.ledger, h.calls, he, hthrew⟩

section Rules

variable {peer start : Endpoint} {b : α} {revents : RuleName → EventLoop.Revents} {input : Input δ}
  {s : TCPThread α}

/-- Rule 1. -/
theorem receiveDatagram_turn (hb : LawfulFdAdapter.Holds (· ∈ peer.conn.segmentsOut) b)
    (h : Turn peer (FdAdapter.output b) start (.ready revents input) s) :
    ∃ s' threw, receiveDatagram input s = (s', if threw then some .segmentReceived else none) ∧
      Turn peer (FdAdapter.output b) start (.ready revents input) s' ∧
      (threw = true → Endpoint.Threw peer start s'.tcp) ∧
      (FdAdapter.fd s'.datagramAdapter).readCount =
        (FdAdapter.fd s.datagramAdapter).readCount + 1 := by
  obtain ⟨a', out, hread, hholds⟩ := LawfulFdAdapter.holds_read input.datagram h.live.holds
  have hcount := LawfulFdAdapter.read_fd h.live.holds hread
  have hlive : { s with datagramAdapter := a' }.Live :=
    ⟨{ h.live.toSound with holds := hholds }, h.live.books, h.live.eof, h.live.opened⟩
  have hforeign := fun hf => LawfulFdAdapter.foreign_read h.live.holds hf hread
  unfold receiveDatagram
  rw [hread]
  cases out with
  | none =>
      exact ⟨_, false, rfl, ⟨hlive, h.calls, h.honest.1.imp_right fun hf => (hforeign hf).2,
        h.honest.2⟩, nofun, hcount⟩
  | some seg =>
      have hcarried := h.honest.1.resolve_right fun hf => absurd (hforeign hf).1 (by simp)
      obtain ⟨sent, hsent, hmatches⟩ :=
        LawfulFdAdapter.authentic h.live.holds hb hcarried hread
      refine ⟨_, s.tcp.conn.segmentReceivedThrows seg, rfl, ?_, fun hthrew => ?_, hcount⟩
      · rw [s.tcp.step_matches hmatches]
        exact ⟨⟨hlive.toSound.step _ nofun, h.live.books.internal (Or.inl ⟨sent, rfl⟩), h.live.eof,
          h.live.opened⟩, h.calls.tail (Endpoint.Call.step hsent nofun), Or.inl hcarried,
          h.honest.2⟩
      · exact ⟨s.tcp, h.calls, sent, hsent, s.tcp.conn.segmentReceivedThrows_matches hmatches ▸ hthrew,
          s.tcp.step_matches hmatches⟩

/-- The end of the outbound stream, when the owner has closed and nothing is left. -/
theorem endOutbound_turn {outs : List ω} {answer : EventLoop.Poll RuleName (Input δ)}
    (h : Turn peer outs start answer s) (hclosed : s.pair.ownerClosed = true)
    (hnil : s.pair.toThread = []) : Turn peer outs start answer s.endOutbound := by
  have hsound := h.live.toSound.step .endInputStream nofun
  refine ⟨⟨{ hsound with }, h.live.books.endInput hclosed hnil, h.live.eof, h.live.opened⟩,
    h.calls.tail (Endpoint.Call.step trivial nofun), ?_⟩
  cases answer with
  | ready revents input => exact h.honest
  | timeout | interrupted => trivial

/-- A read of the pair's end is never longer than asked. -/
theorem threadData_read {limit n : ℕ} {q : SocketPair} {got : Bytes}
    (h : s.pair.recv limit n = some (q, got)) :
    ∃ fd, s.threadData.read limit got = .ok (fd, got) ∧
      fd.eof = (s.threadData.eof || (decide (0 < limit) && got.isEmpty)) ∧
      fd.closed = s.threadData.closed ∧ fd.readCount = s.threadData.readCount + 1 := by
  have hsize := (SocketPair.recv_received h).size
  unfold FileDescriptor.read
  rw [if_neg (not_lt.mpr hsize)]
  refine ⟨_, rfl, ?_⟩
  split
  · rename_i hnil
    exact ⟨by rw [hnil, Bool.or_true]; rfl, rfl, rfl⟩
  · rename_i hnil
    rw [Bool.not_eq_true] at hnil
    exact ⟨by rw [hnil, Bool.or_false]; rfl, rfl, rfl⟩

/-- A connection that accepts less than it advertised has been reset. -/
theorem reset_of_acceptedLess (h : s.Live) {limit : ℕ} {q : SocketPair} {got : Bytes}
    (hrecv : s.pair.Received limit q got) (hlimit : limit = s.tcp.conn.remainingOutboundCapacity)
    (hless : (s.tcp.conn.write got).2 ≠ got.length) :
    (s.tcp.conn.write got).1.state = TCPState.ofState .reset := by
  have hfits : got.length ≤ s.tcp.conn.remainingOutboundCapacity :=
    hlimit ▸ hrecv.size.trans (min_le_right _ _)
  have hopen : s.tcp.conn.sender.stream.inputEnded = false := by
    rw [h.inputEnded]
    by_contra hended
    rw [Bool.not_eq_false] at hended
    have hnil := (h.books.ended hended).2
    rw [hrecv.split, List.append_eq_nil_iff] at hnil
    refine hless ?_
    rw [hnil.1]
    exact Nat.le_zero.mp (s.tcp.conn.write_le [])
  have hinactive : s.tcp.conn.isActive = false := by
    by_contra hactive
    rw [Bool.not_eq_false] at hactive
    refine hless (TCPConnection.write_open hactive hopen ?_ hfits)
    by_contra herror
    rw [Bool.not_eq_false] at herror
    exact absurd hactive (by simp [h.charted.ends herror])
  have herror : s.tcp.conn.sender.stream.error = true := by
    refine (h.charted.closed hinactive).resolve_right fun hidle => ?_
    have hended := (hidle.fin_sent hidle.finSent_eq).1
    exact absurd hended (by simp [hopen])
  rw [TCPConnection.write_inactive hinactive, TCPConnection.state_of_inactive h.charted hinactive,
    if_pos herror]

/-- Rule 2. -/
theorem readPipe_turn {outs : List ω} (h : Turn peer outs start (.ready revents input) s) :
    EventLoop.Holds (Turn peer outs start (.ready revents input)) (Stopped peer start)
        (readPipe input s).1 ((readPipe input s).2.map .callback) ∧
      ((readPipe input s).2 = none →
        (readPipe input s).1.threadData.readCount = s.threadData.readCount + 1) := by
  unfold readPipe
  dsimp only
  rcases hread : s.pair.recv s.tcp.conn.remainingOutboundCapacity input.pipeRead with _ | ⟨q, got⟩
  · exact ⟨h.stopped trivial nofun, nofun⟩
  · have hrecv := SocketPair.recv_received hread
    obtain ⟨fd, hfd, heof, hclosed, hcount⟩ := threadData_read hread
    obtain ⟨hbalanced, hledger⟩ := h.live.books.recv hrecv
    dsimp only
    rw [hfd]
    dsimp only
    have hsound := h.live.toSound.step (.write got) nofun
    have hcalls : Endpoint.Calls peer start (s.tcp.step (.write got)) :=
      h.calls.tail (Endpoint.Call.step trivial nofun)
    split
    · rename_i hless
      exact ⟨⟨⟨{ hsound with }, hledger⟩, hcalls, reset_of_acceptedLess h.live hrecv rfl hless,
        nofun⟩, nofun⟩
    · rename_i hfull
      rw [ne_eq, not_not] at hfull
      have hdrained : fd.eof = true → q.ownerClosed = true ∧ q.toThread = [] := by
        intro hend
        rw [heof, Bool.or_eq_true] at hend
        have hbefore : s.pair.ownerClosed = true ∧ s.pair.toThread = [] := by
          rcases hend with hend | hend
          · exact h.live.eof hend
          · rw [Bool.and_eq_true, decide_eq_true_eq, List.isEmpty_iff] at hend
            exact (hrecv.eof hend.1 hend.2).symm
        rw [hrecv.split, List.append_eq_nil_iff] at hbefore
        rw [hrecv.rest]
        exact ⟨hbefore.1, hbefore.2.2⟩
      have hturn : Turn peer outs start (.ready revents input)
          { s with pair := q, threadData := fd, tcp := s.tcp.step (.write got) } := by
        refine ⟨⟨{ hsound with }, hbalanced hfull, hdrained, hclosed.trans h.live.opened⟩, hcalls,
          h.honest.1, fun hhup hin => ?_⟩
        obtain ⟨hclosed, hnil⟩ := h.honest.2 hhup hin
        rw [hrecv.split, List.append_eq_nil_iff] at hnil
        rw [hrecv.rest]
        exact ⟨hclosed, hnil.2⟩
      split
      · rename_i hend
        obtain ⟨hclosed, hnil⟩ := hdrained hend
        exact ⟨endOutbound_turn hturn hclosed hnil, fun _ => hcount⟩
      · exact ⟨hturn, fun _ => hcount⟩

/-- One write that returns. -/
theorem threadData_write {buffer taken : Bytes} {result : Option ℕ} {n : ℕ} {fd : FileDescriptor}
    (h : s.threadData.write [buffer] false [result] = (fd, taken, .returns n)) :
    taken <+: buffer ∧ n = taken.length ∧ fd = s.threadData.registerWrite := by
  rcases FileDescriptor.write_once s.threadData [buffer] result with
    ⟨k, hle, -, -, hwrite⟩ | ⟨what, hwrite, -⟩
  · rw [h, Prod.mk.injEq, Prod.mk.injEq, WriteOutcome.returns.injEq] at hwrite
    obtain ⟨rfl, rfl, rfl⟩ := hwrite
    have hbytes : BufferViewList.bytes [buffer] = buffer := List.append_nil buffer
    rw [BufferViewList.size_eq] at hle
    rw [List.length_take_of_le hle, hbytes]
    exact ⟨List.take_prefix _ _, rfl, rfl⟩
  · exact absurd (h.symm.trans hwrite) (by simp)

/-- Rule 3. -/
theorem writePipe_turn {outs : List ω} (h : Turn peer outs start (.ready revents input) s) :
    EventLoop.Holds (Turn peer outs start (.ready revents input)) (Stopped peer start)
        (writePipe input s).1 ((writePipe input s).2.map .callback) ∧
      ((writePipe input s).2 = none →
        (writePipe input s).1.threadData.writeCount ≠ s.threadData.writeCount) := by
  unfold writePipe
  dsimp only
  split
  · rename_i fd taken n hwrite
    obtain ⟨htaken, rfl, rfl⟩ := threadData_write hwrite
    rw [ByteStream.peekOutput_eq] at htaken
    have hsound := h.live.toSound.step (.readInbound taken.length) nofun
    have hbooks := h.live.books.send (htaken.trans (List.take_prefix _ _))
    have hcalls : Endpoint.Calls peer start (s.tcp.step (.readInbound taken.length)) :=
      h.calls.tail (Endpoint.Call.step trivial nofun)
    split
    · rename_i hover
      rw [Bool.or_eq_true] at hover
      have hlive : Live { s with
          threadData := s.threadData.registerWrite.registerWrite
          pair := { s.pair.send taken with threadClosed := true }
          tcp := s.tcp.step (.readInbound taken.length)
          inboundShutdown := true } :=
        ⟨{ hsound with shut := fun _ => hover },
          ⟨hbooks.pending, hbooks.ended, hbooks.popped⟩, h.live.eof, h.live.opened⟩
      refine ⟨⟨hlive, hcalls, h.honest⟩, fun _ => ?_⟩
      show s.threadData.writeCount + 1 + 1 ≠ s.threadData.writeCount
      grind
    · refine ⟨⟨⟨{ hsound with }, hbooks, h.live.eof, h.live.opened⟩, hcalls, h.honest⟩,
        fun _ => ?_⟩
      show s.threadData.writeCount + 1 ≠ s.threadData.writeCount
      grind
  · exact ⟨h.stopped trivial nofun, nofun⟩

/-- The segments that rule 4 still has to send. -/
theorem transmit_turn {outs : List ω} {answer : EventLoop.Poll RuleName (Input δ)}
    (segs : List TCPSegment) {s : TCPThread α} (h : Turn peer outs start answer s)
    (hsegs : ∀ seg ∈ segs, seg ∈ s.tcp.conn.segmentsOut) :
    ∃ s', transmit segs s = (s', none) ∧ Turn peer outs start answer s' ∧ s'.tcp = s.tcp ∧
      s'.transmitted = s.transmitted + segs.length := by
  induction segs generalizing s with
  | nil => exact ⟨s, rfl, h, rfl, rfl⟩
  | cons seg segs ih =>
      have hseg := hsegs seg List.mem_cons_self
      obtain ⟨a', hwrite, hholds⟩ :=
        LawfulFdAdapter.holds_write h.live.holds hseg (h.live.compact.emitted seg hseg)
      have hsound : Sound { s with datagramAdapter := a', transmitted := s.transmitted + 1 } :=
        { h.live.toSound with holds := hholds }
      have hhonest : Honest outs { s with datagramAdapter := a', transmitted := s.transmitted + 1 }
          answer := by
        cases answer with
        | ready revents input =>
            exact ⟨h.honest.1.imp_right fun hf => LawfulFdAdapter.foreign_write hf hwrite,
              h.honest.2⟩
        | timeout | interrupted => trivial
      obtain ⟨s', hs', hturn, htcp, hsent⟩ := ih
        ⟨⟨hsound, h.live.books, h.live.eof, h.live.opened⟩, h.calls, hhonest⟩
        fun q hq => hsegs q (List.mem_cons_of_mem _ hq)
      refine ⟨s', ?_, hturn, htcp, ?_⟩
      · rw [transmit, hwrite]
        exact hs'
      · rw [hsent, List.length_cons]
        exact Nat.succ_add_eq_add_succ _ _

/-- Rule 4. -/
theorem sendDatagrams_turn (input : Input δ) {outs : List ω}
    {answer : EventLoop.Poll RuleName (Input δ)}
    (h : Turn peer outs start answer s) :
    ∃ s', sendDatagrams input s = (s', none) ∧ Turn peer outs start answer s' ∧
      s'.segmentsOut = [] := by
  obtain ⟨s', hs', hturn, htcp, hsent⟩ := transmit_turn s.segmentsOut h
    fun seg hseg => List.mem_of_mem_drop hseg
  refine ⟨s', hs', hturn, List.drop_eq_nil_of_le ?_⟩
  rw [htcp, hsent, segmentsOut, List.length_drop]
  omega

/-- The four rules. -/
theorem rule_serves {outs : List ω} (hb : LawfulFdAdapter.Holds (· ∈ peer.conn.segmentsOut) b)
    (houts : outs = FdAdapter.output b) :
    EventLoop.Serves (rule (α := α)) revents input (Turn peer outs start (.ready revents input))
      (Stopped peer start) := by
  subst houts
  refine ⟨fun k s _ h => h.stopped trivial nofun, fun k s hhup hready h => ?_,
    fun k s _ h => ?_, fun k s _ h hreturns hcount hinterest => ?_⟩
  · cases k with
    | pipeIn =>
        obtain ⟨hclosed, hnil⟩ := h.honest.2 hhup hready
        exact endOutbound_turn h hclosed hnil
    | datagramIn | pipeOut | datagramOut => exact h
  · cases k with
    | datagramIn =>
        obtain ⟨s', threw, hs', hturn, hthrew, -⟩ := receiveDatagram_turn hb h
        show EventLoop.Holds _ _ (receiveDatagram input s).1
          ((receiveDatagram input s).2.map .callback)
        rw [hs']
        cases threw with
        | true => exact hturn.stopped trivial fun _ => hthrew rfl
        | false => exact hturn
    | pipeIn => exact (readPipe_turn h).1
    | pipeOut => exact (writePipe_turn h).1
    | datagramOut =>
        obtain ⟨s', hs', hturn, -⟩ := sendDatagrams_turn input h
        show EventLoop.Holds _ _ (sendDatagrams input s).1 _
        rw [show (rule .datagramOut).callback input s = (s', none) from hs', hs']
        exact hturn
  · -- every callback reads or writes its descriptor, or has nothing left to do
    have hsucc : ∀ n : UInt32, n + 1 ≠ n := by grind
    cases k with
    | datagramIn =>
        obtain ⟨s', threw, hs', -, -, hread⟩ := receiveDatagram_turn hb h
        have hcount : (FdAdapter.fd (receiveDatagram input s).1.datagramAdapter).readCount =
          (FdAdapter.fd s.datagramAdapter).readCount := hcount
        rw [hs', hread] at hcount
        exact absurd hcount (hsucc _)
    | pipeIn => exact absurd (((readPipe_turn h).2 hreturns).symm.trans hcount) (hsucc _)
    | pipeOut => exact absurd hcount ((writePipe_turn h).2 hreturns)
    | datagramOut =>
        obtain ⟨s', hs', -, hnil⟩ := sendDatagrams_turn input h
        have hinterest : (!(sendDatagrams input s).1.segmentsOut.isEmpty) = true := hinterest
        rw [hs', hnil] at hinterest
        exact absurd hinterest (by simp)

end Rules

/-- One call of `wait_next_event`. -/
theorem waitNextEvent_turn {peer start : Endpoint} {b : α}
    (hb : LawfulFdAdapter.Holds (· ∈ peer.conn.segmentsOut) b)
    {answer : EventLoop.Poll RuleName (Input δ)} {l : EventLoop.Loop RuleName (TCPThread α)}
    (hl : Turn peer (FdAdapter.output b) start answer l.state) :
    EventLoop.Holds (Turn peer (FdAdapter.output b) start answer) (Stopped peer start)
      (EventLoop.waitNextEvent rule l answer).1.state
      (EventLoop.waitNextEvent rule l answer).2.error? := by
  refine EventLoop.waitNextEvent_invariant (fun k s hfinished h => ?_) ?_ hl
  · cases k with
    | pipeIn =>
        simp only [EventLoop.Rule.finished, rule, Bool.or_eq_true, Bool.and_eq_true,
          h.live.opened, Bool.false_eq_true, or_false] at hfinished
        obtain ⟨hclosed, hnil⟩ := h.live.eof hfinished.2
        exact endOutbound_turn h hclosed hnil
    | datagramIn | pipeOut | datagramOut => exact h
  · rintro revents input rfl
    exact rule_serves hb rfl

end TCPThread

end CourseNet
