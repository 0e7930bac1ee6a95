import CourseNet.SocketNetwork
import CourseNet.StreamCopyRuns

/-!
# Copies over a network

What `main` of `tcp_udp.cc`, `tcp_ipv4.cc` and `tcp_ip_ethernet.cc` does once its socket is open:
`bidirectional_stream_copy`, and then `wait_until_closed`.  Two hosts do so over a network as
`SocketNetwork` describes it.  Each copy is the owner of its socket, so what is known of owners holds of
the standard streams: from the input of one host to the output of the other.
-/

namespace CourseNet

/-- The same poll, with other answers to the callbacks. -/
def EventLoop.Poll.map {κ ι ι' : Type} (f : ι → ι') : Poll κ ι → Poll κ ι'
  | .timeout => .timeout
  | .interrupted => .interrupted
  | .ready revents input => .ready revents (f input)

namespace StreamCopy

/-! ### What one call moves through the socket -/

/-- The kernel takes bytes for the socket only if `takes`, returns only what `gives` allows, and tells
its end, or hangs it up with nothing to read, only if `ends`. -/
def Serviced (takes : Prop) (gives : Bytes → Prop) (ends : Prop) :
    EventLoop.Poll RuleName Kernel → Prop
  | .ready revents kernel =>
      (∀ n m, kernel.socketWrite n = some m → takes) ∧
      (∀ n got, kernel.socketRead n = some got → gives got ∧ (got = [] → 0 < n → ends)) ∧
      ((revents .socketIn).pollHup = true → (revents .socketIn).pollIn = false → ends)
  | .timeout | .interrupted => True

/-- In a call that began with `start`. -/
structure Since (start : StreamCopy) (takes : Prop) (gives : Bytes → Prop) (ends : Prop)
    (l : EventLoop.Loop RuleName StreamCopy) : Prop where
  wrote : ∃ sent, l.state.outbound.written = start.outbound.written ++ sent ∧ (sent ≠ [] → takes)
  read : ∃ got, l.state.inbound.read = start.inbound.read ++ got ∧ (got ≠ [] → gives got)
  shut : start.outbound.shutdown = true → l.state.outbound.shutdown = true
  ended : l.state.socket.eof = true ∨ .socketIn ∉ l.rules → ends
  opened : l.state.socket.closed = false

/-- Before its rules are served. -/
structure Before (start : StreamCopy) (ends : Prop) (l : EventLoop.Loop RuleName StreamCopy) :
    Prop where
  wrote : l.state.outbound.written = start.outbound.written
  read : l.state.inbound.read = start.inbound.read
  shut : l.state.outbound.shutdown = start.outbound.shutdown
  ended : l.state.socket.eof = true ∨ .socketIn ∉ l.rules → ends
  opened : l.state.socket.closed = false

/-- A rule whose turn has not come has not moved anything. -/
def Waiting (start : StreamCopy) : RuleName → StreamCopy → Prop
  | .socketOut, s => s.outbound.written = start.outbound.written
  | .socketIn, s => s.inbound.read = start.inbound.read
  | .inputIn, _ | .outputOut, _ => True

/-- A read moves nothing out of its direction. -/
theorem Lane.fill_moved (l : Lane) (fd : FileDescriptor) (answer : ℕ → Option Bytes) :
    (l.fill fd answer).2.1.written = l.written ∧
      (l.fill fd answer).2.1.shutdown = l.shutdown := by
  rcases l.fill_cases fd answer with ⟨fd', l', got, -, heq, hf⟩ | ⟨what, heq, -⟩
  · rw [heq]
    exact ⟨hf.written, hf.shutdown⟩
  · rw [heq]
    exact ⟨rfl, rfl⟩

/-- A write moves nothing into its direction, and out of it what the kernel takes. -/
theorem Lane.drain_moved (l : Lane) (fd : FileDescriptor) (answer : ℕ → Option ℕ)
    (finish : FileDescriptor → FileDescriptor × Option Exception) :
    (l.drain fd answer finish).2.1.read = l.read ∧
      (∃ sent, (l.drain fd answer finish).2.1.written = l.written ++ sent ∧
        (sent ≠ [] → ∃ n m, answer n = some m)) ∧
      (l.shutdown = true → (l.drain fd answer finish).2.1.shutdown = true) ∧
      ((∀ fd, (finish fd).1.closed = fd.closed) →
        (l.drain fd answer finish).1.closed = fd.closed) := by
  rcases l.drain_cases fd answer finish with ⟨fd', l', n, m, hanswer, hd, heq⟩ | ⟨what, heq, -⟩
  · rw [heq]
    have hsent : ∃ sent, l'.written = l.written ++ sent ∧
        (sent ≠ [] → ∃ n m, answer n = some m) := ⟨_, hd.written, fun _ => ⟨m, n, hanswer⟩⟩
    have hclosed : (∀ fd, (finish fd).1.closed = fd.closed) → (finish fd').1.closed = fd.closed :=
      fun h => (h fd').trans hd.closed
    split
    · generalize finish fd' = r at hclosed
      obtain ⟨fd'', error⟩ := r
      cases error with
      | none => exact ⟨hd.read, hsent, fun _ => rfl, hclosed⟩
      | some what => exact ⟨hd.read, hsent, hd.shutdown.trans, hclosed⟩
    · exact ⟨hd.read, hsent, hd.shutdown.trans, fun _ => hd.closed⟩
  · rw [heq]
    exact ⟨rfl, ⟨[], (List.append_nil _).symm, absurd rfl⟩, id, fun _ => rfl⟩

section Since

variable {start : StreamCopy} {takes : Prop} {gives : Bytes → Prop} {ends : Prop}

theorem Before.since {l : EventLoop.Loop RuleName StreamCopy} (h : Before start ends l) :
    Since start takes gives ends l :=
  ⟨⟨[], by rw [h.wrote, List.append_nil], absurd rfl⟩, ⟨[], by rw [h.read, List.append_nil],
    absurd rfl⟩, h.shut.trans, h.ended, h.opened⟩

theorem mem_of_mem_erased {ks js : List RuleName} {j k : RuleName} (hne : j ≠ k)
    (h : j ∈ ks ++ k :: js) : j ∈ ks ++ js := by
  simpa [hne] using h

/-- A cancel before or while the rules are served. -/
theorem erased_ended {ks js : List RuleName} {k : RuleName} {s : StreamCopy}
    (hended : s.socket.eof = true ∨ .socketIn ∉ ks ++ k :: js → ends) (hk : k = .socketIn → ends) :
    ((rule k).cancel s).socket.eof = true ∨ .socketIn ∉ ks ++ js → ends := by
  intro h
  by_cases hsocket : k = .socketIn
  · exact hk hsocket
  · refine hended (h.imp (fun heof => ?_) fun hno hin => hno ?_)
    · cases k <;> exact heof
    · exact mem_of_mem_erased (Ne.symm hsocket) hin

theorem Before.cancel {ks js : List RuleName} {k : RuleName} {s : StreamCopy}
    {calls : List (EventLoop.Call RuleName)} (h : Before start ends ⟨ks ++ k :: js, s, calls⟩)
    (hfinished : (rule k).finished s = true) :
    Before start ends ⟨ks ++ js, (rule k).cancel s, calls ++ [.cancel k]⟩ := by
  have hended := erased_ended h.ended fun hk => by
    subst hk
    have hclosed : s.socket.closed = false := h.opened
    refine h.ended (Or.inl ?_)
    simpa [EventLoop.Rule.finished, rule, hclosed] using hfinished
  cases k <;> exact ⟨h.wrote, h.read, h.shut, hended, h.opened⟩

theorem Since.cancel {ks js : List RuleName} {k : RuleName} {s : StreamCopy}
    {calls : List (EventLoop.Call RuleName)}
    (h : Since start takes gives ends ⟨ks ++ k :: js, s, calls⟩) (hk : k = .socketIn → ends) :
    Since start takes gives ends ⟨ks ++ js, (rule k).cancel s, calls ++ [.cancel k]⟩ := by
  have hended := erased_ended h.ended hk
  cases k <;> exact ⟨h.wrote, h.read, h.shut, hended, h.opened⟩

/-- What waits is left alone by the others. -/
theorem waiting_apart {j k : RuleName} (hne : j ≠ k) (kernel : Kernel) {s : StreamCopy}
    (h : Waiting start k s) :
    Waiting start k ((rule j).cancel s) ∧ Waiting start k ((rule j).callback kernel s).1 := by
  cases k with
  | inputIn | outputOut => exact ⟨trivial, trivial⟩
  | socketOut =>
      cases j with
      | inputIn => exact ⟨h, (Lane.fill_moved _ _ _).1.trans h⟩
      | socketOut => exact absurd rfl hne
      | socketIn | outputOut => exact ⟨h, h⟩
  | socketIn =>
      cases j with
      | inputIn | socketOut => exact ⟨h, h⟩
      | socketIn => exact absurd rfl hne
      | outputOut => exact ⟨h, (Lane.drain_moved _ _ _ _).1.trans h⟩

/-- A callback moves what the kernel takes and gives. -/
theorem Since.callback {l : EventLoop.Loop RuleName StreamCopy} (h : Since start takes gives ends l)
    {k : RuleName} (hwaiting : Waiting start k l.state) {revents : RuleName → EventLoop.Revents}
    {kernel : Kernel} (hserviced : Serviced takes gives ends (.ready revents kernel)) :
    Since start takes gives ends (l.called rule kernel k) := by
  obtain ⟨htakes, hgives, -⟩ := hserviced
  cases k with
  | inputIn =>
      obtain ⟨sent, hsent, hsome⟩ := h.wrote
      exact ⟨⟨sent, (Lane.fill_moved _ _ _).1.trans hsent, hsome⟩, h.read,
        fun hshut => (Lane.fill_moved _ _ _).2.trans (h.shut hshut), h.ended, h.opened⟩
  | socketOut =>
      obtain ⟨-, ⟨sent, hsent, hsome⟩, hshut, hclosed⟩ := Lane.drain_moved l.state.outbound l.state.socket
        kernel.socketWrite (shutdownWrite kernel.socketShutdown)
      have heof := (Lane.drain_frame (Lane.finishes_shutdownWrite kernel.socketShutdown)
        l.state.outbound l.state.socket kernel.socketWrite).1 (Lane.shutdownWrite_eof _)
      refine ⟨⟨sent, hsent.trans (by rw [show l.state.outbound.written = _ from hwaiting]),
        fun hne => ?_⟩, h.read, fun hstart => hshut (h.shut hstart),
        fun hor => h.ended (hor.imp_left heof.symm.trans), (hclosed fun fd => ?_).trans h.opened⟩
      · obtain ⟨n, m, hanswer⟩ := hsome hne
        exact htakes n m hanswer
      · cases kernel.socketShutdown <;> rfl
  | socketIn =>
      have hclosed := (Lane.fill_frame l.state.inbound l.state.socket kernel.socketRead).1
      rcases l.state.inbound.fill_cases l.state.socket kernel.socketRead with
        ⟨fd', l', got, hanswer, heq, hf⟩ | ⟨what, heq, -⟩
      · have hstate : (l.called rule kernel .socketIn).state =
            { l.state with socket := fd', inbound := l' } := by
          show (readSocket kernel l.state).1 = _
          rw [readSocket, heq]
        rw [heq] at hclosed
        refine ⟨?_, ?_, ?_, ?_, ?_⟩
        · rw [hstate]
          exact h.wrote
        · rw [hstate]
          exact ⟨got, hf.read.trans (by rw [show l.state.inbound.read = _ from hwaiting]),
            fun _ => (hgives _ got hanswer).1⟩
        · rw [hstate]
          exact h.shut
        · rw [hstate]
          rintro (heof | hno)
          · have heof : fd'.eof = true := heof
            rw [hf.eof, Bool.or_eq_true, Bool.and_eq_true, decide_eq_true_eq,
              List.isEmpty_iff] at heof
            rcases heof with heof | ⟨hroom, hnil⟩
            · exact h.ended (Or.inl heof)
            · exact (hgives _ got hanswer).2 hnil (lt_min (by decide) hroom)
          · exact h.ended (Or.inr hno)
        · rw [hstate]
          exact hclosed.trans h.opened
      · have hstate : (l.called rule kernel .socketIn).state = l.state := by
          show (readSocket kernel l.state).1 = _
          rw [readSocket, heq]
        refine ⟨?_, ?_, ?_, ?_, ?_⟩
        · rw [hstate]
          exact h.wrote
        · rw [hstate]
          exact h.read
        · rw [hstate]
          exact h.shut
        · rw [hstate]
          exact h.ended
        · rw [hstate]
          exact h.opened
  | outputOut =>
      obtain ⟨got, hgot, hsome⟩ := h.read
      exact ⟨h.wrote, ⟨got, (Lane.drain_moved _ _ _ _).1.trans hgot, hsome⟩, h.shut, h.ended,
        h.opened⟩

/-- One call of `wait_next_event`. -/
theorem waitNextEvent_since {l : EventLoop.Loop RuleName StreamCopy} (hrules : l.rules.Nodup)
    (hended : l.state.socket.eof = true ∨ .socketIn ∉ l.rules → ends)
    (hopened : l.state.socket.closed = false) {answer : EventLoop.Poll RuleName Kernel}
    (hserviced : Serviced takes gives ends answer) :
    Since l.state takes gives ends (EventLoop.waitNextEvent rule l answer).1 := by
  have hkeeps : EventLoop.Holds (Since l.state takes gives ends)
      (fun _ => Since l.state takes gives ends) (EventLoop.waitNextEvent rule l answer).1
      (EventLoop.waitNextEvent rule l answer).2.error? := by
    refine EventLoop.waitNextEvent_keeps (P := Before l.state ends) (Waiting l.state)
      (fun ks k js s calls hfinished h => h.cancel hfinished) (fun l' k h _ _ => ?_)
      (hrules.imp fun hne s h => (waiting_apart (Ne.symm hne) {} h).1) (fun _ h => h.since) ?_
      ⟨rfl, rfl, rfl, hended, hopened⟩
    · cases k with
      | inputIn | outputOut => trivial
      | socketOut => exact h.wrote
      | socketIn => exact h.read
    · rintro revents kernel rfl
      refine ⟨⟨fun l k _ _ h => h, fun ks k js s calls hk h => h.cancel ?_,
        fun l k _ hwaiting _ h => ?_, fun l k _ hwaiting _ h _ _ _ => h.callback hwaiting hserviced⟩,
        hrules.imp fun hne s h => waiting_apart hne kernel h⟩
      · rintro rfl
        exact hserviced.2.2 hk.2.1 hk.2.2
      · have hcallback := h.callback hwaiting hserviced
        generalize ((rule k).callback kernel l.state).2 = error
        cases error <;> exact hcallback
  generalize (EventLoop.waitNextEvent rule l answer).2.error? = error at hkeeps
  cases error <;> exact hkeeps

end Since

end StreamCopy

/-! ### The owner's end of the pair -/

/-- What a `read` of at most `n` bytes of the owner's end returns, if the kernel hands out at most
`count` at a time. -/
def SocketPair.recvOwner (p : SocketPair) (count n : ℕ) : Option Bytes :=
  let got := p.toOwner.take (min n count)
  if got.isEmpty && decide (0 < n) && !(p.toOwner.isEmpty && p.threadClosed) then none
  else some got

/-- What the kernel answers to a copy, besides what is in the pair. -/
structure CopyInput where
  inputRead : ℕ → Option Bytes := fun _ => none
  socketWrite : Option ℕ := none
  socketShutdown : Bool := true
  socketRead : ℕ := 0
  outputWrite : ℕ → Option ℕ := fun _ => none
  outputClose : Bool := true

def CopyInput.kernel (p : SocketPair) (input : CopyInput) : StreamCopy.Kernel where
  inputRead := input.inputRead
  socketWrite := fun n => if p.ownerClosed then none else input.socketWrite.map (min n)
  socketShutdown := input.socketShutdown
  socketRead := p.recvOwner input.socketRead
  outputWrite := input.outputWrite
  outputClose := input.outputClose

/-- A host that runs one of the applications. -/
structure CopyHost (α : Type) where
  socket : TCPSpongeSocket α
  copy : BidirectionalStreamCopy := BidirectionalStreamCopy.start {}

namespace CopyHost

/-- A turn of the socket's thread, a turn of the copy, or the end of `main`. -/
inductive Op (δ : Type)
  | turn (answer : EventLoop.Poll TCPThread.RuleName (TCPThread.Input δ)) (ms : ℕ)
  | copy (answer : EventLoop.Poll StreamCopy.RuleName CopyInput)
  | waitUntilClosed

variable {α δ ω : Type} [FdAdapter α δ ω]

abbrev pair (h : CopyHost α) : SocketPair := h.socket.thread.pair

/-- What the rules of the copy act on. -/
abbrev streams (h : CopyHost α) : StreamCopy := h.copy.eventloop.state

/-- `connect` or `listen_and_accept` has returned. -/
def connected (h : CopyHost α) : Bool :=
  match h.socket.phase with
  | .running | .finished => true
  | .opening | .died _ => false

/-- What a turn of the copy from `start` to `s` has asked of the socket. -/
def ownerOps (start s : StreamCopy) : List (TCPSpongeSocket.Op δ) :=
  [.write (s.outbound.written.drop start.outbound.written.length),
    .read (s.inbound.read.length - start.inbound.read.length)] ++
  if s.outbound.shutdown then [.shutdownWrite] else []

def copyStep (h : CopyHost α) (answer : EventLoop.Poll StreamCopy.RuleName CopyInput) : CopyHost α :=
  let copy := h.copy.step (answer.map (CopyInput.kernel h.pair))
  { socket := StepSystem.run TCPSpongeSocket.step h.socket
      (ownerOps (δ := δ) h.streams copy.eventloop.state)
    copy := copy }

def step (h : CopyHost α) : Op δ → CopyHost α
  | .turn answer ms => { h with socket := h.socket.step (.turn answer ms) }
  | .copy answer => if h.connected then h.copyStep answer else h
  | .waitUntilClosed =>
      if h.copy.phase = .returned then { h with socket := h.socket.step .shutdownWrite } else h

/-- The kernel hangs the owner's end up with nothing to read only at the end of the stream. -/
def HangsUp (p : SocketPair) : EventLoop.Poll StreamCopy.RuleName CopyInput → Prop
  | .ready revents _ => (revents .socketIn).pollHup = true → (revents .socketIn).pollIn = false →
      p.threadClosed = true ∧ p.toOwner = []
  | .timeout | .interrupted => True

theorem serviced (p : SocketPair) {answer : EventLoop.Poll StreamCopy.RuleName CopyInput}
    (h : HangsUp p answer) :
    StreamCopy.Serviced (p.ownerClosed = false) (· <+: p.toOwner)
      (p.threadClosed = true ∧ p.toOwner = []) (answer.map (CopyInput.kernel p)) := by
  cases answer with
  | timeout | interrupted => trivial
  | ready revents input =>
      refine ⟨fun n m hm => ?_, fun n got hgot => ?_, h⟩
      · by_contra hclosed
        rw [Bool.not_eq_false] at hclosed
        simp [CopyInput.kernel, hclosed] at hm
      · have hrecv : p.recvOwner input.socketRead n = some got := hgot
        unfold SocketPair.recvOwner at hrecv
        dsimp only at hrecv
        split at hrecv
        · cases hrecv
        · rename_i hread
          rw [Option.some.injEq] at hrecv
          rw [hrecv] at hread
          refine ⟨hrecv ▸ List.take_prefix _ _, fun hnil hn => ?_⟩
          rw [hnil] at hread
          simpa [hn, and_comm] using hread

end CopyHost

/-! ### What a turn of the thread leaves of the owner's end -/

/-- What the thread does to the pair. -/
structure SocketPair.Owned (start p : SocketPair) : Prop where
  wrote : p.ownerWrote = start.ownerWrote
  read : p.ownerRead = start.ownerRead
  closed : p.ownerClosed = start.ownerClosed
  drained : start.threadClosed = true ∧ start.toOwner = [] → p.threadClosed = true ∧ p.toOwner = []

namespace TCPThread

variable {α δ ω : Type} [FdAdapter α δ ω] {start : SocketPair} {s : TCPThread α}

theorem transmit_pair (segs : List TCPSegment) (s : TCPThread α) :
    (transmit segs s).1.pair = s.pair := by
  induction segs generalizing s with
  | nil => rfl
  | cons seg segs ih =>
      rw [transmit]
      split
      · rfl
      · exact ih _

theorem callback_owned (h : start.Owned s.pair) (k : RuleName) (input : Input δ) :
    start.Owned ((rule k).callback input s).1.pair := by
  cases k with
  | datagramIn =>
      show start.Owned (receiveDatagram input s).1.pair
      unfold receiveDatagram
      split <;> exact h
  | pipeIn =>
      show start.Owned (readPipe input s).1.pair
      unfold readPipe
      dsimp only
      split
      · exact h
      · rename_i pair got hrecv
        have howned : start.Owned pair := by
          rw [(SocketPair.recv_received hrecv).rest]
          exact ⟨h.wrote, h.read, h.closed, h.drained⟩
        split
        · exact h
        · split
          · exact howned
          · split <;> exact howned
  | pipeOut =>
      show start.Owned (writePipe input s).1.pair
      unfold writePipe
      dsimp only
      split
      · rename_i fd taken n hwrite
        -- a write after the end is an error
        have hopen : ¬s.pair.threadClosed = true := fun hclosed => by
          rw [SocketPair.sendResult, if_pos hclosed] at hwrite
          exact absurd hwrite (by simp [FileDescriptor.write, FileDescriptor.writeLoop])
        have howned : ∀ closed : Bool,
            start.Owned { s.pair.send taken with threadClosed := closed } := fun _ =>
          ⟨h.wrote, h.read, h.closed, fun hover => absurd (h.drained hover).1 hopen⟩
        split
        · exact howned true
        · exact howned s.pair.threadClosed
      · exact h
  | datagramOut =>
      show start.Owned (transmit s.segmentsOut s).1.pair
      rw [transmit_pair]
      exact h

theorem waitNextEvent_owned (l : EventLoop.Loop RuleName (TCPThread α))
    (answer : EventLoop.Poll RuleName (Input δ)) :
    l.state.pair.Owned (EventLoop.waitNextEvent rule l answer).1.state.pair := by
  have hkeeps : EventLoop.Holds (fun s => l.state.pair.Owned s.pair)
      (fun _ s => l.state.pair.Owned s.pair) (EventLoop.waitNextEvent rule l answer).1.state
      (EventLoop.waitNextEvent rule l answer).2.error? := by
    have hcancel : ∀ k (s : TCPThread α), l.state.pair.Owned s.pair →
        l.state.pair.Owned ((rule k).cancel s).pair := fun k s h => by
      cases k <;> exact h
    refine EventLoop.waitNextEvent_invariant (fun k s _ h => hcancel k s h)
      (fun revents input _ => ⟨fun _ _ _ h => h, fun k s _ _ h => hcancel k s h,
        fun k s _ h => ?_, fun k s _ h _ _ _ => callback_owned h k input⟩)
      ⟨rfl, rfl, rfl, id⟩
    have hcallback := callback_owned h k input
    generalize ((rule k).callback input s).2 = error
    cases error <;> exact hcallback
  generalize (EventLoop.waitNextEvent rule l answer).2.error? = error at hkeeps
  cases error <;> exact hkeeps

end TCPThread

namespace TCPSpongeSocket

open TCPThread (RuleName Input)

variable {α δ ω : Type} [FdAdapter α δ ω]

theorem tcpLoop_owned (s : TCPSpongeSocket α) (answer : EventLoop.Poll RuleName (Input δ)) (ms : ℕ)
    (after : Phase) : s.thread.pair.Owned (s.tcpLoop answer ms after).thread.pair := by
  have howned := TCPThread.waitNextEvent_owned s.eventloop answer
  unfold tcpLoop
  generalize EventLoop.waitNextEvent TCPThread.rule s.eventloop answer = r at howned
  obtain ⟨l, result⟩ := r
  cases result with
  | throws error => exact howned
  | exit => exact howned
  | success | timeout =>
      dsimp only
      split
      · exact howned
      · split <;> exact howned

/-- A turn of the thread closes the owner's end only when it finishes. -/
theorem turn_owned (s : TCPSpongeSocket α) (answer : EventLoop.Poll RuleName (Input δ)) (ms : ℕ) :
    (s.turn answer ms).thread.pair.ownerWrote = s.thread.pair.ownerWrote ∧
      (s.turn answer ms).thread.pair.ownerRead = s.thread.pair.ownerRead ∧
      ((s.turn answer ms).thread.pair.ownerClosed = true →
        s.thread.pair.ownerClosed = true ∨ (s.turn answer ms).phase = .finished) ∧
      (s.thread.pair.threadClosed = true ∧ s.thread.pair.toOwner = [] →
        (s.turn answer ms).thread.pair.threadClosed = true ∧
          (s.turn answer ms).thread.pair.toOwner = []) := by
  unfold turn
  split
  · split
    · have howned := s.tcpLoop_owned answer ms .running
      exact ⟨howned.wrote, howned.read, fun h => Or.inl (howned.closed ▸ h), howned.drained⟩
    · exact ⟨rfl, rfl, Or.inl, id⟩
  · have howned := s.tcpLoop_owned answer ms .finished
    unfold closeOwner
    split
    · rename_i hfinished
      exact ⟨howned.wrote, howned.read, fun _ => Or.inr hfinished,
        fun hover => ⟨rfl, (howned.drained hover).2⟩⟩
    · exact ⟨howned.wrote, howned.read, fun h => Or.inl (howned.closed ▸ h), howned.drained⟩
  · exact ⟨rfl, rfl, Or.inl, id⟩
  · exact ⟨rfl, rfl, Or.inl, id⟩

variable [LawfulFdAdapter α]

/-- The connection's stream ends only after the owner has closed. -/
theorem turn_ended {peer s : TCPSpongeSocket α} (h : s.Accounts) (hpeer : peer.Accounts)
    {answer : EventLoop.Poll RuleName (Input δ)} {ms : ℕ}
    (honest : peer.Honest s (.turn answer ms))
    (hended : (s.turn answer ms).thread.tcp.ended = true) :
    s.thread.tcp.ended = true ∨ (s.thread.pair.ownerClosed = true ∧ s.phase ≠ .finished) := by
  have hloop : ∀ after : Phase, s.phase.error? = none → after.error? = none →
      (s.tcpLoop answer ms after).thread.tcp.ended = true →
      s.thread.pair.ownerClosed = true := fun after hrunning hafter hend => by
    have haccounts := (tcpLoop_accounts hpeer (h.live hrunning) hrunning honest ms after hafter).1
    rw [← (s.tcpLoop_owned answer ms after).closed]
    exact (haccounts.ledger.books.ended hend).1
  unfold turn at hended
  split at hended
  · rename_i hphase
    split at hended
    · exact Or.inr ⟨hloop .running (by rw [hphase]; rfl) rfl hended, by simp [hphase]⟩
    · exact Or.inl hended
  · rename_i hphase
    refine Or.inr ⟨hloop .finished (by rw [hphase]; rfl) rfl ?_, by simp [hphase]⟩
    unfold closeOwner at hended
    split at hended <;> exact hended
  · exact Or.inl hended
  · exact Or.inl hended

end TCPSpongeSocket

/-! ### The copy is the owner -/

namespace CopyHost

variable {α δ ω : Type} [FdAdapter α δ ω] {steady : Prop} {h : CopyHost α}

/-- The copy and the pair agree.  In a `steady` run no poll of the copy is interrupted and no rule that
writes is hung up. -/
structure Joined (steady : Prop) (h : CopyHost α) : Prop where
  accounts : h.copy.Accounts steady False
  idle : steady → h.copy.phase = .returned →
    ∀ k ∈ h.copy.eventloop.rules, StreamCopy.Idle k h.streams
  wrote : h.pair.ownerWrote = h.streams.outbound.written
  read : h.pair.ownerRead = h.streams.inbound.read
  drained : h.streams.socket.eof = true ∨ .socketIn ∉ h.copy.eventloop.rules →
    h.pair.threadClosed = true ∧ h.pair.toOwner = []
  opened : h.streams.socket.closed = false
  closed : steady → h.pair.ownerClosed = true →
    h.streams.outbound.shutdown = true ∨ h.socket.phase = .finished
  ended : steady → h.socket.thread.tcp.ended = true → h.streams.outbound.shutdown = true

/-- A copy that has just begun, on a socket whose owner has done nothing. -/
theorem joined_start {socket : TCPSpongeSocket α} (hpair : socket.thread.pair = {})
    (hended : socket.thread.tcp.ended = false) : Joined steady ({ socket := socket } : CopyHost α) := by
  refine ⟨BidirectionalStreamCopy.start_accounts fun _ => rfl, fun _ => nofun, ?_, ?_, ?_, rfl,
    fun _ hclosed => ?_, fun _ hend => absurd hend (by simp [hended])⟩
  · show socket.thread.pair.ownerWrote = []
    rw [hpair]
  · show socket.thread.pair.ownerRead = []
    rw [hpair]
  · rintro (heof | hno)
    · cases heof
    · exact absurd (by simp [BidirectionalStreamCopy.start, StreamCopy.ruleNames]) hno
  · have hclosed : socket.thread.pair.ownerClosed = true := hclosed
    rw [hpair] at hclosed
    cases hclosed

/-- What a turn of the copy does to its streams. -/
theorem Joined.since (hj : h.Joined steady)
    {answer : EventLoop.Poll StreamCopy.RuleName CopyInput} (hangsUp : HangsUp h.pair answer) :
    StreamCopy.Since h.streams (h.pair.ownerClosed = false) (· <+: h.pair.toOwner)
      (h.pair.threadClosed = true ∧ h.pair.toOwner = [])
      (h.copy.step (answer.map (CopyInput.kernel h.pair))).eventloop := by
  have hunchanged : StreamCopy.Since h.streams (h.pair.ownerClosed = false) (· <+: h.pair.toOwner)
      (h.pair.threadClosed = true ∧ h.pair.toOwner = []) h.copy.eventloop :=
    ⟨⟨[], (List.append_nil _).symm, absurd rfl⟩, ⟨[], (List.append_nil _).symm, absurd rfl⟩, id,
      hj.drained, hj.opened⟩
  have hrules : h.copy.eventloop.rules.Nodup :=
    (show StreamCopy.ruleNames.Nodup by decide).sublist hj.accounts.ledger.1.rules
  unfold BidirectionalStreamCopy.step
  split
  · have hsince := StreamCopy.waitNextEvent_since hrules hj.drained hj.opened (serviced h.pair hangsUp)
    generalize EventLoop.waitNextEvent StreamCopy.rule h.copy.eventloop
      (answer.map (CopyInput.kernel h.pair)) = r at hsince
    obtain ⟨l, result⟩ := r
    cases result <;> exact hsince
  · exact hunchanged
  · exact hunchanged

/-- What the calls of a turn of the copy do to the pair. -/
theorem ownerOps_pair {start s : StreamCopy} {socket : TCPSpongeSocket α} {sent got : Bytes}
    (hsent : s.outbound.written = start.outbound.written ++ sent)
    (hgot : s.inbound.read = start.inbound.read ++ got)
    (htakes : sent ≠ [] → socket.thread.pair.ownerClosed = false)
    (hgives : got ≠ [] → got <+: socket.thread.pair.toOwner) :
    ∃ pair : SocketPair, StepSystem.run TCPSpongeSocket.step socket (ownerOps (δ := δ) start s) =
        socket.withThread { socket.thread with pair := pair } ∧
      pair.ownerWrote = socket.thread.pair.ownerWrote ++ sent ∧
      pair.ownerRead = socket.thread.pair.ownerRead ++ got ∧
      pair.ownerClosed = (socket.thread.pair.ownerClosed || s.outbound.shutdown) ∧
      pair.threadClosed = socket.thread.pair.threadClosed ∧
      pair.toOwner = socket.thread.pair.toOwner.drop got.length := by
  have hdrop : s.outbound.written.drop start.outbound.written.length = sent := by
    rw [hsent, List.drop_left]
  have hcount : s.inbound.read.length - start.inbound.read.length = got.length := by
    rw [hgot, List.length_append, Nat.add_sub_cancel_left]
  have htake : socket.thread.pair.toOwner.take got.length = got := by
    by_cases hnil : got = []
    · rw [hnil]
      rfl
    · exact (List.prefix_iff_eq_take.mp (hgives hnil)).symm
  have hwritten : (socket.thread.pair.write sent).ownerWrote =
        socket.thread.pair.ownerWrote ++ sent ∧
      (socket.thread.pair.write sent).ownerRead = socket.thread.pair.ownerRead ∧
      (socket.thread.pair.write sent).ownerClosed = socket.thread.pair.ownerClosed ∧
      (socket.thread.pair.write sent).threadClosed = socket.thread.pair.threadClosed ∧
      (socket.thread.pair.write sent).toOwner = socket.thread.pair.toOwner := by
    unfold SocketPair.write
    split
    · rename_i hclosed
      have hnil : sent = [] := by
        by_contra hne
        exact absurd (htakes hne) (by simp [hclosed])
      rw [hnil, List.append_nil]
      exact ⟨rfl, rfl, rfl, rfl, rfl⟩
    · exact ⟨rfl, rfl, rfl, rfl, rfl⟩
  obtain ⟨hw, hr, hc, ht, ho⟩ := hwritten
  unfold ownerOps
  rw [hdrop, hcount]
  cases hshut : s.outbound.shutdown with
  | false =>
      refine ⟨(socket.thread.pair.write sent).read got.length, rfl, hw, ?_, ?_, ht, ?_⟩
      · show (socket.thread.pair.write sent).ownerRead ++
          (socket.thread.pair.write sent).toOwner.take got.length = _
        rw [hr, ho, htake]
      · rw [Bool.or_false]
        exact hc
      · show (socket.thread.pair.write sent).toOwner.drop got.length = _
        rw [ho]
  | true =>
      refine ⟨{ (socket.thread.pair.write sent).read got.length with ownerClosed := true }, rfl, hw,
        ?_, (Bool.or_true _).symm, ht, ?_⟩
      · show (socket.thread.pair.write sent).ownerRead ++
          (socket.thread.pair.write sent).toOwner.take got.length = _
        rw [hr, ho, htake]
      · show (socket.thread.pair.write sent).toOwner.drop got.length = _
        rw [ho]

/-- No poll of the copy is interrupted, and no rule of it that writes is hung up. -/
def Op.Steady : Op δ → Prop
  | .copy answer => answer ≠ .interrupted ∧ StreamCopy.Steady answer
  | .turn _ _ | .waitUntilClosed => True

/-- What a step does to the socket. -/
def calls (h : CopyHost α) : Op δ → List (TCPSpongeSocket.Op δ)
  | .turn answer ms => [.turn answer ms]
  | .copy answer =>
      if h.connected then
        ownerOps h.streams (h.copy.step (answer.map (CopyInput.kernel h.pair))).eventloop.state
      else []
  | .waitUntilClosed => if h.copy.phase = .returned then [.shutdownWrite] else []

theorem step_socket (h : CopyHost α) (op : Op δ) :
    (h.step op).socket = StepSystem.run TCPSpongeSocket.step h.socket (h.calls op) := by
  cases op with
  | turn answer ms => rfl
  | copy answer =>
      rw [step, calls]
      split <;> rfl
  | waitUntilClosed =>
      rw [step, calls]
      split <;> rfl

variable [LawfulFdAdapter α]

/-- What the network and the kernel do not make up. -/
def Allowed (peer h : CopyHost α) : Op δ → Prop
  | .turn answer ms => peer.socket.Honest h.socket (.turn answer ms)
  | .copy answer => HangsUp h.pair answer
  | .waitUntilClosed => True

/-- A call of the owner is always allowed. -/
theorem calls_honest {peer h : CopyHost α} {op : Op δ} (hop : peer.Allowed h op) :
    StepSystem.Guarded TCPSpongeSocket.step (TCPSpongeSocket.Honest peer.socket) h.socket
      (h.calls op) := by
  cases op with
  | turn answer ms => exact ⟨hop, trivial⟩
  | copy answer =>
      rw [calls]
      split
      · unfold ownerOps
        split
        · exact ⟨trivial, trivial, trivial, trivial⟩
        · exact ⟨trivial, trivial, trivial⟩
      · trivial
  | waitUntilClosed =>
      rw [calls]
      split
      · exact ⟨trivial, trivial⟩
      · trivial

theorem step_accounts {peer h : CopyHost α} (hsocket : h.socket.Accounts)
    (hpeer : peer.socket.Accounts) {op : Op δ} (hop : peer.Allowed h op) :
    (h.step op).socket.Accounts := by
  rw [step_socket]
  exact (calls_honest hop).invariant (fun _ _ honest hs => (hs.step hpeer honest).1) hsocket

/-- A turn of the thread. -/
theorem Joined.turn {peer h : CopyHost α} (hj : h.Joined steady) (hsocket : h.socket.Accounts)
    (hpeer : peer.socket.Accounts)
    {answer : EventLoop.Poll TCPThread.RuleName (TCPThread.Input δ)} {ms : ℕ}
    (honest : peer.socket.Honest h.socket (.turn answer ms)) :
    (h.step (.turn answer ms)).Joined steady := by
  obtain ⟨hwrote, hread, hclosed, hover⟩ := h.socket.turn_owned answer ms
  refine ⟨hj.accounts, hj.idle, hwrote.trans hj.wrote, hread.trans hj.read,
    fun hor => hover (hj.drained hor), hj.opened, fun hs hclose => ?_, fun hs hend => ?_⟩
  · rcases hclosed hclose with hbefore | hfinished
    · refine (hj.closed hs hbefore).imp_right fun hfinished => ?_
      show (h.socket.turn answer ms).phase = .finished
      unfold TCPSpongeSocket.turn
      rw [hfinished]
      exact hfinished
    · exact Or.inr hfinished
  · rcases TCPSpongeSocket.turn_ended hsocket hpeer honest hend with hbefore | ⟨hbefore, hphase⟩
    · exact hj.ended hs hbefore
    · exact (hj.closed hs hbefore).resolve_right hphase

theorem steady_map {answer : EventLoop.Poll StreamCopy.RuleName CopyInput} (p : SocketPair)
    (h : answer ≠ .interrupted ∧ StreamCopy.Steady answer) :
    answer.map (CopyInput.kernel p) ≠ .interrupted ∧
      StreamCopy.Steady (answer.map (CopyInput.kernel p)) := by
  cases answer with
  | timeout => exact ⟨nofun, trivial⟩
  | interrupted => exact absurd rfl h.1
  | ready revents input => exact ⟨nofun, h.2⟩

omit [LawfulFdAdapter α] in
/-- A turn of the copy. -/
theorem Joined.copy (hj : h.Joined steady)
    {answer : EventLoop.Poll StreamCopy.RuleName CopyInput} (hangsUp : HangsUp h.pair answer)
    (hsteady : steady → answer ≠ .interrupted ∧ StreamCopy.Steady answer) :
    (h.copyStep (δ := δ) answer).Joined steady := by
  have hsince := hj.since hangsUp
  have hidle := fun hs => BidirectionalStreamCopy.step_idle hj.accounts.ledger.1.rules (hj.idle hs)
    (steady_map h.pair (hsteady hs)).1
  have haccounts :
      (h.copy.step (answer.map (CopyInput.kernel h.pair))).Accounts steady False :=
    hj.accounts.step (fun hs => (steady_map h.pair (hsteady hs)).2) False.elim
  unfold copyStep
  dsimp only
  generalize h.copy.step (answer.map (CopyInput.kernel h.pair)) = copy at hsince hidle haccounts
  obtain ⟨sent, hsent, htakes⟩ := hsince.wrote
  obtain ⟨got, hgot, hgives⟩ := hsince.read
  obtain ⟨pair, hrun, hwrote, hread, hclosed, hthread, howner⟩ :=
    ownerOps_pair (δ := δ) hsent hgot htakes hgives
  rw [hrun]
  refine ⟨haccounts, hidle, ?_, ?_, fun hor => ?_, hsince.opened, fun hs hclose => ?_,
    fun hs hend => hsince.shut (hj.ended hs hend)⟩
  · exact hwrote.trans (by rw [hsent, hj.wrote])
  · exact hread.trans (by rw [hgot, hj.read])
  · obtain ⟨hover, hnil⟩ := hsince.ended hor
    refine ⟨hthread.trans hover, howner.trans ?_⟩
    rw [hnil, List.drop_nil]
  · have hclose : pair.ownerClosed = true := hclose
    rw [hclosed, Bool.or_eq_true] at hclose
    rcases hclose with hbefore | hshut
    · exact (hj.closed hs hbefore).imp_left hsince.shut
    · exact Or.inl hshut

/-- Every step of a host keeps the copy and the pair together. -/
theorem Joined.step {peer h : CopyHost α} (hj : h.Joined steady) (hsocket : h.socket.Accounts)
    (hpeer : peer.socket.Accounts) {op : Op δ} (hop : peer.Allowed h op)
    (hsteady : steady → op.Steady) : (h.step op).Joined steady := by
  cases op with
  | turn answer ms => exact hj.turn hsocket hpeer hop
  | copy answer =>
      rw [CopyHost.step]
      split
      · exact hj.copy hop hsteady
      · exact hj
  | waitUntilClosed =>
      rw [CopyHost.step]
      split
      · rename_i hreturned
        refine ⟨hj.accounts, hj.idle, hj.wrote, hj.read, hj.drained, hj.opened, fun hs _ => ?_,
          hj.ended⟩
        exact Or.inl (BidirectionalStreamCopy.complete_of_idle hj.accounts.ledger.1 hs
          (hj.idle hs hreturned) _ List.mem_cons_self).2.1
      · exact hj

/-- What one direction delivers, from the input of `x` to the output of `y`. -/
theorem copied {x y : CopyHost α} (hx : x.Joined steady) (hy : y.Joined steady)
    (hxsocket : x.socket.Accounts) (hysocket : y.socket.Accounts)
    (hlink : Link x.socket.thread.tcp y.socket.thread.tcp) :
    y.streams.inbound.written <+: x.streams.outbound.read ∧
      (steady → y.copy.phase = .returned → y.socket.thread.inboundShutdown = true →
        y.socket.thread.tcp.conn.inboundStream.error = false →
        y.streams.inbound.written = x.streams.outbound.read ∧
          x.streams.outbound.shutdown = true ∧
          (x.streams.input.eof = true ∨ .inputIn ∉ x.copy.eventloop.rules)) := by
  obtain ⟨hdelivered, hall⟩ := SocketNetwork.owner_direction hxsocket hysocket hlink
  have hxbooks := hx.accounts.ledger.1.outbound
  have hybooks := hy.accounts.ledger.1.inbound
  refine ⟨?_, fun hs hreturned hshut herror => ?_⟩
  · calc y.streams.inbound.written
        <+: y.streams.inbound.read := (List.prefix_append _ _).trans hybooks.grows
      _ <+: x.streams.outbound.written := hy.read ▸ hx.wrote ▸ hdelivered
      _ <+: x.streams.outbound.read := (List.prefix_append _ _).trans hxbooks.grows
  · obtain ⟨hgone, -, -, hwritten⟩ := BidirectionalStreamCopy.complete_of_idle
      hy.accounts.ledger.1 hs (hy.idle hs hreturned) (.socketIn, y.streams.inbound) (by simp)
    obtain ⟨hended, hread⟩ := hall hshut herror (hy.drained (Or.inr hgone)).2
    have hxshut := hx.ended hs hended
    have heof := ByteStream.eof_iff.mp (hxbooks.shut hxshut)
    have hbalanced := hxbooks.balanced (Or.inr hxshut)
    rw [heof.2, List.append_nil] at hbalanced
    refine ⟨?_, hxshut, ?_⟩
    · calc y.streams.inbound.written
          = y.streams.inbound.read := hwritten
        _ = x.streams.outbound.written := hy.read ▸ hx.wrote ▸ hread
        _ = x.streams.outbound.read := hbalanced
    · rcases hxbooks.ended heof.1 with hend | hgone | hno
      · exact Or.inl hend
      · exact Or.inr hgone
      · exact absurd hxshut (by simp [hno.2])

end CopyHost

namespace SocketNetwork

variable {α δ ω : Type} [FdAdapter α δ ω] [LawfulFdAdapter α]

/-- The calls of one socket are a run of both. -/
theorem guarded_a {n : SocketNetwork α} {ops : List (TCPSpongeSocket.Op δ)}
    (h : StepSystem.Guarded TCPSpongeSocket.step (TCPSpongeSocket.Honest n.b) n.a ops) :
    StepSystem.Guarded step Allowed n (ops.map fun op => (.a, op)) ∧
      StepSystem.run step n (ops.map fun op => (.a, op)) =
        { n with a := StepSystem.run TCPSpongeSocket.step n.a ops } := by
  induction ops generalizing n with
  | nil => exact ⟨trivial, rfl⟩
  | cons op ops ih =>
      obtain ⟨hrest, hrun⟩ := ih (n := n.step (.a, op)) h.2
      exact ⟨⟨h.1, hrest⟩, hrun⟩

theorem guarded_b {n : SocketNetwork α} {ops : List (TCPSpongeSocket.Op δ)}
    (h : StepSystem.Guarded TCPSpongeSocket.step (TCPSpongeSocket.Honest n.a) n.b ops) :
    StepSystem.Guarded step Allowed n (ops.map fun op => (.b, op)) ∧
      StepSystem.run step n (ops.map fun op => (.b, op)) =
        { n with b := StepSystem.run TCPSpongeSocket.step n.b ops } := by
  induction ops generalizing n with
  | nil => exact ⟨trivial, rfl⟩
  | cons op ops ih =>
      obtain ⟨hrest, hrun⟩ := ih (n := n.step (.b, op)) h.2
      exact ⟨⟨h.1, hrest⟩, hrun⟩

end SocketNetwork

/-! ### Two hosts -/

structure CopyNetwork (α : Type) where
  a : CopyHost α
  b : CopyHost α

namespace CopyNetwork

variable {α δ ω : Type} [FdAdapter α δ ω]

/-- Two hosts that have just set up their sockets. -/
def new (a b : TCPSpongeSocket α) : CopyNetwork α := ⟨{ socket := a }, { socket := b }⟩

/-- A step of one host. -/
def step (n : CopyNetwork α) : Side × CopyHost.Op δ → CopyNetwork α
  | (.a, op) => { n with a := n.a.step op }
  | (.b, op) => { n with b := n.b.step op }

def sockets (n : CopyNetwork α) : SocketNetwork α := ⟨n.a.socket, n.b.socket⟩

variable [LawfulFdAdapter α]

def Allowed (n : CopyNetwork α) : Side × CopyHost.Op δ → Prop
  | (.a, op) => n.b.Allowed n.a op
  | (.b, op) => n.a.Allowed n.b op

/-- What both hosts keep. -/
structure Kept (steady : Prop) (n : CopyNetwork α) : Prop where
  a : n.a.Joined steady
  b : n.b.Joined steady
  accountsA : n.a.socket.Accounts
  accountsB : n.b.socket.Accounts

theorem Kept.step {steady : Prop} {n : CopyNetwork α} (h : n.Kept steady)
    {i : Side × CopyHost.Op δ} (hi : n.Allowed i) (hsteady : steady → i.2.Steady) :
    (n.step i).Kept steady := by
  obtain ⟨side, op⟩ := i
  cases side with
  | a =>
      exact ⟨h.a.step h.accountsA h.accountsB hi hsteady, h.b,
        CopyHost.step_accounts h.accountsA h.accountsB hi, h.accountsB⟩
  | b =>
      exact ⟨h.a, h.b.step h.accountsB h.accountsA hi hsteady, h.accountsA,
        CopyHost.step_accounts h.accountsB h.accountsA hi⟩

theorem Kept.run {steady : Prop} {n : CopyNetwork α} (h : n.Kept steady)
    {is : List (Side × CopyHost.Op δ)}
    (his : StepSystem.Guarded CopyNetwork.step CopyNetwork.Allowed n is)
    (hsteady : steady → ∀ i ∈ is, i.2.Steady) :
    (StepSystem.run CopyNetwork.step n is).Kept steady := by
  induction is generalizing n with
  | nil => exact h
  | cons i is ih =>
      exact ih (h.step his.1 fun hs => hsteady hs i List.mem_cons_self) his.2
        fun hs j hj => hsteady hs j (List.mem_cons_of_mem _ hj)

/-- A run of the hosts is a run of their sockets. -/
theorem run_sockets {n : CopyNetwork α} {is : List (Side × CopyHost.Op δ)}
    (h : StepSystem.Guarded step Allowed n is) :
    ∃ js, StepSystem.Guarded SocketNetwork.step SocketNetwork.Allowed n.sockets js ∧
      (StepSystem.run step n is).sockets = StepSystem.run SocketNetwork.step n.sockets js := by
  refine h.simulate (R := fun n m => n.sockets = m) (fun n m i hm hi => ?_) rfl
  subst hm
  obtain ⟨side, op⟩ := i
  cases side with
  | a =>
      obtain ⟨hjs, hrun⟩ := SocketNetwork.guarded_a (n := n.sockets) (CopyHost.calls_honest hi)
      refine ⟨_, hjs, ?_⟩
      rw [hrun]
      show (⟨(n.a.step op).socket, n.b.socket⟩ : SocketNetwork α) = _
      rw [CopyHost.step_socket]
      rfl
  | b =>
      obtain ⟨hjs, hrun⟩ := SocketNetwork.guarded_b (n := n.sockets) (CopyHost.calls_honest hi)
      refine ⟨_, hjs, ?_⟩
      rw [hrun]
      show (⟨n.a.socket, (n.b.step op).socket⟩ : SocketNetwork α) = _
      rw [CopyHost.step_socket]
      rfl

theorem new_kept {steady : Prop} {a b : TCPSpongeSocket α} (ha : a.Opened) (hb : b.Opened) :
    (new a b).Kept steady := by
  have hopened : ∀ {s : TCPSpongeSocket α}, s.Opened →
      s.thread.pair = {} ∧ s.thread.tcp.ended = false := fun hs => by
    cases hs with
    | connect hunused heq =>
        rw [TCPSpongeSocket.connect_eq, Option.some.injEq] at heq
        subst heq
        exact ⟨rfl, rfl⟩
    | listenAndAccept hunused => exact ⟨rfl, rfl⟩
  exact ⟨CopyHost.joined_start (hopened ha).1 (hopened ha).2,
    CopyHost.joined_start (hopened hb).1 (hopened hb).2, ha.accounts.1, hb.accounts.1⟩

instance (p : SocketPair) : DecidablePred (CopyHost.HangsUp p)
  | .ready _ _ => inferInstanceAs (Decidable (_ → _ → _ ∧ _))
  | .timeout | .interrupted => isTrue trivial

instance (peer h : CopyHost TCPOverUDPSocketAdapter) : DecidablePred (peer.Allowed h)
  | .turn answer ms => inferInstanceAs (Decidable (peer.socket.Honest h.socket (.turn answer ms)))
  | .copy answer => inferInstanceAs (Decidable (CopyHost.HangsUp h.pair answer))
  | .waitUntilClosed => isTrue trivial

instance (n : CopyNetwork TCPOverUDPSocketAdapter) : DecidablePred n.Allowed
  | (.a, op) => inferInstanceAs (Decidable (n.b.Allowed n.a op))
  | (.b, op) => inferInstanceAs (Decidable (n.a.Allowed n.b op))

/-- A turn of a thread in which these rules are ready and this payload has arrived, as far as it fits
into a datagram. -/
def served (rules : List TCPThread.RuleName) (sourceAddress : Address) (payload : Bytes) :
    CopyHost.Op ReceivedDatagram :=
  .turn (.ready (fun k => { pollIn := decide (k ∈ rules), pollOut := decide (k ∈ rules) })
    ⟨⟨sourceAddress, payload.take 65507, List.length_take_le 65507 payload⟩, 1, some 1⟩) 10

/-- A turn of a copy in which these rules are ready. -/
def copies (rules : List StreamCopy.RuleName) (input : CopyInput) : CopyHost.Op ReceivedDatagram :=
  .copy (.ready (fun k => { pollIn := decide (k ∈ rules), pollOut := decide (k ∈ rules) }) input)

/-- The client connects, and its copy reads a byte and the end of its input; the server's copy writes
the byte. -/
def udpCopy : List (Side × CopyHost.Op ReceivedDatagram) :=
  [(.a, served [.datagramOut] ⟨2, 20⟩ []),
    (.b, served [.datagramIn] ⟨1, 10⟩
      [0, 10, 0, 20, 0, 0, 0, 0, 0, 0, 0, 0, 80, 2, 250, 0, 181, 222, 0, 0]),
    (.b, served [.datagramOut] ⟨1, 10⟩ []),
    (.a, served [.datagramIn] ⟨2, 20⟩
      [0, 20, 0, 10, 0, 0, 0, 100, 0, 0, 0, 1, 80, 18, 250, 0, 181, 105, 0, 0]),
    (.a, .turn .timeout 10),
    (.a, copies [.inputIn] { inputRead := fun _ => some [7] }),
    (.a, copies [.inputIn, .socketOut] { inputRead := fun _ => some [], socketWrite := some 1 }),
    (.a, served [.pipeIn, .datagramOut] ⟨2, 20⟩ []),
    (.b, served [.datagramIn] ⟨1, 10⟩
      [0, 10, 0, 20, 0, 0, 0, 1, 0, 0, 0, 101, 80, 16, 250, 0, 174, 106, 0, 0, 7]),
    (.b, .turn .timeout 10),
    (.b, served [.pipeOut] ⟨1, 10⟩ []),
    (.b, copies [.socketIn] { socketRead := 1 }),
    (.b, copies [.outputOut] { outputWrite := some })]

/-- **From the standard input to the standard output.**  Over every run of two hosts that copy fewer
than `2 ^ 31 - 2` bytes each way, over any adapters that keep their promises and whatever the network
and the kernels do within theirs: what a host has written to its standard output is a prefix of what
the other has read from its standard input.  If no poll of the copies is interrupted and no rule of
theirs that writes is hung up, the copy of a host has returned, and its thread has shut the inbound
stream down without an error, then it is all that the other read, and the other has shut its socket
down, with its input at an end or no longer polled. -/
theorem end_to_end {a b : TCPSpongeSocket α} (ha : a.Opened) (hb : b.Opened)
    (is : List (Side × CopyHost.Op δ)) (h : StepSystem.Guarded step Allowed (new a b) is)
    (hsmall : (StepSystem.run step (new a b) is).sockets.Small) :
    let n := StepSystem.run step (new a b) is
    ∀ p ∈ [(n.a, n.b), (n.b, n.a)],
      p.2.streams.inbound.written <+: p.1.streams.outbound.read ∧
      ((∀ i ∈ is, i.2.Steady) → p.2.copy.phase = .returned →
        p.2.socket.thread.inboundShutdown = true →
        p.2.socket.thread.tcp.conn.inboundStream.error = false →
        p.2.streams.inbound.written = p.1.streams.outbound.read ∧
          p.1.streams.outbound.shutdown = true ∧
          (p.1.streams.input.eof = true ∨ .inputIn ∉ p.1.copy.eventloop.rules)) := by
  intro n p hp
  have hkept : n.Kept (∀ i ∈ is, i.2.Steady) := (new_kept ha hb).run h id
  obtain ⟨js, hjs, hrun⟩ := run_sockets h
  obtain ⟨cfgA, cfgB, randomA, randomB, ks, hks, hmatches⟩ :=
    SocketNetwork.run_matches ha hb hjs
  have hsame : StepSystem.run SocketNetwork.step ⟨a, b⟩ js = n.sockets := hrun.symm
  rw [hsame] at hmatches
  have hjoined := Network.joined hks (hmatches.small hsmall)
  rw [← hmatches.connections] at hjoined
  rcases List.mem_cons.mp hp with rfl | hp
  · exact CopyHost.copied hkept.a hkept.b hkept.accountsA hkept.accountsB hjoined.1
  · rw [List.mem_singleton] at hp
    subst hp
    exact CopyHost.copied hkept.b hkept.a hkept.accountsB hkept.accountsA hjoined.2

theorem end_to_end_copy :
    let n := StepSystem.run step (new SocketNetwork.overUdp.a SocketNetwork.overUdp.b) udpCopy
    n.b.streams.inbound.written = [7] ∧
      n.b.streams.inbound.written <+: n.a.streams.outbound.read :=
  ⟨by decide +kernel, (end_to_end SocketNetwork.overUdp_opened.1 SocketNetwork.overUdp_opened.2
    udpCopy (by decide +kernel) ⟨by decide +kernel, by decide +kernel⟩ _ List.mem_cons_self).1⟩

end CopyNetwork

end CourseNet
