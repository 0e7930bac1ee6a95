import CourseNet.ReassemblerProgress
import CourseNet.SocketLedger

/-!
# Two sockets and a network

Two owners, each with a socket, whose adapters write to a network that may lose, double, delay and
reorder what they write, and may add what is meant for neither.  Every run of the two sockets is a
run of two connections as `Network` describes it, so what is known of those holds here; together with
the books of the sockets it speaks of what the owners write and read.
-/

namespace CourseNet

namespace TCPSpongeSocket

open TCPThread (RuleName Input Exception)

variable {α δ ω : Type} [FdAdapter α δ ω] [LawfulFdAdapter α]

/-- The exception that stopped the socket. -/
def Phase.error? : Phase → Option (EventLoop.Error Exception)
  | .died error => some error
  | .opening | .running | .finished => none

/-- The exception of the receiver stopped the socket. -/
def Threw (s : TCPSpongeSocket α) : Prop := s.phase = .died (.callback .segmentReceived)

/-- The books of a socket. -/
def Accounts (s : TCPSpongeSocket α) : Prop :=
  EventLoop.Holds TCPThread.Live (fun e t => t.Ledger ∧ t.Explains e) s.thread s.phase.error?

theorem Accounts.ledger {s : TCPSpongeSocket α} (h : s.Accounts) : s.thread.Ledger := by
  unfold Accounts at h
  cases herror : s.phase.error? with
  | none =>
      rw [herror] at h
      exact h.ledger
  | some e =>
      rw [herror] at h
      exact h.1

/-- The books of a socket that runs. -/
theorem accounts_of_live {s : TCPSpongeSocket α} (hphase : s.phase.error? = none)
    (h : s.thread.Live) : s.Accounts := by
  unfold Accounts
  rw [hphase]
  exact h

theorem Accounts.live {s : TCPSpongeSocket α} (h : s.Accounts) (hphase : s.phase.error? = none) :
    s.thread.Live := by
  unfold Accounts at h
  rw [hphase] at h
  exact h

theorem Accounts.explains {s : TCPSpongeSocket α} (h : s.Accounts)
    {e : EventLoop.Error Exception} (hdied : s.phase = .died e) : s.thread.Explains e := by
  unfold Accounts at h
  rw [hdied] at h
  exact h.2

/-- What the owner does to the pair leaves the rest alone. -/
theorem Accounts.owner {s : TCPSpongeSocket α} (h : s.Accounts) {pair : SocketPair}
    (hledger : s.thread.pair.Ledger s.thread.tcp → pair.Ledger s.thread.tcp)
    (hbalanced : s.thread.pair.Balanced s.thread.tcp → pair.Balanced s.thread.tcp)
    (hdrained : s.thread.pair.ownerClosed = true ∧ s.thread.pair.toThread = [] →
      pair.ownerClosed = true ∧ pair.toThread = []) :
    (s.withThread { s.thread with pair := pair }).Accounts := by
  unfold Accounts at h ⊢
  show EventLoop.Holds _ _ _ s.phase.error?
  cases herror : s.phase.error? with
  | none =>
      rw [herror] at h
      exact ⟨{ h.toSound with }, hbalanced h.books, fun heof => hdrained (h.eof heof), h.opened⟩
  | some e =>
      rw [herror] at h
      exact ⟨⟨{ h.1.toSound with }, hledger h.1.books⟩, h.2⟩

/-- The network and the kernel do not make anything up. -/
def Honest (peer s : TCPSpongeSocket α) : Op δ → Prop
  | .turn answer _ => s.thread.Honest (FdAdapter.output peer.thread.datagramAdapter) answer
  | .write _ | .shutdownWrite | .read _ | .abort => True

section Turn

variable {peer s : TCPSpongeSocket α}

theorem tcpLoop_accounts (hpeer : peer.Accounts) (h : s.thread.Live)
    (hphase : s.phase.error? = none) {answer : EventLoop.Poll RuleName (Input δ)}
    (honest : s.thread.Honest (FdAdapter.output peer.thread.datagramAdapter) answer) (ms : ℕ)
    (after : Phase) (hafter : after.error? = none) :
    (s.tcpLoop answer ms after).Accounts ∧
      Endpoint.Calls peer.thread.tcp s.thread.tcp (s.tcpLoop answer ms after).thread.tcp ∧
      ((s.tcpLoop answer ms after).Threw →
        Endpoint.Threw peer.thread.tcp s.thread.tcp (s.tcpLoop answer ms after).thread.tcp) := by
  have hlives : ∀ {u : TCPSpongeSocket α}, u.phase.error? = none → ¬u.Threw := by
    intro u hnone hthrew
    rw [show u.phase = _ from hthrew] at hnone
    cases hnone
  have hwait := TCPThread.waitNextEvent_turn hpeer.ledger.holds (l := s.eventloop)
    ⟨h, Relation.ReflTransGen.refl, honest⟩
  unfold tcpLoop
  generalize EventLoop.waitNextEvent TCPThread.rule s.eventloop answer = r at hwait
  obtain ⟨l, result⟩ := r
  have hgoes : ∀ {e : Option (EventLoop.Error Exception)}, e = none →
      EventLoop.Holds (TCPThread.Turn peer.thread.tcp
        (FdAdapter.output peer.thread.datagramAdapter) s.thread.tcp answer)
        (TCPThread.Stopped peer.thread.tcp s.thread.tcp) l.state e →
      let u : TCPSpongeSocket α :=
        if s.abort then { s with eventloop := l, phase := after }
        else if l.state.tcp.conn.active then
          { s with eventloop := { l with state := l.state.tick ms } }
        else { s with eventloop := l }
      u.Accounts ∧ Endpoint.Calls peer.thread.tcp s.thread.tcp u.thread.tcp ∧ ¬u.Threw := by
    rintro e rfl hturn
    have hturn : TCPThread.Turn _ _ _ _ l.state := hturn
    dsimp only
    split
    · exact ⟨accounts_of_live hafter hturn.live, hturn.calls, hlives hafter⟩
    · split
      · have hsound := hturn.live.toSound.step (.tick ms) nofun
        refine ⟨accounts_of_live hphase ⟨{ hsound with
            holds := LawfulFdAdapter.holds_tick ms hsound.holds }, ?_, hturn.live.eof,
            hturn.live.opened⟩, hturn.calls.tail (Endpoint.Call.step trivial nofun),
          hlives hphase⟩
        exact hturn.live.books.internal (Or.inr ⟨ms, rfl⟩)
      · exact ⟨accounts_of_live hphase hturn.live, hturn.calls, hlives hphase⟩
  cases result with
  | throws error =>
      refine ⟨⟨hwait.ledger, hwait.explains⟩, hwait.calls, fun hthrew => hwait.threw ?_⟩
      exact Phase.died.inj hthrew
  | exit =>
      exact ⟨accounts_of_live hafter hwait.live, hwait.calls, fun h => absurd h (hlives hafter)⟩
  | success | timeout => exact (hgoes rfl hwait).imp_right (And.imp_right fun hno h => absurd h hno)

theorem Accounts.closeOwner (h : s.Accounts) :
    s.closeOwner.Accounts ∧ s.closeOwner.thread.tcp = s.thread.tcp ∧
      s.closeOwner.phase = s.phase := by
  unfold TCPSpongeSocket.closeOwner
  split
  · exact ⟨h.owner (·.close true) (·.close true) fun hdrained => ⟨rfl, hdrained.2⟩, rfl, rfl⟩
  · exact ⟨h, rfl, rfl⟩

/-- A step of a socket keeps its books and is a few calls of its connection. -/
theorem Accounts.step (h : s.Accounts) (hpeer : peer.Accounts) {op : Op δ}
    (honest : peer.Honest s op) :
    (s.step op).Accounts ∧
      Endpoint.Calls peer.thread.tcp s.thread.tcp (s.step op).thread.tcp ∧
      ((s.step op).Threw →
        s.Threw ∨ Endpoint.Threw peer.thread.tcp s.thread.tcp (s.step op).thread.tcp) := by
  cases op with
  | turn answer ms =>
      show (s.turn answer ms).Accounts ∧ Endpoint.Calls _ _ (s.turn answer ms).thread.tcp ∧
        ((s.turn answer ms).Threw → _ ∨ Endpoint.Threw _ _ (s.turn answer ms).thread.tcp)
      unfold turn
      split
      · rename_i hphase
        have hrunning : s.phase.error? = none := by rw [hphase]; rfl
        split
        · exact (tcpLoop_accounts hpeer (h.live hrunning) hrunning honest ms _ rfl).imp_right
            (And.imp_right fun hthrew hdied => Or.inr (hthrew hdied))
        · exact ⟨accounts_of_live rfl (h.live hrunning), Relation.ReflTransGen.refl, nofun⟩
      · rename_i hphase
        have hrunning : s.phase.error? = none := by rw [hphase]; rfl
        obtain ⟨haccounts, hcalls, hthrew⟩ := tcpLoop_accounts hpeer (h.live hrunning) hrunning
          honest ms .finished rfl
        obtain ⟨hclosed, hsame, hphase⟩ := haccounts.closeOwner
        refine ⟨hclosed, hsame ▸ hcalls, fun hdied => Or.inr ?_⟩
        rw [hsame]
        exact hthrew (hphase.symm.trans hdied)
      · exact ⟨h, Relation.ReflTransGen.refl, Or.inl⟩
      · exact ⟨h, Relation.ReflTransGen.refl, Or.inl⟩
  | write data =>
      refine ⟨h.owner (·.write data) (·.write data) fun ⟨hclosed, hnil⟩ => ?_,
        Relation.ReflTransGen.refl, Or.inl⟩
      rw [SocketPair.write, if_pos hclosed]
      exact ⟨hclosed, hnil⟩
  | shutdownWrite =>
      exact ⟨h.owner (·.close _) (·.close _) fun hdrained => ⟨rfl, hdrained.2⟩,
        Relation.ReflTransGen.refl, Or.inl⟩
  | read n =>
      exact ⟨h.owner (·.read n) (·.read n) id, Relation.ReflTransGen.refl, Or.inl⟩
  | abort => exact ⟨h, Relation.ReflTransGen.refl, Or.inl⟩

end Turn

/-- A socket that `connect` or `listen_and_accept` has just set up, on an adapter that has not sent a
segment. -/
inductive Opened : TCPSpongeSocket α → Prop
  | connect {cTcp : TCPConfig} {random : UInt32} {adapter : α} {cAd : FdAdapterConfig}
      {rates : LossRates} {s : TCPSpongeSocket α}
      (hunused : LawfulFdAdapter.Holds (fun _ => False) adapter)
      (h : TCPSpongeSocket.connect cTcp random adapter cAd rates = some s) : Opened s
  | listenAndAccept {cTcp : TCPConfig} {random : UInt32} {adapter : α} {cAd : FdAdapterConfig}
      {rates : LossRates} (hunused : LawfulFdAdapter.Holds (fun _ => False) adapter) :
      Opened (TCPSpongeSocket.listenAndAccept cTcp random adapter cAd rates)

/-- The first state of the thread. -/
theorem initializeTcp_accounts {tcp : Endpoint} {adapter : α} (listens : Bool)
    (hcharted : tcp.conn.Charted) (hcompact : tcp.conn.Compact)
    (hended : tcp.conn.sender.stream.inputEnded = tcp.ended)
    (hquiet : tcp.accepted = [] ∧ tcp.popped = [] ∧ tcp.ended = false)
    (hunused : LawfulFdAdapter.Holds (fun _ => False) adapter) :
    (initializeTcp tcp adapter listens).Accounts := by
  obtain ⟨haccepted, hpopped, hopen⟩ := hquiet
  have hholds := LawfulFdAdapter.holds_mono (T := (· ∈ tcp.conn.segmentsOut))
    (fun _ hno => absurd hno id) hunused
  refine accounts_of_live rfl ⟨⟨hcharted, hcompact, hended, hholds, nofun⟩, ⟨?_, ?_, hpopped⟩,
    nofun, rfl⟩
  · show tcp.accepted ++ [] = []
    rw [haccepted, List.append_nil]
  · exact fun hend => absurd (hopen.symm.trans hend) nofun

/-- Its connection is new or has just connected. -/
theorem Opened.accounts {s : TCPSpongeSocket α} (h : s.Opened) :
    s.Accounts ∧ ∃ cfg random, s.thread.tcp = Endpoint.new cfg random ∨
      s.thread.tcp = (Endpoint.new cfg random).step .connect := by
  cases h with
  | connect hunused h =>
      rename_i cTcp random adapter cAd rates
      rw [connect_eq, Option.some.injEq] at h
      subst h
      refine ⟨initializeTcp_accounts false ?_ ?_ ?_ ⟨rfl, rfl, rfl⟩
        (LawfulFdAdapter.holds_setConfig cAd rates hunused), cTcp, random, Or.inr rfl⟩
      · exact (TCPConnection.Charted.new cTcp random).step .connect fun _ => rfl
      · exact (TCPConnection.Compact.new cTcp random).step .connect
      · exact Endpoint.step_inputEnded (x := Endpoint.new cTcp random) rfl .connect
  | listenAndAccept hunused =>
      rename_i cTcp random adapter cAd rates
      exact ⟨initializeTcp_accounts true (TCPConnection.Charted.new cTcp random)
        (TCPConnection.Compact.new cTcp random) rfl ⟨rfl, rfl, rfl⟩
        (LawfulFdAdapter.holds_setListening true
          (LawfulFdAdapter.holds_setConfig cAd rates hunused)), cTcp, random, Or.inl rfl⟩

/-- A socket that is set up has not died. -/
theorem Opened.not_threw {s : TCPSpongeSocket α} (h : s.Opened) : ¬s.Threw := by
  cases h with
  | @connect cTcp random adapter cAd rates _ hunused h =>
      rw [TCPSpongeSocket.connect_eq] at h
      rw [← Option.some.inj h]
      exact nofun
  | listenAndAccept hunused => exact nofun

end TCPSpongeSocket

/-! ### The network -/

/-- A segment of a small stream raises no exception. -/
theorem TCPReceiver.Follows.not_throws {S popped : Bytes} {E : Prop} {isn : WrappingInt32}
    {r : TCPReceiver} {seg : TCPSegment} (h : Follows S E isn popped r)
    (hS : S.length < 2 ^ 31 - 2) (hseg : Genuine S E isn seg) :
    (r.segmentReceived seg).2 ≠ .throws := by
  rcases h.segmentReceived_eq hseg with heq | heq
  · rw [heq]
    exact h.consistent.not_throws (by omega) (h.piece hS hseg)
  · rw [heq]
    simp

theorem Link.not_throws {x y : Endpoint} (h : Link y x) (hsmall : y.accepted.length < 2 ^ 31 - 2)
    {seg : TCPSegment} (hseg : seg ∈ y.conn.segmentsOut) :
    x.conn.segmentReceivedThrows seg = false := by
  unfold TCPConnection.segmentReceivedThrows
  rcases Bool.eq_false_or_eq_true seg.header.rst with hrst | hrst
  · rw [hrst, Bool.not_true, Bool.and_false, Bool.false_and]
  · have hreturns := h.follows.not_throws hsmall (h.emitted seg hseg hrst)
    rw [beq_eq_false_iff_ne.mpr hreturns, Bool.and_false]

namespace Network

def replace (n : Network) (side : Side) (x : Endpoint) : Network :=
  match side with
  | .a => { n with a := x }
  | .b => { n with b := x }

/-- The calls of one side are a run of that side. -/
theorem guarded_of_calls {n : Network} (side : Side) {x : Endpoint}
    (h : Endpoint.Calls (n.endpoint side.other) (n.endpoint side) x) :
    ∃ js, StepSystem.Guarded step Allowed n js ∧ StepSystem.run step n js = n.replace side x := by
  induction h with
  | refl => exact ⟨[], trivial, by cases side <;> rfl⟩
  | tail _ hlast ih =>
      obtain ⟨js, hjs, hrun⟩ := ih
      cases hlast with
      | step hop hconnect =>
          rename_i op
          refine ⟨js ++ [(side, op)], StepSystem.Guarded.snoc_iff.mpr ⟨hjs, ?_⟩, ?_⟩
          · rw [hrun]
            cases side <;> exact hop
          · rw [StepSystem.run_snoc, hrun]
            cases side <;> rfl

/-- The exception of the receiver needs more bytes than tell old duplicates apart. -/
theorem not_small_of_threw {cfgA cfgB : TCPConfig} {randomA randomB : UInt32}
    {js : List (Side × TCPConnection.Op)}
    (hjs : StepSystem.Guarded step Allowed (new cfgA cfgB randomA randomB) js) {n : Network}
    (hn : StepSystem.run step (new cfgA cfgB randomA randomB) js = n) (side : Side) {y : Endpoint}
    (h : Endpoint.Threw (n.endpoint side.other) (n.endpoint side) y) :
    ¬(n.replace side y).Small := by
  obtain ⟨z, hcalls, seg, hseg, hthrows, rfl⟩ := h
  obtain ⟨ks, hks, hrun⟩ := n.guarded_of_calls side hcalls
  rw [← hn] at hks
  intro hsmall
  have hgrows := (z.accepted_prefix_step (.segmentReceived seg)).length_le
  have hbefore : (n.replace side z).Small := by
    cases side with
    | a => exact ⟨hgrows.trans_lt hsmall.1, hsmall.2⟩
    | b => exact ⟨hsmall.1, hgrows.trans_lt hsmall.2⟩
  have hjoined := joined (hjs.append hks) (by rw [StepSystem.run_append, hn, hrun]; exact hbefore)
  rw [StepSystem.run_append, hn, hrun] at hjoined
  cases side with
  | a => exact Bool.false_ne_true ((hjoined.2.not_throws hsmall.2 hseg).symm.trans hthrows)
  | b => exact Bool.false_ne_true ((hjoined.1.not_throws hsmall.1 hseg).symm.trans hthrows)

end Network

structure SocketNetwork (α : Type) where
  a : TCPSpongeSocket α
  b : TCPSpongeSocket α

namespace SocketNetwork

variable {α δ ω : Type} [FdAdapter α δ ω]

/-- A step of one side. -/
def step (n : SocketNetwork α) : Side × TCPSpongeSocket.Op δ → SocketNetwork α
  | (.a, op) => { n with a := n.a.step op }
  | (.b, op) => { n with b := n.b.step op }

/-- The two connections. -/
def connections (n : SocketNetwork α) : Network := ⟨n.a.thread.tcp, n.b.thread.tcp⟩

variable [LawfulFdAdapter α]

def Allowed (n : SocketNetwork α) : Side × TCPSpongeSocket.Op δ → Prop
  | (.a, op) => n.b.Honest n.a op
  | (.b, op) => n.a.Honest n.b op

instance (outs : List (Address × Bytes)) (s : TCPThread TCPOverUDPSocketAdapter) :
    DecidablePred (s.Honest outs)
  | .ready revents input =>
      inferInstanceAs (Decidable
        (((∃ o ∈ outs, o.2 = input.datagram.payload) ∨
            (s.datagramAdapter.accept input.datagram).2 = none) ∧
          ((revents .pipeIn).pollHup = true → (revents .pipeIn).pollIn = false →
            s.pair.ownerClosed = true ∧ s.pair.toThread = [])))
  | .timeout | .interrupted => isTrue trivial

instance (peer s : TCPSpongeSocket TCPOverUDPSocketAdapter) : DecidablePred (peer.Honest s)
  | .turn _ _ => inferInstanceAs (Decidable (TCPThread.Honest _ _ _))
  | .write _ | .shutdownWrite | .read _ | .abort => isTrue trivial

instance (n : SocketNetwork TCPOverUDPSocketAdapter) : DecidablePred n.Allowed
  | (.a, _) => inferInstanceAs (Decidable (TCPSpongeSocket.Honest _ _ _))
  | (.b, _) => inferInstanceAs (Decidable (TCPSpongeSocket.Honest _ _ _))

/-- Few enough bytes for the connections to tell old duplicates. -/
def Small (n : SocketNetwork α) : Prop :=
  n.a.thread.pair.ownerWrote.length < 2 ^ 31 - 2 ∧ n.b.thread.pair.ownerWrote.length < 2 ^ 31 - 2

/-- The books of both, whose connections are `m`. -/
structure Matches (n : SocketNetwork α) (m : Network) : Prop where
  connections : n.connections = m
  a : n.a.Accounts
  b : n.b.Accounts

theorem Matches.small {n : SocketNetwork α} {m : Network} (h : n.Matches m) (hsmall : n.Small) :
    m.Small := by
  rw [← h.connections]
  exact ⟨h.a.ledger.books.accepted.length_le.trans_lt hsmall.1,
    h.b.ledger.books.accepted.length_le.trans_lt hsmall.2⟩

/-- A step of the sockets is matched by a few calls of the connections. -/
theorem Matches.step {n : SocketNetwork α} {m : Network} (h : n.Matches m)
    {i : Side × TCPSpongeSocket.Op δ} (hi : n.Allowed i) :
    ∃ js, StepSystem.Guarded Network.step Network.Allowed m js ∧
      (n.step i).Matches (StepSystem.run Network.step m js) := by
  obtain ⟨rfl, ha, hb⟩ := h
  obtain ⟨side, op⟩ := i
  cases side with
  | a =>
      obtain ⟨haccounts, hcalls, -⟩ := ha.step hb hi
      obtain ⟨js, hjs, hrun⟩ := n.connections.guarded_of_calls .a hcalls
      exact ⟨js, hjs, hrun.symm, haccounts, hb⟩
  | b =>
      obtain ⟨haccounts, hcalls, -⟩ := hb.step ha hi
      obtain ⟨js, hjs, hrun⟩ := n.connections.guarded_of_calls .b hcalls
      exact ⟨js, hjs, hrun.symm, ha, haccounts⟩

/-- The calls that lead to what is known of an opened socket. -/
theorem opened_matches {a b : TCPSpongeSocket α} (ha : a.Opened) (hb : b.Opened) :
    ∃ cfgA cfgB randomA randomB js,
      StepSystem.Guarded Network.step Network.Allowed (Network.new cfgA cfgB randomA randomB) js ∧
      (⟨a, b⟩ : SocketNetwork α).Matches
        (StepSystem.run Network.step (Network.new cfgA cfgB randomA randomB) js) := by
  obtain ⟨haccounts, cfgA, randomA, hA⟩ := ha.accounts
  obtain ⟨hbccounts, cfgB, randomB, hB⟩ := hb.accounts
  refine ⟨cfgA, cfgB, randomA, randomB, ?_⟩
  rcases hA with hA | hA <;> rcases hB with hB | hB
  · exact ⟨[], trivial, by rw [connections, hA, hB]; rfl, haccounts, hbccounts⟩
  · exact ⟨[(.b, .connect)], ⟨trivial, trivial⟩, by rw [connections, hA, hB]; rfl, haccounts,
      hbccounts⟩
  · exact ⟨[(.a, .connect)], ⟨trivial, trivial⟩, by rw [connections, hA, hB]; rfl, haccounts,
      hbccounts⟩
  · exact ⟨[(.a, .connect), (.b, .connect)], ⟨trivial, trivial, trivial⟩,
      by rw [connections, hA, hB]; rfl, haccounts, hbccounts⟩

theorem run_matches {a b : TCPSpongeSocket α} (ha : a.Opened) (hb : b.Opened)
    {is : List (Side × TCPSpongeSocket.Op δ)} (h : StepSystem.Guarded step Allowed ⟨a, b⟩ is) :
    ∃ cfgA cfgB randomA randomB js,
      StepSystem.Guarded Network.step Network.Allowed (Network.new cfgA cfgB randomA randomB) js ∧
      (StepSystem.run step ⟨a, b⟩ is).Matches
        (StepSystem.run Network.step (Network.new cfgA cfgB randomA randomB) js) := by
  obtain ⟨cfgA, cfgB, randomA, randomB, js, hjs, hopened⟩ := opened_matches ha hb
  obtain ⟨ks, hks, hmatches⟩ := h.simulate (R := Matches) (fun _ _ _ hR hi => hR.step hi) hopened
  refine ⟨cfgA, cfgB, randomA, randomB, js ++ ks, hjs.append hks, ?_⟩
  rw [StepSystem.run_append]
  exact hmatches

/-- A client and a server over UDP. -/
def overUdp : SocketNetwork TCPOverUDPSocketAdapter :=
  ⟨TCPSpongeSocket.initializeTcp ((Endpoint.new { fixedIsn := some ⟨0⟩ } 0).step .connect)
      { config := { source := ⟨1, 10⟩, destination := ⟨2, 20⟩ } } false,
    TCPSpongeSocket.listenAndAccept { fixedIsn := some ⟨100⟩ } 0 {} { source := ⟨2, 20⟩ } {}⟩

theorem overUdp_opened : overUdp.a.Opened ∧ overUdp.b.Opened :=
  ⟨.connect (fun _ ho => absurd ho List.not_mem_nil)
      (TCPSpongeSocket.connect_eq { fixedIsn := some ⟨0⟩ } 0 ({} : TCPOverUDPSocketAdapter)
        { source := ⟨1, 10⟩, destination := ⟨2, 20⟩ } {}),
    .listenAndAccept fun _ ho => absurd ho List.not_mem_nil⟩

/-- A turn in which these rules are ready and this payload has arrived. -/
def ready (rules : List TCPThread.RuleName) (sourceAddress : Address) (payload : Bytes)
    (h : payload.length ≤ 65507) : TCPSpongeSocket.Op ReceivedDatagram :=
  .turn (.ready (fun k => { pollIn := decide (k ∈ rules), pollOut := decide (k ∈ rules) })
    ⟨⟨sourceAddress, payload, h⟩, 1, some 1⟩) 10

/-- A turn in which these rules are ready and no datagram is read. -/
def readyWithout (rules : List TCPThread.RuleName) (sourceAddress : Address) :
    TCPSpongeSocket.Op ReceivedDatagram :=
  ready rules sourceAddress [] (Nat.zero_le _)

/-- The client's owner writes a byte and closes; the server's owner reads it. -/
def udpTransfer : List (Side × TCPSpongeSocket.Op ReceivedDatagram) :=
  [(.a, .write [7]),
    (.a, .shutdownWrite),
    (.a, readyWithout [.datagramOut] ⟨2, 20⟩),
    (.b, ready [.datagramIn] ⟨1, 10⟩
      [0, 10, 0, 20, 0, 0, 0, 0, 0, 0, 0, 0, 80, 2, 250, 0, 181, 222, 0, 0] (by decide)),
    (.b, readyWithout [.datagramOut] ⟨1, 10⟩),
    (.a, ready [.datagramIn, .pipeIn] ⟨2, 20⟩
      [0, 20, 0, 10, 0, 0, 0, 100, 0, 0, 0, 1, 80, 18, 250, 0, 181, 105, 0, 0] (by decide)),
    (.a, .turn .timeout 10),
    (.a, readyWithout [.pipeIn, .datagramOut] ⟨2, 20⟩),
    (.b, ready [.datagramIn] ⟨1, 10⟩
      [0, 10, 0, 20, 0, 0, 0, 1, 0, 0, 0, 101, 80, 16, 250, 0, 174, 106, 0, 0, 7] (by decide)),
    (.b, .turn .timeout 10),
    (.b, ready [.datagramIn] ⟨1, 10⟩
      [0, 10, 0, 20, 0, 0, 0, 2, 0, 0, 0, 101, 80, 17, 250, 0, 181, 104, 0, 0] (by decide)),
    (.b, readyWithout [.pipeOut] ⟨1, 10⟩),
    (.b, .read 1)]

/-- **Sockets refine connections.**  Every run of two sockets, over any adapters that keep their
promises and whatever the network and the kernel do within theirs, is a run of two connections to
which the network hands only what the other has emitted; and what each connection accepted and gave
out is what its owner wrote and read, up to what the pair still holds or a reset has lost. -/
theorem run_refines {a b : TCPSpongeSocket α} (ha : a.Opened) (hb : b.Opened)
    (is : List (Side × TCPSpongeSocket.Op δ)) (h : StepSystem.Guarded step Allowed ⟨a, b⟩ is) :
    let n := StepSystem.run step ⟨a, b⟩ is
    (∃ cfgA cfgB randomA randomB js,
      StepSystem.Guarded Network.step Network.Allowed (Network.new cfgA cfgB randomA randomB) js ∧
      StepSystem.run Network.step (Network.new cfgA cfgB randomA randomB) js = n.connections) ∧
    ∀ s ∈ [n.a, n.b],
      s.thread.tcp.accepted <+: s.thread.pair.ownerWrote ∧
      (s.phase.error? = none →
        s.thread.tcp.accepted ++ s.thread.pair.toThread = s.thread.pair.ownerWrote) ∧
      s.thread.tcp.popped = s.thread.pair.ownerRead ++ s.thread.pair.toOwner := by
  intro n
  obtain ⟨cfgA, cfgB, randomA, randomB, js, hjs, hmatches⟩ := run_matches ha hb h
  refine ⟨⟨cfgA, cfgB, randomA, randomB, js, hjs, hmatches.connections.symm⟩, fun s hs => ?_⟩
  have haccounts : s.Accounts := by
    rcases List.mem_cons.mp hs with rfl | hs
    · exact hmatches.a
    · rw [List.mem_singleton.mp hs]
      exact hmatches.b
  exact ⟨haccounts.ledger.books.accepted, fun hphase => (haccounts.live hphase).books.pending,
    haccounts.ledger.books.popped⟩

theorem run_refines_transfer :
    let n := StepSystem.run step overUdp udpTransfer
    n.b.thread.tcp.popped = [7] :=
  ((run_refines overUdp_opened.1 overUdp_opened.2 udpTransfer (by decide +kernel)).2 _
    (List.mem_cons_of_mem _ List.mem_cons_self)).2.2.trans (by decide +kernel)

/-- What one direction delivers to the owner. -/
theorem owner_direction {x y : TCPSpongeSocket α} (hx : x.Accounts) (hy : y.Accounts)
    (hlink : Link x.thread.tcp y.thread.tcp) :
    y.thread.pair.ownerRead <+: x.thread.pair.ownerWrote ∧
      (y.thread.inboundShutdown = true → y.thread.tcp.conn.inboundStream.error = false →
        y.thread.pair.toOwner = [] → x.thread.tcp.ended = true ∧
          y.thread.pair.ownerRead = x.thread.pair.ownerWrote) := by
  obtain ⟨hdelivered, hall⟩ := hlink.integrity
  have hpopped := hy.ledger.books.popped
  refine ⟨?_, fun hshut herror hnil => ?_⟩
  · have hread : y.thread.pair.ownerRead <+: y.thread.tcp.delivered := by
      rw [Endpoint.delivered, hpopped, List.append_assoc]
      exact List.prefix_append _ _
    exact (hread.trans hdelivered).trans hx.ledger.books.accepted
  · have heof := (hy.ledger.shut hshut).resolve_right (by simp [herror])
    obtain ⟨hended, hempty⟩ := ByteStream.eof_iff.mp heof
    obtain ⟨hclosed, hdelivered⟩ := hall hended
    have haccepted := (hx.ledger.books.ended hclosed).2
    refine ⟨hclosed, ?_⟩
    rw [Endpoint.delivered, hempty, List.append_nil, hpopped, hnil, List.append_nil] at hdelivered
    exact hdelivered.trans haccepted

/-- **From owner to owner.**  Over every run of two sockets whose owners write fewer than
`2 ^ 31 - 2` bytes each, what either owner reads is a prefix of what the other wrote; and if the
thread has shut its end of the pair without an error and the owner has read everything, the other
owner has closed and it was all that the other wrote. -/
theorem owner_integrity {a b : TCPSpongeSocket α} (ha : a.Opened) (hb : b.Opened)
    (is : List (Side × TCPSpongeSocket.Op δ)) (h : StepSystem.Guarded step Allowed ⟨a, b⟩ is)
    (hsmall : (StepSystem.run step ⟨a, b⟩ is).Small) :
    let n := StepSystem.run step ⟨a, b⟩ is
    (n.b.thread.pair.ownerRead <+: n.a.thread.pair.ownerWrote ∧
      (n.b.thread.inboundShutdown = true → n.b.thread.tcp.conn.inboundStream.error = false →
        n.b.thread.pair.toOwner = [] → n.a.thread.pair.ownerClosed = true ∧
          n.b.thread.pair.ownerRead = n.a.thread.pair.ownerWrote)) ∧
    (n.a.thread.pair.ownerRead <+: n.b.thread.pair.ownerWrote ∧
      (n.a.thread.inboundShutdown = true → n.a.thread.tcp.conn.inboundStream.error = false →
        n.a.thread.pair.toOwner = [] → n.b.thread.pair.ownerClosed = true ∧
          n.a.thread.pair.ownerRead = n.b.thread.pair.ownerWrote)) := by
  obtain ⟨cfgA, cfgB, randomA, randomB, js, hjs, hmatches⟩ := run_matches ha hb h
  have hjoined := Network.joined hjs (hmatches.small hsmall)
  rw [← hmatches.connections] at hjoined
  obtain ⟨hread, hall⟩ := owner_direction hmatches.a hmatches.b hjoined.1
  obtain ⟨hread', hall'⟩ := owner_direction hmatches.b hmatches.a hjoined.2
  refine ⟨⟨hread, fun hshut herror hnil => ?_⟩, hread', fun hshut herror hnil => ?_⟩
  · exact (hall hshut herror hnil).imp_left fun hend => (hmatches.a.ledger.books.ended hend).1
  · exact (hall' hshut herror hnil).imp_left fun hend => (hmatches.b.ledger.books.ended hend).1

theorem owner_integrity_transfer :
    let n := StepSystem.run step overUdp udpTransfer
    n.a.thread.pair.ownerClosed = true ∧ n.b.thread.pair.ownerRead = n.a.thread.pair.ownerWrote :=
  (owner_integrity overUdp_opened.1 overUdp_opened.2 udpTransfer (by decide +kernel)
    ⟨by decide +kernel, by decide +kernel⟩).1.2 (by decide +kernel) (by decide +kernel)
    (by decide +kernel)

/-- A run of the connections of `start` leads to `n`, and if it accepted few bytes then no exception of
a receiver has stopped a socket. -/
def Unthrown (start : Network) (n : SocketNetwork α) : Prop :=
  ∃ js, StepSystem.Guarded Network.step Network.Allowed start js ∧
    n.Matches (StepSystem.run Network.step start js) ∧
    (n.connections.Small → ¬n.a.Threw ∧ ¬n.b.Threw)

theorem Unthrown.step {cfgA cfgB : TCPConfig} {randomA randomB : UInt32} {n : SocketNetwork α}
    (h : Unthrown (Network.new cfgA cfgB randomA randomB) n)
    {i : Side × TCPSpongeSocket.Op δ} (hi : n.Allowed i) :
    Unthrown (Network.new cfgA cfgB randomA randomB) (n.step i) := by
  obtain ⟨js, hjs, hmatches, hnone⟩ := h
  obtain ⟨ks, hks, hnext⟩ := hmatches.step hi
  refine ⟨js ++ ks, hjs.append hks, by rwa [StepSystem.run_append], fun hafter => ?_⟩
  have hbefore := hnone (by
    rw [hmatches.connections]
    exact Network.small_of_run (hnext.connections ▸ hafter))
  obtain ⟨side, op⟩ := i
  cases side with
  | a =>
      refine ⟨fun hthrew => ?_, hbefore.2⟩
      rcases (hmatches.a.step hmatches.b hi).2.2 hthrew with hold | hnew
      · exact hbefore.1 hold
      · exact Network.not_small_of_threw hjs hmatches.connections.symm .a hnew hafter
  | b =>
      refine ⟨hbefore.1, fun hthrew => ?_⟩
      rcases (hmatches.b.step hmatches.a hi).2.2 hthrew with hold | hnew
      · exact hbefore.2 hold
      · exact Network.not_small_of_threw hjs hmatches.connections.symm .b hnew hafter

/-- While the owners have written few bytes no exception of a receiver stops a socket. -/
theorem run_not_threw {a b : TCPSpongeSocket α} (ha : a.Opened) (hb : b.Opened)
    {is : List (Side × TCPSpongeSocket.Op δ)} (h : StepSystem.Guarded step Allowed ⟨a, b⟩ is)
    (hsmall : (StepSystem.run step ⟨a, b⟩ is).Small) :
    ¬(StepSystem.run step ⟨a, b⟩ is).a.Threw ∧ ¬(StepSystem.run step ⟨a, b⟩ is).b.Threw := by
  obtain ⟨cfgA, cfgB, randomA, randomB, js, hjs, hopened⟩ := opened_matches ha hb
  obtain ⟨ks, -, hmatches, hnone⟩ :=
    h.invariant (P := Unthrown (Network.new cfgA cfgB randomA randomB))
      (fun _ _ hi hn => hn.step hi) ⟨js, hjs, hopened, fun _ => ⟨ha.not_threw, hb.not_threw⟩⟩
  exact hnone (hmatches.connections ▸ hmatches.small hsmall)

/-- **What can stop a socket.**  Over every run of two sockets, a thread dies only of an error that
the kernel reports, of a descriptor, a read or a write, of a connection that accepts less than it
advertised, and then the connection is in RESET, or of the exception of the reassembler, and then the
owners have written too many bytes to tell old duplicates apart; it never dies of a busy wait, in its
adapter, or of a read that returns too much. -/
theorem thread_survives {a b : TCPSpongeSocket α} (ha : a.Opened) (hb : b.Opened)
    (is : List (Side × TCPSpongeSocket.Op δ)) (h : StepSystem.Guarded step Allowed ⟨a, b⟩ is)
    (e : EventLoop.Error TCPThread.Exception) :
    let n := StepSystem.run step ⟨a, b⟩ is
    (n.a.phase = .died e → n.a.thread.Explains e ∧ (e = .callback .segmentReceived → ¬n.Small)) ∧
      (n.b.phase = .died e →
        n.b.thread.Explains e ∧ (e = .callback .segmentReceived → ¬n.Small)) := by
  intro n
  obtain ⟨cfgA, cfgB, randomA, randomB, js, -, hmatches⟩ := run_matches ha hb h
  refine ⟨fun hdied => ⟨hmatches.a.explains hdied, ?_⟩,
    fun hdied => ⟨hmatches.b.explains hdied, ?_⟩⟩
  · rintro rfl hsmall
    exact (run_not_threw ha hb h hsmall).1 hdied
  · rintro rfl hsmall
    exact (run_not_threw ha hb h hsmall).2 hdied

/-- The server gives up on its SYN, and its RST arrives while the client's owner has a byte for it. -/
def udpReset : List (Side × TCPSpongeSocket.Op ReceivedDatagram) :=
  [(.a, .write [7]),
    (.a, readyWithout [.datagramOut] ⟨2, 20⟩),
    (.b, ready [.datagramIn] ⟨1, 10⟩
      [0, 10, 0, 20, 0, 0, 0, 0, 0, 0, 0, 0, 80, 2, 250, 0, 181, 222, 0, 0] (by decide))] ++
  (List.range 9).map (fun k => (.b, .turn .timeout (1000 * 2 ^ k))) ++
  [(.b, .turn .timeout 10),
    (.b, readyWithout [.datagramOut] ⟨1, 10⟩),
    (.a, ready [.datagramIn, .pipeIn] ⟨2, 20⟩
      [0, 20, 0, 10, 0, 0, 0, 100, 0, 0, 0, 0, 80, 6, 0, 0, 175, 119, 0, 0] (by decide))]

theorem thread_survives_reset :
    let n := StepSystem.run step overUdp udpReset
    n.a.phase = .died (.callback .acceptedLess) ∧
      n.a.thread.tcp.conn.state = TCPState.ofState .reset :=
  ⟨by decide +kernel, (thread_survives overUdp_opened.1 overUdp_opened.2 udpReset
    (by decide +kernel) (.callback .acceptedLess)).1 (by decide +kernel) |>.1⟩

end SocketNetwork

end CourseNet
