import CourseNet.SocketInvariant

/-!
# Messages reach only their addressee

The MESSAGE branch looks the target socket up under the lock and sends after releasing it.  As long
as no connection is accepted on a descriptor that is looked up in this way, every SIGNAL goes to a
connection that CONNECT gave the id to; without that condition the descriptor may be closed and
given to a stranger in between.
-/

namespace CourseNet

namespace SocketServer

/-- What the entries, the lookups and the SIGNALs of a run have in common: the connection behind the
socket was given the id. -/
structure Addressed (s : Server) (log : List Obs) : Prop where
  entry : ∀ {sock id}, s.clients.find? sock = some id → 0 < id →
    ∃ c, s.descriptors.find? sock = some c ∧ Obs.assigned c id ∈ log
  forward : ∀ {c t targetSock srcid targetId content}, s.threads.find? c = some t →
    t.pc = .forward targetSock srcid targetId content → 0 < targetId →
    ∀ peer, s.descriptors.find? targetSock = some peer → Obs.assigned peer targetId ∈ log
  signalled : ∀ {conn sock peer targetId payload},
    Obs.signalled conn sock (some peer) targetId payload ∈ log → 0 < targetId →
    Obs.assigned peer targetId ∈ log

/-- The socket found holds the id. -/
theorem find?_of_findTarget {clients : SortedMap ℕ ℤ} {targetId : ℤ} {sock : ℕ}
    (h : findTarget clients targetId = some sock) : clients.find? sock = some targetId := by
  obtain ⟨⟨sock', id⟩, hfind, rfl⟩ := Option.map_eq_some_iff.mp h
  have hid : id = targetId := by simpa using List.find?_some hfind
  rw [SortedMap.find?_eq_some, ← hid]
  exact List.mem_of_find?_eq_some hfind

/-- Only a thread that is about to forward signals, and to the connection then behind the socket. -/
theorem signalled_of_threadStep {s : Server} {conn c : ℕ} {t : Thread} {text payload : Bytes}
    {sock : ℕ} {peer : Option ℕ} {targetId : ℤ}
    (h : Obs.signalled c sock peer targetId payload ∈ (threadStep s conn t text).2) :
    (∃ srcid content, t.pc = .forward sock srcid targetId content) ∧
      peer = s.descriptors.find? sock := by
  unfold threadStep at h
  cases hpc : t.pc with
  | ready =>
      rw [hpc] at h
      dsimp only at h
      split at h
      · exact absurd h List.not_mem_nil
      · rcases List.mem_cons.mp h with heq | h
        · cases heq
        · obtain ⟨id, heq⟩ := obs_of_handle _ _ _ _ h
          cases heq
  | reply p =>
      rw [hpc] at h
      cases List.mem_singleton.mp h
  | locate srcid target k content =>
      rw [hpc] at h
      dsimp only at h
      split at h <;> exact absurd h List.not_mem_nil
  | forward targetSock srcid k content =>
      rw [hpc] at h
      obtain ⟨-, rfl, rfl, rfl, -⟩ := Obs.signalled.inj (List.mem_singleton.mp h)
      exact ⟨⟨srcid, content, rfl⟩, rfl⟩
  | remove =>
      rw [hpc] at h
      exact absurd h List.not_mem_nil
  | closing =>
      rw [hpc] at h
      exact absurd h List.not_mem_nil
  | finished =>
      rw [hpc] at h
      exact absurd h List.not_mem_nil
  | thrown =>
      rw [hpc] at h
      exact absurd h List.not_mem_nil

/-- No connection is accepted on a descriptor that a thread has looked up for a SIGNAL which it has
not sent yet. -/
def NoHandover (r : Run) : Event → Prop
  | .accept sock => ∀ e ∈ r.server.threads.entries, e.2.pc.targetSock? ≠ some sock
  | _ => True

instance (r : Run) : DecidablePred (NoHandover r)
  | .accept _ => inferInstanceAs (Decidable (∀ _ ∈ _, _))
  | .acceptor _ => isTrue trivial
  | .recv _ _ => isTrue trivial
  | .act _ _ => isTrue trivial
  | .brokenPipe _ => isTrue trivial

namespace Addressed

variable {s : Server} {log : List Obs} {conn sock : ℕ} {t : Thread}

theorem new : Addressed Server.new [] := ⟨nofun, nofun, nofun⟩

/-- A step that says nothing and changes no thread that forwards. -/
theorem quiet (h : Addressed s log) {s' : Server} (hclients : s'.clients = s.clients)
    (hdesc : s'.descriptors = s.descriptors)
    (hthreads : ∀ {c t}, s'.threads.find? c = some t → t.pc.targetSock? ≠ none →
      s.threads.find? c = some t) : Addressed s' log where
  entry hid hpos := by
    rw [hclients] at hid
    rw [hdesc]
    exact h.entry hid hpos
  forward ht hpc hpos peer hpeer := by
    rw [hdesc] at hpeer
    exact h.forward (hthreads ht (by rw [hpc]; nofun)) hpc hpos peer hpeer
  signalled := h.signalled

theorem accept (h : Addressed s log) (hfree : s.descriptors.find? sock = none)
    (hlooked : ∀ e ∈ s.threads.entries, e.2.pc.targetSock? ≠ some sock) :
    Addressed { s with
      descriptors := s.descriptors.assign sock s.connections
      connections := s.connections + 1
      acceptor := .accepted sock s.connections } log where
  entry hid hpos := by
    obtain ⟨c, hc, hassigned⟩ := h.entry hid hpos
    refine ⟨c, (SortedMap.find?_assign _ _ _ _).trans ((if_neg ?_).trans hc), hassigned⟩
    rintro rfl
    rw [hfree] at hc
    cases hc
  forward ht hpc hpos peer hpeer := by
    have hne := hlooked _ (SortedMap.find?_eq_some.mp ht)
    rw [hpc] at hne
    have hpeer := (SortedMap.find?_assign _ _ _ _).symm.trans hpeer
    rw [if_neg fun heq => hne (congrArg some heq)] at hpeer
    exact h.forward ht hpc hpos peer hpeer
  signalled := h.signalled

theorem acceptorStep (h : Addressed s log) (howned : Owned s) (created : Bool) :
    Addressed (SocketServer.acceptorStep s created) log := by
  unfold SocketServer.acceptorStep
  cases hacc : s.acceptor with
  | accepting => exact h
  | accepted sock conn =>
      refine ⟨fun {k id} hid hpos => ?_, h.forward, h.signalled⟩
      have hid := (SortedMap.find?_assign _ _ _ _).symm.trans hid
      split at hid
      · exact absurd (Option.some.inj hid) hpos.ne
      · exact h.entry hid hpos
  | registered sock conn =>
      dsimp only
      split
      · refine h.quiet rfl rfl fun {c t} ht hpc => ?_
        have ht := (SortedMap.find?_assign _ _ _ _).symm.trans ht
        split at ht
        · obtain rfl := Option.some.inj ht
          exact absurd rfl hpc
        · exact ht
      · exact h.quiet rfl rfl fun ht _ => ht
  | removing sock conn =>
      refine ⟨fun {k id} hid hpos => ?_, h.forward, h.signalled⟩
      have hid := (SortedMap.find?_erase _ _ _).symm.trans hid
      split at hid
      · cases hid
      · exact h.entry hid hpos
  | closing sock conn =>
      refine ⟨fun {k id} hid hpos => ?_, fun ht hpc hpos peer hpeer => ?_, h.signalled⟩
      · obtain ⟨c, hc, hassigned⟩ := h.entry hid hpos
        refine ⟨c, (SortedMap.find?_erase _ _ _).trans ((if_neg ?_).trans hc), hassigned⟩
        rintro rfl
        rw [howned.heldClosing hacc] at hid
        cases hid
      · have hpeer := (SortedMap.find?_erase _ _ _).symm.trans hpeer
        split at hpeer
        · cases hpeer
        · exact h.forward ht hpc hpos peer hpeer

/-- What is added to the log, if every SIGNAL in it has its addressee. -/
theorem grow (h : Addressed s log) {obs : List Obs}
    (hobs : ∀ {c k peer targetId payload}, Obs.signalled c k (some peer) targetId payload ∈ obs →
      0 < targetId → Obs.assigned peer targetId ∈ log) : Addressed s (log ++ obs) where
  entry hid hpos := by
    obtain ⟨c, hc, hassigned⟩ := h.entry hid hpos
    exact ⟨c, hc, List.mem_append_left _ hassigned⟩
  forward ht hpc hpos peer hpeer := List.mem_append_left _ (h.forward ht hpc hpos peer hpeer)
  signalled hmem hpos := by
    rcases List.mem_append.mp hmem with hmem | hmem
    · exact List.mem_append_left _ (h.signalled hmem hpos)
    · exact List.mem_append_left _ (hobs hmem hpos)

theorem recvStep (h : Addressed s log) (hwaits : t.Waits) (chunk : Bytes) :
    Addressed (SocketServer.recvStep s conn t chunk).1
      (log ++ (SocketServer.recvStep s conn t chunk).2) := by
  have hnone : (t.afterRecv chunk).pc.targetSock? = none := by
    unfold Thread.afterRecv
    split
    · rfl
    · exact congrArg Pc.targetSock? hwaits.1
  have hquiet : Addressed (SocketServer.recvStep s conn t chunk).1 log :=
    h.quiet rfl rfl fun {c u} hu hpc => by
      have hu := (SortedMap.find?_assign _ _ _ _).symm.trans hu
      split at hu
      · rw [← Option.some.inj hu] at hpc
        exact absurd hnone hpc
      · exact hu
  -- what is received is no SIGNAL
  refine hquiet.grow fun hmem => ?_
  cases List.mem_singleton.mp hmem

/-- A move of the thread on `sock`: its own entry and its own lookup are left to show. -/
theorem moves (h : Addressed s log) {s' : Server} {t' : Thread} (hm : Moves s conn sock t' s')
    (hentry : ∀ {id}, s'.clients.find? sock = some id → 0 < id →
      ∃ c, s'.descriptors.find? sock = some c ∧ Obs.assigned c id ∈ log)
    (hdesc : ∀ {k peer}, s'.descriptors.find? k = some peer → s.descriptors.find? k = some peer)
    (hlookup : ∀ {targetSock srcid targetId content},
      t'.pc = .forward targetSock srcid targetId content →
        s.clients.find? targetSock = some targetId) : Addressed s' log where
  entry {k id} hid hpos := by
    by_cases hk : k = sock
    · rw [hk] at hid ⊢
      exact hentry hid hpos
    · rw [hm.clients k hk] at hid
      rw [hm.descriptors k hk]
      exact h.entry hid hpos
  forward {c u _ _ _ _} hu hpc hpos peer hpeer := by
    have hpeer := hdesc hpeer
    rw [hm.threads, SortedMap.find?_assign] at hu
    split at hu
    · rw [← Option.some.inj hu] at hpc
      obtain ⟨c, hc, hassigned⟩ := h.entry (hlookup hpc) hpos
      rw [hc] at hpeer
      exact Option.some.inj hpeer ▸ hassigned
    · exact h.forward hu hpc hpos peer hpeer
  signalled := h.signalled

/-- A step of a thread; `more` is what the observer adds. -/
theorem threadStep (h : Addressed s log) (howned : Owned s) (ht : s.threads.find? conn = some t)
    (text : Bytes) (more : List Obs) (hmore : ∀ o ∈ more, o = .changed conn) :
    Addressed (SocketServer.threadStep s conn t text).1
      (log ++ ((SocketServer.threadStep s conn t text).2 ++ more)) := by
  -- the SIGNAL of the step, if any, goes where the invariant says
  have hgrown : Addressed s (log ++ ((SocketServer.threadStep s conn t text).2 ++ more)) := by
    refine h.grow fun hmem hpos => ?_
    rcases List.mem_append.mp hmem with hmem | hmem
    · obtain ⟨⟨srcid, content, hpc⟩, hpeer⟩ := signalled_of_threadStep hmem
      exact h.forward ht hpc hpos _ hpeer.symm
    · cases hmore _ hmem
  rcases threadStep_cases s conn t text with hsame | ⟨t', hm, hcases⟩
  · rw [hsame] at hgrown ⊢
    exact hgrown
  · refine hgrown.moves hm ?_ ?_ ?_
    all_goals rcases hcases with ⟨hbefore, -, hstays, hfound⟩ | ⟨-, hpc', hclients, hdesc⟩ |
      ⟨hpc, hpc', hclients, hdesc⟩
    -- the entry of the thread's own socket
    · intro id hid hpos
      rw [hstays.descriptors]
      rcases hstays.id id hid with hid | rfl | hnew
      · exact hgrown.entry hid hpos
      · exact absurd hpos (lt_irrefl _)
      · exact ⟨conn, howned.thread ht hbefore.2,
          List.mem_append_right _ (List.mem_append_left _ hnew)⟩
    · intro id hid
      rw [hclients, SortedMap.find?_erase, if_pos rfl] at hid
      cases hid
    · intro id hid
      rw [hclients, howned.closing ht hpc] at hid
      cases hid
    -- no descriptor is handed out
    · intro k peer hpeer
      exact hstays.descriptors ▸ hpeer
    · intro k peer hpeer
      exact hdesc ▸ hpeer
    · intro k peer hpeer
      rw [hdesc, SortedMap.find?_erase] at hpeer
      split at hpeer
      · cases hpeer
      · exact hpeer
    -- a lookup finds an entry
    · intro _ _ _ _ hfwd
      exact find?_of_findTarget (hfound _ _ _ _ hfwd)
    · intro _ _ _ _ hfwd
      rw [hpc'] at hfwd
      cases hfwd
    · intro _ _ _ _ hfwd
      rw [hpc'] at hfwd
      cases hfwd

/-- Every event that hands no looked-up descriptor over keeps the invariant. -/
theorem step {r : Run} (h : Addressed r.server r.log) (howned : Owned r.server) {e : Event}
    (hok : NoHandover r e) : Addressed (r.step e).server (r.step e).log := by
  have hstep := r.stepOf e
  generalize r.step e = r' at hstep
  cases hstep with
  | idle => exact h
  | accept halive hacceptor hfree => exact h.accept hfree hok
  | acceptor halive => exact h.acceptorStep howned _
  | recv halive ht hwaits => exact h.recvStep hwaits _
  | act halive ht => exact h.threadStep howned ht _ _ fun o ho => conn_of_changes ho
  | brokenPipe halive ht hsends => exact { h with }

end Addressed

/-- **Messages reach only their addressee.**  In every interleaving in which no connection is
accepted on a descriptor that a thread has looked up for a SIGNAL still to be sent, every SIGNAL for
a positive id is written to a connection that CONNECT assigned that id to, or to no connection. -/
theorem signals_reach_addressee (es : List Event)
    (hes : StepSystem.Guarded Run.step NoHandover Run.new es) (conn sock peer : ℕ) (targetId : ℤ)
    (payload : Bytes)
    (hmem : Obs.signalled conn sock (some peer) targetId payload ∈
      (StepSystem.run Run.step Run.new es).log)
    (hpos : 0 < targetId) :
    Obs.assigned peer targetId ∈ (StepSystem.run Run.step Run.new es).log := by
  have hinv : Owned (StepSystem.run Run.step Run.new es).server ∧
      Addressed (StepSystem.run Run.step Run.new es).server
        (StepSystem.run Run.step Run.new es).log :=
    StepSystem.Guarded.invariant (P := fun r : Run => Owned r.server ∧ Addressed r.server r.log)
      (fun _ e hok h => ⟨h.1.step e, h.2.step h.1 hok⟩) hes ⟨Owned.new, Addressed.new⟩
  exact hinv.2.signalled hmem hpos

/-- Two clients connect on the descriptors 4 and 5, and the first sends `2$hi`. -/
def twoClients : List Event :=
  [.accept 4, .acceptor true, .acceptor true, .accept 5, .acceptor true, .acceptor true,
    .recv 0 [1, 0, 0], .act 0 [], .act 0 [], .recv 1 [1, 0, 0], .act 1 [], .act 1 [],
    .recv 0 [6, 0, 4, 50, 36, 104, 105], .act 0 [], .act 0 []]

/-- The SIGNAL `1$hi` goes to the second client, who holds the id 2. -/
theorem signals_reach_addressee_two :
    let r := StepSystem.run Run.step Run.new (twoClients ++ [.act 0 []])
    Obs.signalled 0 5 (some 1) 2 [49, 36, 104, 105] ∈ r.log ∧ Obs.assigned 1 2 ∈ r.log := by
  have hmem : Obs.signalled 0 5 (some 1) 2 [49, 36, 104, 105] ∈
      (StepSystem.run Run.step Run.new (twoClients ++ [.act 0 []])).log := by decide +kernel
  exact ⟨hmem, signals_reach_addressee _ (by decide +kernel) 0 5 1 2 _ hmem (by decide)⟩

/-- The second client disconnects between the lookup and the SIGNAL and a third one is accepted on
its descriptor: the third client, who has no id, gets the message. -/
theorem signal_reaches_stranger :
    let r := StepSystem.run Run.step Run.new
      (twoClients ++ [.recv 1 [], .act 1 [], .act 1 [], .accept 5, .act 0 []])
    Obs.signalled 0 5 (some 2) 2 [49, 36, 104, 105] ∈ r.log ∧ Obs.assigned 2 2 ∉ r.log := by
  decide +kernel

end SocketServer

end CourseNet
