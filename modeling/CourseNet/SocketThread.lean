import CourseNet.SocketInvariant

/-!
# One client thread among many

`own` is what a run shows of one thread.  A property of a thread and of its own log that its own
steps keep, whatever the shared state, holds in every run (`thread_run`): the other threads and the
accept loop neither move the thread nor write into its log.
-/

namespace CourseNet

namespace SocketServer

/-- The connection whose thread is observed. -/
def Obs.conn : Obs → ℕ
  | .received conn _ => conn
  | .extracted conn _ => conn
  | .assigned conn _ => conn
  | .replied conn _ _ _ => conn
  | .signalled conn _ _ _ _ => conn
  | .changed conn => conn

/-- What the observer saw of one thread. -/
def own (conn : ℕ) (log : List Obs) : List Obs := log.filter fun o => decide (o.conn = conn)

/-! ### The steps of one thread -/

/-- The exception of `std::stoi` in the MESSAGE branch. -/
def throws (p : Packet) : Bool :=
  p.kind == PacketType.message && (parseMessage 0 p.payload).isNone

/-- The loop body neither returns nor throws on the packet. -/
def goesOn (p : Packet) : Bool := p.kind != PacketType.disconnect && !throws p

/-- The thread still goes round its loop. -/
def Pc.runs : Pc → Bool
  | .remove => false
  | .closing => false
  | .finished => false
  | .thrown => false
  | _ => true

/-- Neither the arrival of bytes nor that of a packet. -/
def Obs.isEffect : Obs → Bool
  | .received _ _ => false
  | .extracted _ _ => false
  | _ => true

/-- The thread is about to answer with INVALID, or to look for a target that is no integer. -/
def Pc.Refuses : Pc → Prop
  | .reply q => q.kind = PacketType.invalid
  | .locate _ target _ _ => DecimalText.decimal? target = none
  | _ => False

/-- What a thread does in one step, and what it shows. -/
inductive ThreadMove (s : Server) (c : ℕ) (t : Thread) : Thread → List Obs → Prop
  | rests (h : t.Waits ∨ t.pc = .finished ∨ t.pc = .thrown) : ThreadMove s c t t []
  | takes {p : Packet} {rest : Bytes} {pc : Pc} {obs : List Obs} (hpc : t.pc = .ready)
      (hsplit : Framing.split? t.recvBuffer = some (p, rest)) (hobs : ∀ o ∈ obs, o.isEffect = true)
      (hflow : pc.runs = goesOn p)
      (hrefuse : IllFormed p → throws p = false → (s.clients.find? t.sock).isSome →
        obs = [] ∧ pc.Refuses) :
      ThreadMove s c t ⟨t.sock, rest, pc⟩ (.extracted c p :: obs)
  | replies {q : Packet} (hpc : t.pc = .reply q) :
      ThreadMove s c t { t with pc := .ready }
        [.replied c t.sock (s.descriptors.find? t.sock) q]
  | misses {srcid targetId : ℤ} {target content : Bytes}
      (hpc : t.pc = .locate srcid target targetId content)
      (hfind : findTarget s.clients targetId = none) :
      ThreadMove s c t
        { t with pc := .reply ⟨PacketType.invalid, ascii "Target not found"⟩ } []
  | finds {srcid targetId : ℤ} {target content : Bytes} {sock : ℕ}
      (hpc : t.pc = .locate srcid target targetId content)
      (hfind : findTarget s.clients targetId = some sock) :
      ThreadMove s c t { t with pc := .forward sock srcid targetId content } []
  | forwards {srcid targetId : ℤ} {content payload : Bytes} {sock : ℕ}
      (hpc : t.pc = .forward sock srcid targetId content) :
      ThreadMove s c t
        { t with pc := .reply ⟨PacketType.message, ascii "Message Sending Success"⟩ }
        [.signalled c sock (s.descriptors.find? sock) targetId payload]
  | removes {obs : List Obs} (hpc : t.pc = .remove) (hobs : ∀ o ∈ obs, o.isEffect = true) :
      ThreadMove s c t { t with pc := .closing } obs
  | closes (hpc : t.pc = .closing) : ThreadMove s c t { t with pc := .finished } []

/-- Whether a payload parses does not depend on the sender's id. -/
theorem parseMessage_isSome (srcid : ℤ) (payload : Bytes) :
    (parseMessage srcid payload).isSome = (parseMessage 0 payload).isSome := by
  unfold parseMessage
  cases splitMessage payload with
  | none => rfl
  | some r =>
      dsimp only
      cases DecimalText.stoi r.1 with
      | ok targetId => rfl
      | error e => rfl

theorem runs_of_parseMessage {srcid : ℤ} {payload : Bytes} {pc : Pc}
    (h : parseMessage srcid payload = some pc) : pc.runs = true := by
  unfold parseMessage at h
  split at h
  · obtain rfl := Option.some.inj h
    rfl
  · split at h
    · obtain rfl := Option.some.inj h
      rfl
    · cases h

/-- What an ill-formed MESSAGE that does not throw leads to. -/
theorem refuses_of_parseMessage {p : Packet} (hill : IllFormed p) {srcid : ℤ} {pc : Pc}
    (h : parseMessage srcid p.payload = some pc) : pc.Refuses := by
  unfold parseMessage at h
  split at h
  · obtain rfl := Option.some.inj h
    rfl
  · rename_i target content hsplit
    split at h
    · obtain rfl := Option.some.inj h
      exact hill.2 target content hsplit
    · cases h

/-- A packet that is no MESSAGE does not throw; only a DISCONNECT ends the loop. -/
theorem flow_of_quiet {s s' : Server} {conn : ℕ} {t : Thread} {p : Packet} {pc : Pc}
    {obs : List Obs} (hkind : p.kind ≠ PacketType.message)
    (hthreads : s'.threads = s.threads.assign conn { t with pc := pc })
    (hcrashed : s'.crashed = s.crashed) (hruns : pc.runs = (p.kind != PacketType.disconnect)) :
    ∃ pc : Pc, s'.threads = s.threads.assign conn { t with pc := pc } ∧
      pc.runs = goesOn p ∧ s'.crashed = (s.crashed || throws p) ∧
      (IllFormed p → throws p = false → (s.clients.find? t.sock).isSome →
        (obs = [] ∧ s'.clients = s.clients) ∧ pc.Refuses) := by
  have hthrow : throws p = false := by rw [throws, beq_eq_false_iff_ne.mpr hkind, Bool.false_and]
  refine ⟨pc, hthreads, ?_, ?_, fun hill => absurd hill.1 hkind⟩
  · rw [goesOn, hthrow, Bool.not_false, Bool.and_true]
    exact hruns
  · rw [hthrow, Bool.or_false]
    exact hcrashed

/-- Where a packet leaves its thread. -/
theorem handle_flow (s : Server) (conn : ℕ) (t : Thread) (p : Packet) (text : Bytes) :
    ∃ pc : Pc, (handle s conn t p text).1.threads = s.threads.assign conn { t with pc := pc } ∧
      pc.runs = goesOn p ∧ (handle s conn t p text).1.crashed = (s.crashed || throws p) ∧
      (IllFormed p → throws p = false → (s.clients.find? t.sock).isSome →
        ((handle s conn t p text).2 = [] ∧
          (handle s conn t p text).1.clients = s.clients) ∧ pc.Refuses) := by
  unfold handle
  dsimp only
  split
  · rename_i hk
    exact flow_of_quiet (by rw [hk]; decide) rfl rfl (by rw [hk]; rfl)
  split
  · rename_i hk
    exact flow_of_quiet (by rw [hk]; decide) rfl rfl (by rw [hk]; rfl)
  split
  · rename_i hk
    exact flow_of_quiet (by rw [hk]; decide) rfl rfl (by rw [hk]; rfl)
  split
  · rename_i hk
    exact flow_of_quiet (by rw [hk]; decide) rfl rfl (by rw [hk]; rfl)
  split
  · rename_i hk
    have hthrows : throws p = (parseMessage 0 p.payload).isNone := by
      rw [throws, hk]
      rfl
    have hgoes : goesOn p = (parseMessage 0 p.payload).isSome := by
      rw [goesOn, hthrows, hk, Option.not_isNone]
      rfl
    have hsame := parseMessage_isSome (index s.clients t.sock).1 p.payload
    cases hparse : parseMessage (index s.clients t.sock).1 p.payload with
    | some pc =>
        rw [hparse] at hsame
        refine ⟨pc, rfl, ?_, ?_, fun hill _ hlisted =>
          ⟨⟨rfl, index_eq_self hlisted⟩, refuses_of_parseMessage hill hparse⟩⟩
        · rw [hgoes, ← hsame, runs_of_parseMessage hparse]
          rfl
        · rw [hthrows, ← Option.not_isSome, ← hsame]
          exact (Bool.or_false _).symm
    | none =>
        rw [hparse] at hsame
        have hthrow : throws p = true := by
          rw [hthrows, ← Option.not_isSome, ← hsame]
          rfl
        refine ⟨.thrown, rfl, ?_, by rw [hthrow, Bool.or_true], fun _ hfalse => ?_⟩
        · rw [hgoes, ← hsame]
          rfl
        · rw [hthrow] at hfalse
          cases hfalse
  · rename_i hne
    split
    · rename_i hk
      exact flow_of_quiet hne rfl rfl (by rw [hk]; rfl)
    · rename_i hk
      exact flow_of_quiet hne rfl rfl (by rw [bne_iff_ne.mpr hk]; rfl)

/-- Every step of a thread is one of the moves. -/
theorem threadMove {s : Server} {c : ℕ} {t t' : Thread} {text : Bytes}
    (ht : s.threads.find? c = some t)
    (ht' : (threadStep s c t text).1.threads.find? c = some t') :
    ThreadMove s c t t'
      ((threadStep s c t text).2 ++ changes s (threadStep s c t text).1 c) := by
  have hassign : ∀ {u : Thread}, (s.threads.assign c u).find? c = some t' → u = t' := by
    intro u hu
    rw [SortedMap.find?_assign, if_pos rfl] at hu
    exact Option.some.inj hu
  have hstay : threadStep s c t text = (s, []) →
      t.Waits ∨ t.pc = .finished ∨ t.pc = .thrown → ThreadMove s c t t'
        ((threadStep s c t text).2 ++ changes s (threadStep s c t text).1 c) := by
    intro hstep hrests
    rw [hstep] at ht' ⊢
    rw [changes_of_eq rfl, ← Option.some.inj (ht.symm.trans ht')]
    exact .rests hrests
  have hgo : ∀ {u : Thread} {obs : List Obs} (descriptors : SortedMap ℕ ℕ),
      ThreadMove s c t u obs → threadStep s c t text =
        ({ s with descriptors := descriptors, threads := s.threads.assign c u }, obs) →
      ThreadMove s c t t'
        ((threadStep s c t text).2 ++ changes s (threadStep s c t text).1 c) := by
    intro u obs descriptors hmove hstep
    have hsame : (threadStep s c t text).1.clients = s.clients := by rw [hstep]
    rw [hstep] at ht'
    rw [changes_of_eq hsame, List.append_nil, hstep, ← hassign ht']
    exact hmove
  cases hpc : t.pc with
  | ready =>
      cases hsplit : Framing.split? t.recvBuffer with
      | none =>
          exact hstay (by rw [threadStep, hpc]; dsimp only; rw [hsplit]) (Or.inl ⟨hpc, hsplit⟩)
      | some r =>
          obtain ⟨p, rest⟩ := r
          obtain ⟨pc, hthreads, hflow, -, hrefuse⟩ :=
            handle_flow s c { t with recvBuffer := rest } p text
          have hstep : threadStep s c t text =
              ((handle s c { t with recvBuffer := rest } p text).1,
                .extracted c p :: (handle s c { t with recvBuffer := rest } p text).2) := by
            rw [threadStep, hpc]
            dsimp only
            rw [hsplit]
          rw [hstep] at ht' ⊢
          rw [hthreads] at ht'
          rw [← hassign ht']
          refine .takes hpc hsplit (fun o ho => ?_) hflow fun hill hthrow hlisted => ?_
          · rcases List.mem_append.mp ho with ho | ho
            · obtain ⟨id, rfl⟩ := obs_of_handle _ _ _ _ ho
              rfl
            · rw [conn_of_changes ho]
              rfl
          · obtain ⟨⟨hobs, hclients⟩, hrefuses⟩ := hrefuse hill hthrow hlisted
            rw [hobs, changes_of_eq hclients]
            exact ⟨rfl, hrefuses⟩
  | reply q => exact hgo _ (.replies hpc) (by rw [threadStep, hpc])
  | locate srcid target targetId content =>
      cases hfind : findTarget s.clients targetId with
      | none =>
          exact hgo _ (.misses hpc hfind) (by rw [threadStep, hpc]; dsimp only; rw [hfind])
      | some sock =>
          exact hgo _ (.finds hpc hfind) (by rw [threadStep, hpc]; dsimp only; rw [hfind])
  | forward sock srcid targetId content =>
      exact hgo _ (.forwards hpc) (by rw [threadStep, hpc])
  | remove =>
      have hstep : (threadStep s c t text).2 = [] ∧ (threadStep s c t text).1.threads =
          s.threads.assign c { t with pc := .closing } := by
        rw [threadStep, hpc]
        exact ⟨rfl, rfl⟩
      rw [hstep.2] at ht'
      rw [hstep.1, ← hassign ht']
      refine .removes hpc fun o ho => ?_
      rw [conn_of_changes ho]
      rfl
  | closing => exact hgo _ (.closes hpc) (by rw [threadStep, hpc])
  | finished => exact hstay (by rw [threadStep, hpc]) (Or.inr (Or.inl hpc))
  | thrown => exact hstay (by rw [threadStep, hpc]) (Or.inr (Or.inr hpc))

/-! ### What one thread shows -/

/-- A thread is observed under its own connection. -/
theorem conn_of_threadStep {s : Server} {conn : ℕ} {t : Thread} {text : Bytes} {o : Obs}
    (h : o ∈ (threadStep s conn t text).2) : o.conn = conn := by
  unfold threadStep at h
  cases hpc : t.pc with
  | ready =>
      rw [hpc] at h
      dsimp only at h
      split at h
      · exact absurd h List.not_mem_nil
      · rcases List.mem_cons.mp h with rfl | h
        · rfl
        · obtain ⟨id, rfl⟩ := obs_of_handle _ _ _ _ h
          rfl
  | reply p =>
      rw [hpc] at h
      rw [List.mem_singleton.mp h]
      rfl
  | locate srcid target k content =>
      rw [hpc] at h
      dsimp only at h
      split at h <;> exact absurd h List.not_mem_nil
  | forward targetSock srcid k content =>
      rw [hpc] at h
      rw [List.mem_singleton.mp h]
      rfl
  | remove =>
      rw [hpc] at h
      exact absurd h List.not_mem_nil
  | closing =>
      rw [hpc] at h
      exact absurd h List.not_mem_nil
  | finished =>
      rw [hpc] at h
      exact absurd h List.not_mem_nil
  | thrown =>
      rw [hpc] at h
      exact absurd h List.not_mem_nil

theorem own_append_self {conn : ℕ} {log obs : List Obs} (h : ∀ o ∈ obs, o.conn = conn) :
    own conn (log ++ obs) = own conn log ++ obs := by
  rw [own, List.filter_append, List.filter_eq_self.mpr fun o ho => decide_eq_true (h o ho)]
  rfl

theorem own_append_other {c conn : ℕ} {log obs : List Obs} (h : ∀ o ∈ obs, o.conn = conn)
    (hne : c ≠ conn) : own c (log ++ obs) = own c log := by
  have hnil : obs.filter (fun o => decide (o.conn = c)) = [] := by
    refine List.filter_eq_nil_iff.mpr fun o ho => ?_
    rw [h o ho]
    simpa using hne.symm
  rw [own, List.filter_append, hnil, List.append_nil]
  rfl

/-- A step of one thread leaves the other threads alone. -/
theorem threads_other (s : Server) (t : Thread) (text : Bytes) {c conn : ℕ} (hne : c ≠ conn) :
    (threadStep s conn t text).1.threads.find? c = s.threads.find? c := by
  rcases threadStep_cases s conn t text with hsame | ⟨t', hm, -⟩
  · rw [hsame]
  · rw [hm.threads, SortedMap.find?_assign, if_neg hne]

theorem threads_self {s : Server} {conn : ℕ} {t : Thread} (ht : s.threads.find? conn = some t)
    (text : Bytes) : ((threadStep s conn t text).1.threads.find? conn).isSome := by
  rcases threadStep_cases s conn t text with hsame | ⟨t', hm, -⟩
  · rw [hsame, ht]
    rfl
  · rw [hm.threads, SortedMap.find?_assign, if_pos rfl]
    rfl

section Run

variable {ok : Run → Event → Prop} {P : ℕ → Thread → List Obs → Prop}

/-- What the induction over the run carries: `P` of every thread, and silence of the connections
that have no thread yet. -/
structure Keeps (P : ℕ → Thread → List Obs → Prop) (r : Run) : Prop where
  owned : Owned r.server
  thread : ∀ {c t}, r.server.threads.find? c = some t → P c t (own c r.log)
  silent : ∀ {c}, r.server.threads.find? c = none → own c r.log = []

theorem Keeps.new (P : ℕ → Thread → List Obs → Prop) : Keeps P Run.new :=
  ⟨Owned.new, fun ht => absurd ht (Option.some_ne_none _).symm, fun _ => rfl⟩

/-- Events that change no thread and show nothing. -/
theorem Keeps.quiet {r r' : Run} (h : Keeps P r) (howned : Owned r'.server)
    (hthreads : r'.server.threads = r.server.threads) (hlog : r'.log = r.log) : Keeps P r' :=
  ⟨howned, fun ht => hlog ▸ h.thread (hthreads ▸ ht), fun hnone =>
    hlog ▸ h.silent (hthreads ▸ hnone)⟩

/-- A step of one thread. -/
theorem Keeps.moved {r r' : Run} (h : Keeps P r) (howned : Owned r'.server) (conn : ℕ)
    (obs : List Obs) (hobs : ∀ o ∈ obs, o.conn = conn) (hlog : r'.log = r.log ++ obs)
    (hother : ∀ {c}, c ≠ conn → r'.server.threads.find? c = r.server.threads.find? c)
    (hsome : (r'.server.threads.find? conn).isSome)
    (hown : ∀ {t'}, r'.server.threads.find? conn = some t' → P conn t' (own conn r.log ++ obs)) :
    Keeps P r' := by
  refine ⟨howned, fun {c t} ht => ?_, fun {c} hnone => ?_⟩
  · by_cases hc : c = conn
    · rw [hlog, hc, own_append_self hobs]
      exact hown (hc ▸ ht)
    · rw [hlog, own_append_other hobs hc]
      exact h.thread ((hother hc).symm.trans ht)
  · by_cases hc : c = conn
    · rw [hc] at hnone
      rw [hnone] at hsome
      cases hsome
    · rw [hlog, own_append_other hobs hc]
      exact h.silent ((hother hc).symm.trans hnone)

/-- A step of the accept loop; a thread is born on a connection that had none. -/
theorem Keeps.acceptor {r : Run} (h : Keeps P r) (hnew : ∀ c sock, P c ⟨sock, [], .ready⟩ [])
    (created : Bool) : Keeps P ⟨acceptorStep r.server created, r.log⟩ := by
  have howned := h.owned.acceptorStep created
  unfold acceptorStep at howned ⊢
  cases hacc : r.server.acceptor with
  | registered sock conn =>
      rw [hacc] at howned
      dsimp only at howned ⊢
      split at howned
      · rename_i hcreated
        rw [if_pos hcreated]
        have hnone := (h.owned.held (by rw [hacc]; rfl)).2.1
        refine h.moved howned conn [] (fun _ ho => absurd ho List.not_mem_nil)
          (List.append_nil _).symm (fun hc => ?_) ?_ fun ht => ?_
        · exact (SortedMap.find?_assign _ _ _ _).trans (if_neg hc)
        · exact (congrArg Option.isSome (SortedMap.find?_assign _ _ _ _)).trans
            (by rw [if_pos rfl]; rfl)
        · have ht := (SortedMap.find?_assign _ _ _ _).symm.trans ht
          rw [if_pos rfl] at ht
          rw [← Option.some.inj ht, h.silent hnone]
          exact hnew _ _
      · rename_i hcreated
        rw [if_neg hcreated]
        exact h.quiet howned rfl rfl
  | accepting => exact h
  | accepted sock conn => exact h.quiet (by rw [hacc] at howned; exact howned) rfl rfl
  | removing sock conn => exact h.quiet (by rw [hacc] at howned; exact howned) rfl rfl
  | closing sock conn => exact h.quiet (by rw [hacc] at howned; exact howned) rfl rfl

/-- A chunk arrives for a thread that waits. -/
theorem Keeps.recv {r : Run} (h : Keeps P r) {conn : ℕ} {t : Thread} (chunk : Bytes)
    (ht : r.server.threads.find? conn = some t) (hwaits : t.Waits)
    (hrecv : P conn (t.afterRecv chunk) (own conn r.log ++ [.received conn chunk])) :
    Keeps P ⟨(recvStep r.server conn t chunk).1, r.log ++ [.received conn chunk]⟩ := by
  refine h.moved (h.owned.recvStep ht hwaits chunk) conn _ (fun o ho => ?_) rfl (fun hc => ?_) ?_
    fun {t'} ht' => ?_
  · rw [List.mem_singleton.mp ho]
    rfl
  · exact (SortedMap.find?_assign _ _ _ _).trans (if_neg hc)
  · exact (congrArg Option.isSome (SortedMap.find?_assign _ _ _ _)).trans (by rw [if_pos rfl]; rfl)
  · have ht' := (SortedMap.find?_assign _ _ _ _).symm.trans ht'
    rw [if_pos rfl] at ht'
    rw [← Option.some.inj ht']
    exact hrecv

/-- A thread acts. -/
theorem Keeps.act {r : Run} (h : Keeps P r) {conn : ℕ} {t : Thread} (text : Bytes)
    (ht : r.server.threads.find? conn = some t)
    (hact : ∀ {t'}, (threadStep r.server conn t text).1.threads.find? conn = some t' →
      P conn t' (own conn r.log ++ ((threadStep r.server conn t text).2 ++
        changes r.server (threadStep r.server conn t text).1 conn))) :
    Keeps P ⟨(threadStep r.server conn t text).1, r.log ++
      ((threadStep r.server conn t text).2 ++
        changes r.server (threadStep r.server conn t text).1 conn)⟩ := by
  refine h.moved (h.owned.threadStep ht text) conn _ (fun o ho => ?_) rfl
    (fun hc => threads_other _ t text hc) (threads_self ht text) hact
  rcases List.mem_append.mp ho with ho | ho
  · exact conn_of_threadStep ho
  · rw [conn_of_changes ho]
    rfl

/-- **A thread on its own.**  A property of a thread and of its own log that holds of a new thread
and is kept by the thread's own steps holds of every thread in every run. -/
theorem thread_run (hnew : ∀ c sock, P c ⟨sock, [], .ready⟩ [])
    (hrecv : ∀ {r : Run} {c t chunk}, Owned r.server → r.server.threads.find? c = some t → t.Waits →
      P c t (own c r.log) → P c (t.afterRecv chunk) (own c r.log ++ [.received c chunk]))
    (hact : ∀ {r : Run} {c t text t'}, Owned r.server → r.server.threads.find? c = some t →
      ok r (.act c text) → r.server.crashed = false → P c t (own c r.log) →
      (threadStep r.server c t text).1.threads.find? c = some t' →
      P c t' (own c r.log ++ ((threadStep r.server c t text).2 ++
        changes r.server (threadStep r.server c t text).1 c)))
    {es : List Event} (hes : StepSystem.Guarded Run.step ok Run.new es) :
    Keeps P (StepSystem.run Run.step Run.new es) := by
  refine hes.invariant (P := Keeps P) (fun r e hok h => ?_) (Keeps.new P)
  have howned := h.owned.step e
  have hstep := r.stepOf e
  generalize r.step e = r' at hstep howned
  cases hstep with
  | idle => exact h
  | accept halive hacceptor hfree => exact h.quiet howned rfl rfl
  | acceptor halive => exact h.acceptor hnew _
  | recv halive ht hwaits => exact h.recv _ ht hwaits (hrecv h.owned ht hwaits (h.thread ht))
  | act halive ht => exact h.act _ ht fun ht' => hact h.owned ht hok halive (h.thread ht) ht'
  | brokenPipe halive ht hsends => exact h.quiet howned rfl rfl

end Run

end SocketServer

end CourseNet
