import CourseNet.SocketServer

/-!
# Who owns which descriptor

`threadStep_cases` says once what a step of a client thread can do to the shared state.  From it:
the thread of a connection owns the descriptor it was started with until it closes it, the accept
loop owns the one it just accepted, and the map of clients has an entry for a descriptor exactly
while its owner has not removed it (`Owned`).
-/

namespace CourseNet

namespace SocketServer

/-! ### What a step of a thread can do -/

/-- The descriptor a thread is about to send a SIGNAL to. -/
def Pc.targetSock? : Pc → Option ℕ
  | .forward targetSock _ _ _ => some targetSock
  | _ => none

/-- The thread has not removed its client. -/
def Pc.Listed (pc : Pc) : Prop := pc ≠ .closing ∧ pc ≠ .finished

theorem Thread.Waits.listed {t : Thread} (h : t.Waits) : t.pc.Listed := by
  rw [h.1]
  exact ⟨nofun, nofun⟩

theorem Thread.afterRecv_sock (t : Thread) (chunk : Bytes) : (t.afterRecv chunk).sock = t.sock := by
  unfold Thread.afterRecv
  split <;> rfl

theorem Thread.Waits.afterRecv_listed {t : Thread} (h : t.Waits) (chunk : Bytes) :
    (t.afterRecv chunk).pc.Listed := by
  unfold Thread.afterRecv
  split
  exacts [⟨nofun, nofun⟩, h.listed]

/-- A step of the thread on `sock` leaves `t'` behind and touches the shared maps at `sock` only. -/
structure Moves (s : Server) (conn sock : ℕ) (t' : Thread) (s' : Server) : Prop where
  threads : s'.threads = s.threads.assign conn t'
  sock_eq : t'.sock = sock
  acceptor : s'.acceptor = s.acceptor
  connections : s'.connections = s.connections
  clients : ∀ k, k ≠ sock → s'.clients.find? k = s.clients.find? k
  descriptors : ∀ k, k ≠ sock → s'.descriptors.find? k = s.descriptors.find? k

/-- A step of the loop body: the descriptor stays, an entry stays an entry, and its id is the old
one, 0, or one just assigned. -/
structure Stays (s : Server) (conn sock : ℕ) (s' : Server) (obs : List Obs) : Prop where
  descriptors : s'.descriptors = s.descriptors
  listed : (s.clients.find? sock).isSome → (s'.clients.find? sock).isSome
  id : ∀ id, s'.clients.find? sock = some id →
    s.clients.find? sock = some id ∨ id = 0 ∨ Obs.assigned conn id ∈ obs

theorem index_find? (clients : SortedMap ℕ ℤ) (sock k : ℕ) :
    (index clients sock).2.find? k =
      if k = sock then some (index clients sock).1 else clients.find? k := by
  unfold index
  cases h : clients.find? sock with
  | some id =>
      dsimp only
      split
      · rename_i hk
        rw [hk, h]
      · rfl
  | none =>
      dsimp only
      have hfresh : ∀ e ∈ clients.entries, e.1 ≠ sock := SortedMap.find?_eq_none.mp h
      ext v
      rw [SortedMap.find?_eq_some, SortedMap.mem_insertNew hfresh]
      split
      · rename_i hk
        subst hk
        refine ⟨?_, fun heq => Or.inl (by rw [Option.some.inj heq])⟩
        rintro (heq | hmem)
        · rw [(Prod.mk.inj heq).2]
        · exact absurd rfl (hfresh _ hmem)
      · rename_i hk
        rw [SortedMap.find?_eq_some]
        exact or_iff_right fun heq => hk (Prod.mk.inj heq).1

/-- A client that is in the map is only looked up. -/
theorem index_eq_self {clients : SortedMap ℕ ℤ} {sock : ℕ} (h : (clients.find? sock).isSome) :
    (index clients sock).2 = clients := by
  obtain ⟨id, hid⟩ := Option.isSome_iff_exists.mp h
  rw [index, hid]

theorem index_fst {clients : SortedMap ℕ ℤ} {sock : ℕ} :
    clients.find? sock = some (index clients sock).1 ∨ (index clients sock).1 = 0 := by
  unfold index
  cases h : clients.find? sock with
  | some id => exact Or.inl rfl
  | none => exact Or.inr rfl

section Handle

variable (s : Server) (conn : ℕ) (t : Thread) (text : Bytes)

/-- A branch that leaves the map alone. -/
theorem stays_self (obs : List Obs) {s' : Server} (hclients : s'.clients = s.clients)
    (hdesc : s'.descriptors = s.descriptors) : Stays s conn t.sock s' obs :=
  ⟨hdesc, by rw [hclients]; exact id, fun id hid => Or.inl (hclients ▸ hid)⟩

/-- A branch that looks its own client up. -/
theorem stays_index (obs : List Obs) {s' : Server}
    (hclients : s'.clients = (index s.clients t.sock).2) (hdesc : s'.descriptors = s.descriptors) :
    Stays s conn t.sock s' obs := by
  refine ⟨hdesc, fun _ => ?_, fun id hid => ?_⟩
  · rw [hclients, index_find?, if_pos rfl]
    rfl
  · rw [hclients, index_find?, if_pos rfl] at hid
    obtain rfl := Option.some.inj hid
    exact index_fst.imp_right Or.inl

theorem parseMessage_listed {srcid : ℤ} {payload : Bytes} {pc : Pc}
    (h : parseMessage srcid payload = some pc) : pc.Listed ∧ pc.targetSock? = none := by
  unfold parseMessage at h
  split at h
  · obtain rfl := Option.some.inj h
    exact ⟨⟨nofun, nofun⟩, rfl⟩
  · split at h
    · obtain rfl := Option.some.inj h
      exact ⟨⟨nofun, nofun⟩, rfl⟩
    · cases h

/-- Handling a packet says nothing but the id it assigns. -/
theorem obs_of_handle {p : Packet} {o : Obs} (h : o ∈ (handle s conn t p text).2) :
    ∃ id, o = .assigned conn id := by
  unfold handle at h
  dsimp only at h
  split_ifs at h
  · exact ⟨_, List.mem_singleton.mp h⟩
  all_goals first | exact absurd h List.not_mem_nil | skip
  split at h
  all_goals exact absurd h List.not_mem_nil

/-- A packet is handled by a step of the loop body that forwards nothing yet. -/
theorem handle_spec (p : Packet) :
    ∃ pc : Pc, (pc.Listed ∧ pc.targetSock? = none) ∧
      Moves s conn t.sock { t with pc := pc } (handle s conn t p text).1 ∧
      Stays s conn t.sock (handle s conn t p text).1 (handle s conn t p text).2 := by
  have hindex : ∀ k, k ≠ t.sock → (index s.clients t.sock).2.find? k = s.clients.find? k := by
    intro k hk
    rw [index_find?, if_neg hk]
  unfold handle
  dsimp only
  split
  · refine ⟨.reply _, ⟨⟨nofun, nofun⟩, rfl⟩, ⟨rfl, rfl, rfl, rfl, fun k hk => ?_, fun _ _ => rfl⟩,
      ⟨rfl, fun _ => ?_, fun id hid => ?_⟩⟩
    · exact (SortedMap.find?_assign _ _ _ _).trans (if_neg hk)
    · exact Option.isSome_iff_exists.mpr ⟨_, (SortedMap.find?_assign _ _ _ _).trans (if_pos rfl)⟩
    · have hnew := (SortedMap.find?_assign s.clients t.sock s.nextClientId t.sock).symm.trans hid
      rw [if_pos rfl] at hnew
      obtain rfl := Option.some.inj hnew
      exact Or.inr (Or.inr List.mem_cons_self)
  split
  · exact ⟨.reply _, ⟨⟨nofun, nofun⟩, rfl⟩, ⟨rfl, rfl, rfl, rfl, hindex, fun _ _ => rfl⟩,
      stays_index s conn t _ rfl rfl⟩
  split
  · exact ⟨.reply _, ⟨⟨nofun, nofun⟩, rfl⟩, ⟨rfl, rfl, rfl, rfl, hindex, fun _ _ => rfl⟩,
      stays_index s conn t _ rfl rfl⟩
  split
  · exact ⟨.reply _, ⟨⟨nofun, nofun⟩, rfl⟩, ⟨rfl, rfl, rfl, rfl, hindex, fun _ _ => rfl⟩,
      stays_index s conn t _ rfl rfl⟩
  split
  · split
    · rename_i pc hpc
      exact ⟨pc, parseMessage_listed hpc, ⟨rfl, rfl, rfl, rfl, hindex, fun _ _ => rfl⟩,
        stays_index s conn t _ rfl rfl⟩
    · exact ⟨.thrown, ⟨⟨nofun, nofun⟩, rfl⟩, ⟨rfl, rfl, rfl, rfl, hindex, fun _ _ => rfl⟩,
        stays_index s conn t _ rfl rfl⟩
  split
  · exact ⟨.remove, ⟨⟨nofun, nofun⟩, rfl⟩, ⟨rfl, rfl, rfl, rfl, hindex, fun _ _ => rfl⟩,
      stays_index s conn t _ rfl rfl⟩
  · exact ⟨.reply _, ⟨⟨nofun, nofun⟩, rfl⟩, ⟨rfl, rfl, rfl, rfl, fun _ _ => rfl, fun _ _ => rfl⟩,
      stays_self s conn t _ rfl rfl⟩

/-- **The steps of a thread.**  It waits or has returned; or it goes round the loop body, where a
thread that comes to forward has just found its target in the map; or it removes its client; or it
closes its descriptor. -/
theorem threadStep_cases :
    threadStep s conn t text = (s, []) ∨
    ∃ t', Moves s conn t.sock t' (threadStep s conn t text).1 ∧
      ((t.pc.Listed ∧ t'.pc.Listed ∧
          Stays s conn t.sock (threadStep s conn t text).1 (threadStep s conn t text).2 ∧
          ∀ targetSock srcid targetId content, t'.pc = .forward targetSock srcid targetId content →
            findTarget s.clients targetId = some targetSock) ∨
        (t.pc = .remove ∧ t'.pc = .closing ∧
          (threadStep s conn t text).1.clients = s.clients.erase t.sock ∧
          (threadStep s conn t text).1.descriptors = s.descriptors) ∨
        (t.pc = .closing ∧ t'.pc = .finished ∧ (threadStep s conn t text).1.clients = s.clients ∧
          (threadStep s conn t text).1.descriptors = s.descriptors.erase t.sock)) := by
  unfold threadStep
  cases hpc : t.pc with
  | ready =>
      dsimp only
      split
      · exact Or.inl rfl
      · rename_i p rest hsplit
        obtain ⟨pc, ⟨hlisted, htarget⟩, hmoves, hstays⟩ :=
          handle_spec s conn { t with recvBuffer := rest } text p
        refine Or.inr ⟨_, hmoves, Or.inl ⟨⟨nofun, nofun⟩, hlisted,
          ⟨hstays.descriptors, hstays.listed, fun id hid => ?_⟩, fun _ _ _ _ hfwd => ?_⟩⟩
        · exact (hstays.id id hid).imp_right (Or.imp_right (List.mem_cons_of_mem _))
        · rw [show pc = _ from hfwd] at htarget
          cases htarget
  | reply p =>
      exact Or.inr ⟨_, ⟨rfl, rfl, rfl, rfl, fun _ _ => rfl, fun _ _ => rfl⟩,
        Or.inl ⟨⟨nofun, nofun⟩, ⟨nofun, nofun⟩, stays_self s conn t _ rfl rfl, nofun⟩⟩
  | locate srcid target targetId content =>
      dsimp only
      split
      · exact Or.inr ⟨_, ⟨rfl, rfl, rfl, rfl, fun _ _ => rfl, fun _ _ => rfl⟩,
          Or.inl ⟨⟨nofun, nofun⟩, ⟨nofun, nofun⟩, stays_self s conn t _ rfl rfl, nofun⟩⟩
      · rename_i targetSock hfind
        refine Or.inr ⟨_, ⟨rfl, rfl, rfl, rfl, fun _ _ => rfl, fun _ _ => rfl⟩,
          Or.inl ⟨⟨nofun, nofun⟩, ⟨nofun, nofun⟩, stays_self s conn t _ rfl rfl, ?_⟩⟩
        rintro _ _ _ _ ⟨⟩
        exact hfind
  | forward targetSock srcid targetId content =>
      exact Or.inr ⟨_, ⟨rfl, rfl, rfl, rfl, fun _ _ => rfl, fun _ _ => rfl⟩,
        Or.inl ⟨⟨nofun, nofun⟩, ⟨nofun, nofun⟩, stays_self s conn t _ rfl rfl, nofun⟩⟩
  | remove =>
      refine Or.inr ⟨_, ⟨rfl, rfl, rfl, rfl, fun k hk => ?_, fun _ _ => rfl⟩,
        Or.inr (Or.inl ⟨rfl, rfl, rfl, rfl⟩)⟩
      exact (SortedMap.find?_erase _ _ _).trans (if_neg hk)
  | closing =>
      refine Or.inr ⟨_, ⟨rfl, rfl, rfl, rfl, fun _ _ => rfl, fun k hk => ?_⟩,
        Or.inr (Or.inr ⟨rfl, rfl, rfl, rfl⟩)⟩
      exact (SortedMap.find?_erase _ _ _).trans (if_neg hk)
  | finished => exact Or.inl rfl
  | thrown => exact Or.inl rfl

end Handle

/-! ### What an event does -/

/-- What the observer adds to a step when the map of clients changed. -/
def changes (s s' : Server) (conn : ℕ) : List Obs :=
  if s'.clients = s.clients then [] else [.changed conn]

theorem conn_of_changes {s s' : Server} {conn : ℕ} {o : Obs} (h : o ∈ changes s s' conn) :
    o = .changed conn := by
  unfold changes at h
  split at h
  · exact absurd h List.not_mem_nil
  · exact List.mem_singleton.mp h

theorem changes_of_eq {s s' : Server} {conn : ℕ} (h : s'.clients = s.clients) :
    changes s s' conn = [] := if_pos h

/-- What an event does to a run: nothing, or the one thing that the state allows. -/
inductive StepOf (r : Run) : Event → Run → Prop
  | idle {e : Event} : StepOf r e r
  | accept {sock : ℕ} (halive : r.server.crashed = false)
      (hacceptor : r.server.acceptor = .accepting)
      (hfree : r.server.descriptors.find? sock = none) :
      StepOf r (.accept sock)
        ⟨{ r.server with
            descriptors := r.server.descriptors.assign sock r.server.connections
            connections := r.server.connections + 1
            acceptor := .accepted sock r.server.connections }, r.log⟩
  | acceptor {created : Bool} (halive : r.server.crashed = false) :
      StepOf r (.acceptor created) ⟨acceptorStep r.server created, r.log⟩
  | recv {conn : ℕ} {chunk : Bytes} {t : Thread} (halive : r.server.crashed = false)
      (ht : r.server.threads.find? conn = some t) (hwaits : t.Waits) :
      StepOf r (.recv conn chunk)
        ⟨(recvStep r.server conn t chunk).1, r.log ++ [.received conn chunk]⟩
  | act {conn : ℕ} {text : Bytes} {t : Thread} (halive : r.server.crashed = false)
      (ht : r.server.threads.find? conn = some t) :
      StepOf r (.act conn text)
        ⟨(threadStep r.server conn t text).1, r.log ++ ((threadStep r.server conn t text).2 ++
          changes r.server (threadStep r.server conn t text).1 conn)⟩
  | brokenPipe {conn : ℕ} {t : Thread} (halive : r.server.crashed = false)
      (ht : r.server.threads.find? conn = some t) (hsends : r.server.Sends t) :
      StepOf r (.brokenPipe conn) ⟨{ r.server with crashed := true }, r.log⟩

/-- The events, one by one. -/
theorem Run.stepOf (r : Run) (e : Event) : StepOf r e (r.step e) := by
  have hidle : SocketServer.step r.server e = (r.server, []) → StepOf r e (r.step e) := by
    intro hstep
    rw [Run.step, hstep, List.append_nil]
    exact .idle
  cases e with
  | accept sock =>
      by_cases hcond : r.server.crashed = false ∧ r.server.acceptor = .accepting ∧
          r.server.descriptors.find? sock = none
      · rw [Run.step, SocketServer.step, if_pos hcond, List.append_nil]
        exact .accept hcond.1 hcond.2.1 hcond.2.2
      · exact hidle (if_neg hcond)
  | acceptor created =>
      by_cases hcrash : r.server.crashed = true
      · exact hidle (if_pos hcrash)
      · rw [Run.step, SocketServer.step, if_neg hcrash, List.append_nil]
        exact .acceptor (Bool.eq_false_of_not_eq_true hcrash)
  | recv conn chunk =>
      cases ht : r.server.threads.find? conn with
      | none => exact hidle (by rw [SocketServer.step, ht])
      | some t =>
          by_cases hcond : r.server.crashed = false ∧ t.Waits
          · have hstep : SocketServer.step r.server (.recv conn chunk) =
                recvStep r.server conn t chunk := by
              rw [SocketServer.step, ht]
              exact if_pos hcond
            rw [Run.step, hstep]
            exact .recv hcond.1 ht hcond.2
          · refine hidle ?_
            rw [SocketServer.step, ht]
            exact if_neg hcond
  | act conn text =>
      cases ht : r.server.threads.find? conn with
      | none => exact hidle (by rw [SocketServer.step, ht])
      | some t =>
          by_cases hcrash : r.server.crashed = true
          · refine hidle ?_
            rw [SocketServer.step, ht]
            exact if_pos hcrash
          · have hstep : SocketServer.step r.server (.act conn text) =
                ((threadStep r.server conn t text).1, (threadStep r.server conn t text).2 ++
                  changes r.server (threadStep r.server conn t text).1 conn) := by
              rw [SocketServer.step, ht]
              exact if_neg hcrash
            rw [Run.step, hstep]
            exact .act (Bool.eq_false_of_not_eq_true hcrash) ht
  | brokenPipe conn =>
      cases ht : r.server.threads.find? conn with
      | none => exact hidle (by rw [SocketServer.step, ht])
      | some t =>
          by_cases hcond : r.server.crashed = false ∧ r.server.Sends t
          · have hstep : SocketServer.step r.server (.brokenPipe conn) =
                ({ r.server with crashed := true }, []) := by
              rw [SocketServer.step, ht]
              exact if_pos hcond
            rw [Run.step, hstep, List.append_nil]
            exact .brokenPipe hcond.1 ht hcond.2
          · refine hidle ?_
            rw [SocketServer.step, ht]
            exact if_neg hcond

/-! ### Ownership -/

/-- The socket and the connection the accept loop is busy with. -/
def Acceptor.held? : Acceptor → Option (ℕ × ℕ)
  | .accepting => none
  | .accepted sock conn | .registered sock conn | .removing sock conn | .closing sock conn =>
      some (sock, conn)

/-- Who owns which descriptor, and which descriptors have an entry in the map. -/
structure Owned (s : Server) : Prop where
  thread : ∀ {c t}, s.threads.find? c = some t → t.pc ≠ .finished →
    s.descriptors.find? t.sock = some c
  fresh : ∀ {c t}, s.threads.find? c = some t → c < s.connections
  closing : ∀ {c t}, s.threads.find? c = some t → t.pc = .closing → s.clients.find? t.sock = none
  listed : ∀ {c t}, s.threads.find? c = some t → t.pc.Listed → (s.clients.find? t.sock).isSome
  held : ∀ {sock conn}, s.acceptor.held? = some (sock, conn) →
    s.descriptors.find? sock = some conn ∧ s.threads.find? conn = none ∧ conn < s.connections
  heldListed : ∀ {sock conn}, s.acceptor = .registered sock conn → (s.clients.find? sock).isSome
  heldClosing : ∀ {sock conn}, s.acceptor = .closing sock conn → s.clients.find? sock = none

namespace Owned

variable {s s' : Server} {c conn sock : ℕ} {t t' : Thread}

theorem new : Owned Server.new where
  thread := nofun
  fresh := nofun
  closing := nofun
  listed := nofun
  held := nofun
  heldListed := nofun
  heldClosing := nofun

/-- Two threads that have not returned do not share a descriptor. -/
theorem sock_ne (h : Owned s) (ht : s.threads.find? c = some t) (hpc : t.pc ≠ .finished)
    (ht' : s.threads.find? conn = some t') (hpc' : t'.pc ≠ .finished) (hne : c ≠ conn) :
    t.sock ≠ t'.sock := by
  intro heq
  have := h.thread ht hpc
  rw [heq, h.thread ht' hpc'] at this
  exact hne (Option.some.inj this).symm

/-- The accept loop's descriptor belongs to no thread. -/
theorem held_ne (h : Owned s) (hheld : s.acceptor.held? = some (sock, conn))
    (ht : s.threads.find? c = some t) (hpc : t.pc ≠ .finished) : t.sock ≠ sock := by
  intro heq
  obtain ⟨hdesc, hnone, -⟩ := h.held hheld
  have := h.thread ht hpc
  rw [heq, hdesc] at this
  rw [Option.some.inj this, ht] at hnone
  cases hnone

theorem accept (h : Owned s) (hfree : s.descriptors.find? sock = none) :
    Owned { s with
      descriptors := s.descriptors.assign sock s.connections
      connections := s.connections + 1
      acceptor := .accepted sock s.connections } where
  thread := by
    intro c t ht hpc
    have howns := h.thread ht hpc
    refine (SortedMap.find?_assign _ _ _ _).trans ?_
    rw [if_neg, howns]
    rintro rfl
    rw [hfree] at howns
    cases howns
  fresh ht := (h.fresh ht).trans (Nat.lt_succ_self _)
  closing := h.closing
  listed := h.listed
  held := by
    rintro _ _ ⟨⟩
    refine ⟨(SortedMap.find?_assign _ _ _ _).trans (if_pos rfl), ?_, Nat.lt_succ_self _⟩
    cases ht : s.threads.find? s.connections with
    | none => rfl
    | some t => exact absurd (h.fresh ht) (lt_irrefl _)
  heldListed := nofun
  heldClosing := nofun

theorem acceptorStep (h : Owned s) (created : Bool) :
    Owned (SocketServer.acceptorStep s created) := by
  unfold SocketServer.acceptorStep
  cases hacc : s.acceptor with
  | accepting => exact h
  | accepted sock conn =>
      obtain ⟨hdesc, hnone, hlt⟩ := h.held (by rw [hacc]; rfl)
      refine ⟨h.thread, h.fresh, fun ht hpc => ?_, fun ht hpc => ?_, ?_, ?_, nofun⟩
      · have hne := h.held_ne (by rw [hacc]; rfl) ht (by rw [hpc]; nofun)
        exact (SortedMap.find?_assign _ _ _ _).trans ((if_neg hne).trans (h.closing ht hpc))
      · have hne := h.held_ne (by rw [hacc]; rfl) ht hpc.2
        exact (congrArg Option.isSome ((SortedMap.find?_assign _ _ _ _).trans (if_neg hne))).trans
          (h.listed ht hpc)
      · rintro _ _ ⟨⟩
        exact ⟨hdesc, hnone, hlt⟩
      · rintro _ _ ⟨⟩
        exact Option.isSome_iff_exists.mpr
          ⟨_, (SortedMap.find?_assign _ _ _ _).trans (if_pos rfl)⟩
  | registered sock conn =>
      obtain ⟨hdesc, hnone, hlt⟩ := h.held (by rw [hacc]; rfl)
      have hlisted := h.heldListed hacc
      dsimp only
      split
      · -- the new thread owns the descriptor from here on
        have hfind : ∀ {c t}, (s.threads.assign conn ⟨sock, [], .ready⟩).find? c = some t →
            (c = conn ∧ t = ⟨sock, [], .ready⟩) ∨ s.threads.find? c = some t := by
          intro c t ht
          rw [SortedMap.find?_assign] at ht
          split at ht
          · rename_i hc
            exact Or.inl ⟨hc, (Option.some.inj ht).symm⟩
          · exact Or.inr ht
        refine ⟨fun ht hpc => ?_, fun ht => ?_, fun ht hpc => ?_, fun ht hpc => ?_, nofun, nofun,
          nofun⟩
        · rcases hfind ht with ⟨rfl, rfl⟩ | ht
          exacts [hdesc, h.thread ht hpc]
        · rcases hfind ht with ⟨rfl, rfl⟩ | ht
          exacts [hlt, h.fresh ht]
        · rcases hfind ht with ⟨rfl, rfl⟩ | ht
          exacts [(nomatch hpc), h.closing ht hpc]
        · rcases hfind ht with ⟨rfl, rfl⟩ | ht
          exacts [hlisted, h.listed ht hpc]
      · refine ⟨h.thread, h.fresh, h.closing, h.listed, ?_, nofun, nofun⟩
        rintro _ _ ⟨⟩
        exact ⟨hdesc, hnone, hlt⟩
  | removing sock conn =>
      obtain ⟨hdesc, hnone, hlt⟩ := h.held (by rw [hacc]; rfl)
      refine ⟨h.thread, h.fresh, fun ht hpc => ?_, fun ht hpc => ?_, ?_, nofun, ?_⟩
      · have hne := h.held_ne (by rw [hacc]; rfl) ht (by rw [hpc]; nofun)
        exact (SortedMap.find?_erase _ _ _).trans ((if_neg hne).trans (h.closing ht hpc))
      · have hne := h.held_ne (by rw [hacc]; rfl) ht hpc.2
        exact (congrArg Option.isSome ((SortedMap.find?_erase _ _ _).trans (if_neg hne))).trans
          (h.listed ht hpc)
      · rintro _ _ ⟨⟩
        exact ⟨hdesc, hnone, hlt⟩
      · rintro _ _ ⟨⟩
        exact (SortedMap.find?_erase _ _ _).trans (if_pos rfl)
  | closing sock conn =>
      refine ⟨fun ht hpc => ?_, h.fresh, h.closing, h.listed, nofun, nofun, nofun⟩
      have hne := h.held_ne (by rw [hacc]; rfl) ht hpc
      exact (SortedMap.find?_erase _ _ _).trans ((if_neg hne).trans (h.thread ht hpc))

/-- A step of one thread, given what it did to its own entry and descriptor. -/
theorem moves (h : Owned s) (ht : s.threads.find? conn = some t)
    (hm : Moves s conn t.sock t' s') (hbefore : t.pc ≠ .finished)
    (hthread : t'.pc ≠ .finished → s'.descriptors.find? t.sock = some conn)
    (hclosing : t'.pc = .closing → s'.clients.find? t.sock = none)
    (hlisted : t'.pc.Listed → (s'.clients.find? t.sock).isSome) : Owned s' := by
  have hfind : ∀ {c u}, s'.threads.find? c = some u →
      (c = conn ∧ u = t') ∨ (c ≠ conn ∧ s.threads.find? c = some u) := by
    intro c u hu
    rw [hm.threads, SortedMap.find?_assign] at hu
    split at hu
    · rename_i hc
      exact Or.inl ⟨hc, (Option.some.inj hu).symm⟩
    · rename_i hc
      exact Or.inr ⟨hc, hu⟩
  have hown := hm.sock_eq
  refine ⟨fun {c u} hu hpc => ?_, fun {c u} hu => ?_, fun {c u} hu hpc => ?_,
    fun {c u} hu hpc => ?_, fun {sock k} hheld => ?_, fun {sock k} hheld => ?_,
    fun {sock k} hheld => ?_⟩
  · rcases hfind hu with ⟨rfl, rfl⟩ | ⟨hne, hu⟩
    · exact hown ▸ hthread hpc
    · rw [hm.descriptors _ (h.sock_ne hu hpc ht hbefore hne)]
      exact h.thread hu hpc
  · rw [hm.connections]
    rcases hfind hu with ⟨rfl, rfl⟩ | ⟨-, hu⟩
    exacts [h.fresh ht, h.fresh hu]
  · rcases hfind hu with ⟨rfl, rfl⟩ | ⟨hne, hu⟩
    · exact hown ▸ hclosing hpc
    · rw [hm.clients _ (h.sock_ne hu (by rw [hpc]; nofun) ht hbefore hne)]
      exact h.closing hu hpc
  · rcases hfind hu with ⟨rfl, rfl⟩ | ⟨hne, hu⟩
    · exact hown ▸ hlisted hpc
    · rw [hm.clients _ (h.sock_ne hu hpc.2 ht hbefore hne)]
      exact h.listed hu hpc
  · rw [hm.acceptor] at hheld
    obtain ⟨hdesc, hnone, hlt⟩ := h.held hheld
    have hne := h.held_ne hheld ht hbefore
    rw [hm.descriptors _ hne.symm, hm.connections, hm.threads, SortedMap.find?_assign, if_neg]
    · exact ⟨hdesc, hnone, hlt⟩
    · rintro rfl
      rw [ht] at hnone
      cases hnone
  · rw [hm.acceptor] at hheld
    have hne := h.held_ne (by rw [hheld]; rfl) ht hbefore
    rw [hm.clients _ hne.symm]
    exact h.heldListed hheld
  · rw [hm.acceptor] at hheld
    have hne := h.held_ne (by rw [hheld]; rfl) ht hbefore
    rw [hm.clients _ hne.symm]
    exact h.heldClosing hheld

theorem threadStep (h : Owned s) (ht : s.threads.find? conn = some t) (text : Bytes) :
    Owned (SocketServer.threadStep s conn t text).1 := by
  rcases threadStep_cases s conn t text with hsame | ⟨t', hm, hstays | hremoves | hcloses⟩
  · rw [hsame]
    exact h
  · obtain ⟨hbefore, hafter, hstays, -⟩ := hstays
    refine h.moves ht hm hbefore.2 (fun _ => ?_) (fun hpc => absurd hpc hafter.1)
      fun _ => hstays.listed (h.listed ht hbefore)
    rw [hstays.descriptors]
    exact h.thread ht hbefore.2
  · obtain ⟨hpc, hpc', hclients, hdesc⟩ := hremoves
    refine h.moves ht hm (by rw [hpc]; nofun) (fun _ => ?_) (fun _ => ?_)
      fun hlisted => absurd hpc' hlisted.1
    · rw [hdesc]
      exact h.thread ht (by rw [hpc]; nofun)
    · rw [hclients, SortedMap.find?_erase, if_pos rfl]
  · obtain ⟨hpc, hpc', -, -⟩ := hcloses
    exact h.moves ht hm (by rw [hpc]; nofun) (fun hne => absurd hpc' hne)
      (fun hclosing => by rw [hpc'] at hclosing; cases hclosing)
      fun hlisted => absurd hpc' hlisted.2

theorem recvStep (h : Owned s) (ht : s.threads.find? conn = some t) (hwaits : t.Waits)
    (chunk : Bytes) : Owned (SocketServer.recvStep s conn t chunk).1 := by
  have hready := hwaits.listed
  exact h.moves ht ⟨rfl, t.afterRecv_sock chunk, rfl, rfl, fun _ _ => rfl, fun _ _ => rfl⟩ hready.2
    (fun _ => h.thread ht hready.2) (fun hpc => absurd hpc (hwaits.afterRecv_listed chunk).1)
    fun _ => h.listed ht hready

/-- Every event keeps the ownership. -/
theorem step {r : Run} (h : Owned r.server) (e : Event) : Owned (r.step e).server := by
  have hstep := r.stepOf e
  generalize r.step e = r' at hstep
  cases hstep with
  | idle => exact h
  | accept halive hacceptor hfree => exact h.accept hfree
  | acceptor halive => exact h.acceptorStep _
  | recv halive ht hwaits => exact h.recvStep ht hwaits _
  | act halive ht => exact h.threadStep ht _
  | brokenPipe halive ht hsends => exact { h with }

theorem run (es : List Event) : Owned (StepSystem.run Run.step Run.new es).server :=
  StepSystem.run_invariant (P := fun r : Run => Owned r.server) (fun _ e h => h.step e) es Owned.new

end Owned

end SocketServer

end CourseNet
