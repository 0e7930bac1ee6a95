import CourseNet.SignalDelivery
import Mathlib.Data.List.Nodup

/-!
# Who holds which id

CONNECT assigns the ids in increasing order and never twice, also to a client that connects again.
The map of clients mixes these ids with the placeholder 0 of the connections that have not sent a
CONNECT; `Registered` says which entry it has for whom.  From it, a positive id is found in the map
exactly at the socket of the client that holds it.
-/

namespace CourseNet

namespace SocketServer

/-- The ids that CONNECT assigned, each with its connection, in order. -/
def registrations (log : List Obs) : List (ℕ × ℤ) :=
  log.filterMap fun
    | .assigned conn id => some (conn, id)
    | _ => none

/-- The id that a connection was assigned last. -/
def lastId? (conn : ℕ) (regs : List (ℕ × ℤ)) : Option ℤ :=
  (regs.filter fun a => decide (a.1 = conn)).getLast?.map Prod.snd

/-- A client that has completed a CONNECT and has not been removed, and its id. -/
def Holds (r : Run) (conn : ℕ) (id : ℤ) : Prop :=
  (∃ t, r.server.threads.find? conn = some t ∧ t.pc.Listed) ∧
    lastId? conn (registrations r.log) = some id

/-! ### Registrations -/

theorem registrations_append (log obs : List Obs) :
    registrations (log ++ obs) = registrations log ++ registrations obs := List.filterMap_append

theorem lastId?_append (conn : ℕ) (regs more : List (ℕ × ℤ)) :
    lastId? conn (regs ++ more) = (lastId? conn more).or (lastId? conn regs) := by
  unfold lastId?
  rw [List.filter_append, List.getLast?_append, Option.map_or]

theorem lastId?_singleton (conn c : ℕ) (id : ℤ) :
    lastId? conn [(c, id)] = if c = conn then some id else none := by
  unfold lastId?
  by_cases h : c = conn <;> simp [h]

theorem mem_of_lastId? {conn : ℕ} {regs : List (ℕ × ℤ)} {id : ℤ} (h : lastId? conn regs = some id) :
    (conn, id) ∈ regs := by
  obtain ⟨⟨c, id'⟩, hlast, rfl⟩ := Option.map_eq_some_iff.mp h
  obtain ⟨hmem, hc⟩ := List.mem_filter.mp (List.mem_of_getLast? hlast)
  obtain rfl : c = conn := of_decide_eq_true hc
  exact hmem

theorem registrations_eq_nil {obs : List Obs} (h : ∀ c id, Obs.assigned c id ∉ obs) :
    registrations obs = [] := by
  refine List.filterMap_eq_nil_iff.mpr fun o ho => ?_
  cases o with
  | assigned c id => exact absurd ho (h c id)
  | _ => rfl

/-! ### What a step registers -/

/-- A CONNECT registers its client; any other packet of a client that is in the map leaves the map
alone. -/
theorem handle_registry (s : Server) (conn : ℕ) (t : Thread) (p : Packet) (text : Bytes)
    (hlisted : (s.clients.find? t.sock).isSome) :
    ((handle s conn t p text).2 = [] ∧
      (handle s conn t p text).1.clients = s.clients ∧
      (handle s conn t p text).1.nextClientId = s.nextClientId) ∨
    ((handle s conn t p text).2 = [.assigned conn s.nextClientId] ∧
      (handle s conn t p text).1.clients = s.clients.assign t.sock s.nextClientId ∧
      (handle s conn t p text).1.nextClientId = s.nextClientId + 1) := by
  have hsame := index_eq_self hlisted
  unfold handle
  dsimp only
  split
  · exact Or.inr ⟨rfl, rfl, rfl⟩
  refine Or.inl ?_
  split
  · exact ⟨rfl, hsame, rfl⟩
  split
  · exact ⟨rfl, hsame, rfl⟩
  split
  · exact ⟨rfl, hsame, rfl⟩
  split
  · split <;> exact ⟨rfl, hsame, rfl⟩
  split
  · exact ⟨rfl, hsame, rfl⟩
  · exact ⟨rfl, rfl, rfl⟩

theorem threadStep_registry (s : Server) (conn : ℕ) (t : Thread) (text : Bytes)
    (hlisted : t.pc.Listed → (s.clients.find? t.sock).isSome) (hpc : t.pc ≠ .remove) :
    (registrations (threadStep s conn t text).2 = [] ∧
      (threadStep s conn t text).1.clients = s.clients ∧
      (threadStep s conn t text).1.nextClientId = s.nextClientId) ∨
    (t.pc = .ready ∧ registrations (threadStep s conn t text).2 = [(conn, s.nextClientId)] ∧
      (threadStep s conn t text).1.clients = s.clients.assign t.sock s.nextClientId ∧
      (threadStep s conn t text).1.nextClientId = s.nextClientId + 1) := by
  unfold threadStep
  cases h : t.pc with
  | ready =>
      have hlisted := hlisted (by rw [h]; exact ⟨nofun, nofun⟩)
      dsimp only
      split
      · exact Or.inl ⟨rfl, rfl, rfl⟩
      · rename_i p rest _
        rcases handle_registry s conn { t with recvBuffer := rest } p text hlisted with
          ⟨hobs, hclients, hnext⟩ | ⟨hobs, hclients, hnext⟩
        · rw [h] at hobs hclients hnext
          exact Or.inl ⟨by rw [hobs]; rfl, hclients, hnext⟩
        · rw [h] at hobs hclients hnext
          exact Or.inr ⟨rfl, by rw [hobs]; rfl, hclients, hnext⟩
  | locate srcid target targetId content =>
      dsimp only
      split <;> exact Or.inl ⟨rfl, rfl, rfl⟩
  | remove => exact absurd h hpc
  | reply p => exact Or.inl ⟨rfl, rfl, rfl⟩
  | forward sock srcid targetId content => exact Or.inl ⟨rfl, rfl, rfl⟩
  | closing => exact Or.inl ⟨rfl, rfl, rfl⟩
  | finished => exact Or.inl ⟨rfl, rfl, rfl⟩
  | thrown => exact Or.inl ⟨rfl, rfl, rfl⟩

/-! ### The invariant -/

/-- Which ids are in use, and what the map has for whom. -/
structure Registered (s : Server) (regs : List (ℕ × ℤ)) : Prop where
  next : 0 < s.nextClientId
  bounded : ∀ a ∈ regs, 0 < a.2 ∧ a.2 < s.nextClientId
  distinct : (regs.map Prod.snd).Nodup
  entry : ∀ {c t}, s.threads.find? c = some t → t.pc.Listed →
    s.clients.find? t.sock = some ((lastId? c regs).getD 0)
  placeholder : ∀ {sock conn}, s.acceptor = .registered sock conn → s.clients.find? sock = some 0
  threadless : ∀ {c}, s.threads.find? c = none → lastId? c regs = none
  owner : ∀ {sock id}, s.clients.find? sock = some id → id ≠ 0 →
    ∃ c t, s.threads.find? c = some t ∧ t.pc.Listed ∧ t.sock = sock

namespace Registered

variable {s s' : Server} {regs : List (ℕ × ℤ)} {conn sock : ℕ} {t t' : Thread}

theorem new : Registered Server.new [] where
  next := Int.one_pos
  bounded := nofun
  distinct := List.nodup_nil
  entry := nofun
  placeholder := nofun
  threadless _ := rfl
  owner := nofun

/-- A step that leaves the map alone and changes at most where one thread stands. -/
theorem quiet (h : Registered s regs) (hclients : s'.clients = s.clients)
    (hnext : s'.nextClientId = s.nextClientId) (hacceptor : s'.acceptor = s.acceptor)
    (ht : s.threads.find? conn = some t) (hthreads : s'.threads = s.threads.assign conn t')
    (hsock : t'.sock = t.sock) (hpc : t'.pc.Listed ↔ t.pc.Listed) : Registered s' regs where
  next := hnext ▸ h.next
  bounded := hnext ▸ h.bounded
  distinct := h.distinct
  entry {c u} hu hlisted := by
    rw [hthreads, SortedMap.find?_assign] at hu
    rw [hclients]
    split at hu
    · rename_i hc
      obtain rfl := Option.some.inj hu
      rw [hsock, hc]
      exact h.entry ht (hpc.mp hlisted)
    · exact h.entry hu hlisted
  placeholder hheld := hclients ▸ h.placeholder (hacceptor ▸ hheld)
  threadless {c} hnone := by
    rw [hthreads, SortedMap.find?_assign] at hnone
    split at hnone
    · cases hnone
    · exact h.threadless hnone
  owner {k id} hid hne := by
    rw [hclients] at hid
    obtain ⟨c, u, hu, hlisted, hk⟩ := h.owner hid hne
    by_cases hc : c = conn
    · subst hc
      obtain rfl := Option.some.inj (ht.symm.trans hu)
      exact ⟨c, t', by rw [hthreads, SortedMap.find?_assign, if_pos rfl], hpc.mpr hlisted,
        hsock.trans hk⟩
    · exact ⟨c, u, by rw [hthreads, SortedMap.find?_assign, if_neg hc, hu], hlisted, hk⟩

/-- CONNECT. -/
theorem connect (h : Registered s regs) (howned : Owned s)
    (ht : s.threads.find? conn = some t) (hlisted : t.pc.Listed)
    (hclients : s'.clients = s.clients.assign t.sock s.nextClientId)
    (hnext : s'.nextClientId = s.nextClientId + 1) (hacceptor : s'.acceptor = s.acceptor)
    (hthreads : s'.threads = s.threads.assign conn t') (hsock : t'.sock = t.sock)
    (hlisted' : t'.pc.Listed) : Registered s' (regs ++ [(conn, s.nextClientId)]) where
  next := by
    rw [hnext]
    exact Int.lt_add_one_of_le h.next.le
  bounded a ha := by
    rw [hnext]
    rcases List.mem_append.mp ha with ha | ha
    · obtain ⟨hpos, hlt⟩ := h.bounded a ha
      exact ⟨hpos, hlt.trans (Int.lt_succ _)⟩
    · rw [List.mem_singleton.mp ha]
      exact ⟨h.next, Int.lt_succ _⟩
  distinct := by
    rw [List.map_append, List.nodup_append]
    refine ⟨h.distinct, List.pairwise_singleton _ _, fun id hid id' hid' heq => ?_⟩
    -- a new id is above the old ones
    obtain ⟨a, ha, rfl⟩ := List.mem_map.mp hid
    rw [List.mem_singleton.mp hid'] at heq
    exact (h.bounded a ha).2.ne heq
  entry {c u} hu hpc := by
    rw [hthreads, SortedMap.find?_assign] at hu
    rw [hclients, SortedMap.find?_assign, lastId?_append, lastId?_singleton]
    split at hu
    · rename_i hc
      obtain rfl := Option.some.inj hu
      rw [if_pos hsock, if_pos hc.symm]
      rfl
    · rename_i hc
      rw [if_neg (howned.sock_ne hu hpc.2 ht hlisted.2 hc), if_neg (Ne.symm hc)]
      exact h.entry hu hpc
  placeholder {k c} hheld := by
    rw [hacceptor] at hheld
    have hne := howned.held_ne (by rw [hheld]; rfl) ht hlisted.2
    rw [hclients, SortedMap.find?_assign, if_neg hne.symm]
    exact h.placeholder hheld
  threadless {c} hnone := by
    rw [hthreads, SortedMap.find?_assign] at hnone
    split at hnone
    · cases hnone
    · rename_i hc
      rw [lastId?_append, lastId?_singleton, if_neg (Ne.symm hc)]
      exact h.threadless hnone
  owner {k id} hid hne := by
    rw [hclients, SortedMap.find?_assign] at hid
    split at hid
    · rename_i hk
      exact ⟨conn, t', by rw [hthreads, SortedMap.find?_assign, if_pos rfl], hlisted',
        hsock.trans hk.symm⟩
    · rename_i hk
      obtain ⟨c, u, hu, hpc, hsock'⟩ := h.owner hid hne
      have hc : c ≠ conn := by
        rintro rfl
        obtain rfl := Option.some.inj (ht.symm.trans hu)
        exact hk hsock'.symm
      exact ⟨c, u, by rw [hthreads, SortedMap.find?_assign, if_neg hc, hu], hpc, hsock'⟩

/-- `RemoveClient`. -/
theorem remove (h : Registered s regs) (howned : Owned s) (ht : s.threads.find? conn = some t)
    (hpc : t.pc.Listed) (hclients : s'.clients = s.clients.erase t.sock)
    (hnext : s'.nextClientId = s.nextClientId) (hacceptor : s'.acceptor = s.acceptor)
    (hthreads : s'.threads = s.threads.assign conn t') (hpc' : ¬t'.pc.Listed) :
    Registered s' regs where
  next := hnext ▸ h.next
  bounded := hnext ▸ h.bounded
  distinct := h.distinct
  entry {c u} hu hlisted := by
    rw [hthreads, SortedMap.find?_assign] at hu
    split at hu
    · obtain rfl := Option.some.inj hu
      exact absurd hlisted hpc'
    · rename_i hc
      rw [hclients, SortedMap.find?_erase, if_neg (howned.sock_ne hu hlisted.2 ht hpc.2 hc)]
      exact h.entry hu hlisted
  placeholder {k c} hheld := by
    rw [hacceptor] at hheld
    have hne := howned.held_ne (by rw [hheld]; rfl) ht hpc.2
    rw [hclients, SortedMap.find?_erase, if_neg hne.symm]
    exact h.placeholder hheld
  threadless {c} hnone := by
    rw [hthreads, SortedMap.find?_assign] at hnone
    split at hnone
    · cases hnone
    · exact h.threadless hnone
  owner {k id} hid hne := by
    rw [hclients, SortedMap.find?_erase] at hid
    split at hid
    · cases hid
    · rename_i hk
      obtain ⟨c, u, hu, hlisted, hsock⟩ := h.owner hid hne
      have hc : c ≠ conn := by
        rintro rfl
        obtain rfl := Option.some.inj (ht.symm.trans hu)
        exact hk hsock.symm
      exact ⟨c, u, by rw [hthreads, SortedMap.find?_assign, if_neg hc, hu], hlisted, hsock⟩

theorem threadStep (h : Registered s regs) (howned : Owned s)
    (ht : s.threads.find? conn = some t) (text : Bytes) :
    Registered (SocketServer.threadStep s conn t text).1
      (regs ++ registrations (SocketServer.threadStep s conn t text).2) := by
  by_cases hremove : t.pc = .remove
  · have hstep : SocketServer.threadStep s conn t text =
        ({ s with threads := s.threads.assign conn { t with pc := .closing }
                  clients := s.clients.erase t.sock }, []) := by
      rw [SocketServer.threadStep, hremove]
    rw [hstep]
    refine (List.append_nil regs).symm ▸ h.remove howned ht ?_ rfl rfl rfl rfl fun hpc => ?_
    · rw [hremove]
      exact ⟨nofun, nofun⟩
    · exact hpc.1 rfl
  have hreg := threadStep_registry s conn t text (howned.listed ht) hremove
  rcases threadStep_cases s conn t text with hsame | ⟨t', hm, hcases⟩
  · rw [hsame]
    exact (List.append_nil regs).symm ▸ h
  rcases hreg with ⟨hnil, hclients, hnext⟩ | ⟨hready, hregs, hclients, hnext⟩
  · rw [hnil, List.append_nil]
    refine h.quiet hclients hnext hm.acceptor ht hm.threads hm.sock_eq ?_
    rcases hcases with ⟨hbefore, hafter, -⟩ | ⟨hpc, -⟩ | ⟨hpc, hpc', -⟩
    · exact iff_of_true hafter hbefore
    · exact absurd hpc hremove
    · exact iff_of_false (fun hl => hl.2 hpc') fun hl => hl.1 hpc
  · rw [hregs]
    rcases hcases with ⟨hbefore, hafter, -⟩ | ⟨hpc, -⟩ | ⟨hpc, -⟩
    · exact h.connect howned ht hbefore hclients hnext hm.acceptor hm.threads hm.sock_eq hafter
    · exact absurd hpc hremove
    · rw [hready] at hpc
      cases hpc

theorem accept (h : Registered s regs) (sock : ℕ) :
    Registered { s with
      descriptors := s.descriptors.assign sock s.connections
      connections := s.connections + 1
      acceptor := .accepted sock s.connections } regs :=
  ⟨h.next, h.bounded, h.distinct, h.entry, nofun, h.threadless, h.owner⟩

theorem acceptorStep (h : Registered s regs) (howned : Owned s) (created : Bool) :
    Registered (SocketServer.acceptorStep s created) regs := by
  unfold SocketServer.acceptorStep
  cases hacc : s.acceptor with
  | accepting => exact h
  | accepted sock conn =>
      refine ⟨h.next, h.bounded, h.distinct, fun ht hpc => ?_, ?_, h.threadless, fun hid hne => ?_⟩
      · have hne := howned.held_ne (by rw [hacc]; rfl) ht hpc.2
        exact (SortedMap.find?_assign _ _ _ _).trans ((if_neg hne).trans (h.entry ht hpc))
      · rintro _ _ ⟨⟩
        exact (SortedMap.find?_assign _ _ _ _).trans (if_pos rfl)
      · have hid := (SortedMap.find?_assign _ _ _ _).symm.trans hid
        split at hid
        · exact absurd (Option.some.inj hid).symm hne
        · exact h.owner hid hne
  | registered sock conn =>
      have hzero := h.placeholder hacc
      obtain ⟨-, hnone, -⟩ := howned.held (by rw [hacc]; rfl)
      dsimp only
      split
      · refine ⟨h.next, h.bounded, h.distinct, fun {c t} ht hpc => ?_, nofun, fun {c} hc => ?_,
          fun {k id} hid hne => ?_⟩
        · have ht := (SortedMap.find?_assign _ _ _ _).symm.trans ht
          split at ht
          · rename_i hc
            rw [← Option.some.inj ht, hc, h.threadless hnone]
            exact hzero
          · exact h.entry ht hpc
        · have hc := (SortedMap.find?_assign _ _ _ _).symm.trans hc
          split at hc
          · cases hc
          · exact h.threadless hc
        · obtain ⟨c, t, ht, hpc, hsock⟩ := h.owner hid hne
          refine ⟨c, t, (SortedMap.find?_assign _ _ _ _).trans ((if_neg ?_).trans ht), hpc, hsock⟩
          rintro rfl
          rw [hnone] at ht
          cases ht
      · exact ⟨h.next, h.bounded, h.distinct, h.entry, nofun, h.threadless, h.owner⟩
  | removing sock conn =>
      refine ⟨h.next, h.bounded, h.distinct, fun ht hpc => ?_, nofun, h.threadless,
        fun hid hne => ?_⟩
      · have hne := howned.held_ne (by rw [hacc]; rfl) ht hpc.2
        exact (SortedMap.find?_erase _ _ _).trans ((if_neg hne).trans (h.entry ht hpc))
      · have hid := (SortedMap.find?_erase _ _ _).symm.trans hid
        split at hid
        · cases hid
        · exact h.owner hid hne
  | closing sock conn =>
      exact ⟨h.next, h.bounded, h.distinct, h.entry, nofun, h.threadless, h.owner⟩

theorem recvStep (h : Registered s regs) (ht : s.threads.find? conn = some t) (hwaits : t.Waits)
    (chunk : Bytes) : Registered (SocketServer.recvStep s conn t chunk).1 regs :=
  h.quiet rfl rfl rfl ht rfl (t.afterRecv_sock chunk)
    (iff_of_true (hwaits.afterRecv_listed chunk) hwaits.listed)

/-- Every event keeps the invariant. -/
theorem step {r : Run} (h : Registered r.server (registrations r.log)) (howned : Owned r.server)
    (e : Event) : Registered (r.step e).server (registrations (r.step e).log) := by
  have hstep := r.stepOf e
  generalize r.step e = r' at hstep
  cases hstep with
  | idle => exact h
  | accept halive hacceptor hfree => exact h.accept _
  | acceptor halive => exact h.acceptorStep howned _
  | recv halive ht hwaits =>
      rw [registrations_append]
      exact (List.append_nil _).symm ▸ h.recvStep ht hwaits _
  | @act conn text t halive ht =>
      have hquiet : registrations (changes r.server
          (SocketServer.threadStep r.server conn t text).1 conn) = [] :=
        registrations_eq_nil fun c id hmem => nomatch conn_of_changes hmem
      rw [registrations_append, registrations_append, hquiet, List.append_nil]
      exact h.threadStep howned ht text
  | brokenPipe halive ht hsends => exact { h with }

theorem run (es : List Event) :
    Registered (StepSystem.run Run.step Run.new es).server
      (registrations (StepSystem.run Run.step Run.new es).log) := by
  have hnew : Owned Run.new.server ∧ Registered Run.new.server (registrations Run.new.log) :=
    ⟨Owned.new, new⟩
  have hinv := StepSystem.run_invariant
    (P := fun r : Run => Owned r.server ∧ Registered r.server (registrations r.log))
    (fun _ e h => ⟨h.1.step e, h.2.step h.1 e⟩) es hnew
  exact hinv.2

end Registered

/-! ### Lookups -/

theorem findTarget_eq_none {clients : SortedMap ℕ ℤ} {targetId : ℤ} :
    findTarget clients targetId = none ↔ ∀ sock, clients.find? sock ≠ some targetId := by
  rw [findTarget, Option.map_eq_none_iff, List.find?_eq_none]
  constructor
  · intro h sock hid
    exact h _ (SortedMap.find?_eq_some.mp hid) (beq_self_eq_true _)
  · intro h e he hid
    exact h e.1 (SortedMap.find?_eq_some.mpr (eq_of_beq hid ▸ he))

section Lookup

variable {r : Run} {c d : ℕ} {id : ℤ} {t : Thread}

theorem Holds.pos (h : Registered r.server (registrations r.log)) (hholds : Holds r d id) :
    0 < id := (h.bounded _ (mem_of_lastId? hholds.2)).1

/-- No two clients hold the same id. -/
theorem Holds.unique (h : Registered r.server (registrations r.log)) (hc : Holds r c id)
    (hd : Holds r d id) : c = d :=
  congrArg Prod.fst (List.inj_on_of_nodup_map h.distinct (mem_of_lastId? hc.2)
    (mem_of_lastId? hd.2) rfl)

/-- An id other than the placeholder is in the map for the client that holds it. -/
theorem holds_of_find? (h : Registered r.server (registrations r.log)) {sock : ℕ}
    (hid : r.server.clients.find? sock = some id) (hne : id ≠ 0) :
    ∃ c t, r.server.threads.find? c = some t ∧ t.sock = sock ∧ Holds r c id := by
  obtain ⟨c, t, ht, hpc, rfl⟩ := h.owner hid hne
  refine ⟨c, t, ht, rfl, ⟨t, ht, hpc⟩, ?_⟩
  have hentry := (h.entry ht hpc).symm.trans hid
  cases hlast : lastId? c (registrations r.log) with
  | none =>
      rw [hlast] at hentry
      exact absurd (Option.some.inj hentry).symm hne
  | some id' =>
      rw [hlast] at hentry
      exact hentry

/-- The lookup finds the holder. -/
theorem findTarget_of_holds (h : Registered r.server (registrations r.log)) (hd : Holds r d id)
    (ht : r.server.threads.find? d = some t) :
    findTarget r.server.clients id = some t.sock := by
  obtain ⟨⟨t', ht', hpc⟩, hlast⟩ := hd
  obtain rfl := Option.some.inj (ht.symm.trans ht')
  have hentry := h.entry ht hpc
  rw [hlast] at hentry
  cases hfind : findTarget r.server.clients id with
  | none => exact absurd hentry (findTarget_eq_none.mp hfind t.sock)
  | some sock =>
      have hpos := Holds.pos h ⟨⟨t, ht, hpc⟩, hlast⟩
      obtain ⟨c, u, hu, rfl, hc⟩ := holds_of_find? h (find?_of_findTarget hfind) hpos.ne'
      obtain rfl := Holds.unique h hc ⟨⟨t, ht, hpc⟩, hlast⟩
      rw [Option.some.inj (ht.symm.trans hu)]

/-- The lookup finds nobody exactly when nobody holds the id and no placeholder has its value. -/
theorem findTarget_eq_none_iff (h : Registered r.server (registrations r.log)) :
    findTarget r.server.clients id = none ↔
      (∀ d, ¬Holds r d id) ∧ ¬(id = 0 ∧ ∃ sock, r.server.clients.find? sock = some 0) := by
  constructor
  · intro hnone
    refine ⟨fun d hd => ?_, ?_⟩
    · obtain ⟨t, ht, -⟩ := hd.1
      rw [findTarget_of_holds h hd ht] at hnone
      cases hnone
    · rintro ⟨rfl, sock, hid⟩
      exact findTarget_eq_none.mp hnone sock hid
  · rintro ⟨hnobody, hzero⟩
    refine findTarget_eq_none.mpr fun sock hid => ?_
    by_cases hne : id = 0
    · exact hzero ⟨hne, sock, hne ▸ hid⟩
    · obtain ⟨c, t, -, -, hc⟩ := holds_of_find? h hid hne
      exact hnobody c hc

end Lookup

end SocketServer

end CourseNet
