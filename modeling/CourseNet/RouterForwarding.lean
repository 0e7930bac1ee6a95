import CourseNet.RouteSelection
import Mathlib.Data.List.Forall2

/-!
# What a call of `route` does

The two loops, against the specification: they take the queued datagrams in order, what they decide
about each one is `decisionFor`, and the interfaces carry the decisions out one after the other.
Whether that is longest prefix match (`Forwards`) is up to the index that the search keeps.
-/

namespace CourseNet

namespace Router

variable {r r' r'' : Router} {n : ℕ} {q : List IPv4Datagram}

/-- The interfaces without their queues. -/
def cores (r : Router) : List NetworkInterface := r.interfaces.map (·.toNetworkInterface)

/-- The queued datagrams, in the order in which the loops meet them. -/
def datagrams (r : Router) : List IPv4Datagram := r.interfaces.flatMap (·.datagramsOut)

/-- A decision is at most one `send_datagram`, on one interface. -/
def deliver (cores : List NetworkInterface) : Decision → List NetworkInterface
  | .send n dgram nextHop => cores.modify n fun i => (i.sendDatagram dgram nextHop).1
  | _ => cores

/-- What a call of `route` has to do: route every queued datagram by the longest prefix match. -/
structure Forwards (routes : List RouteEntry) (r : Router) : Prop where
  status : r.route.2.2 = .ok
  table : r.route.1.routingTable = routes
  drained : ∀ i ∈ r.route.1.interfaces, i.datagramsOut = []
  specified : List.Forall₂ (Specified routes) r.datagrams r.route.2.1
  delivered : r.route.1.cores = r.route.2.1.foldl deliver r.cores

/-! ### One datagram -/

/-- A stretch of the loops: the interfaces carry the decisions out. -/
structure CarriesOut (r r' : Router) (decisions : List Decision) : Prop where
  table : r'.routingTable = r.routingTable
  cores : r'.cores = decisions.foldl deliver r.cores

theorem CarriesOut.refl (r : Router) : CarriesOut r r [] := ⟨rfl, rfl⟩

theorem CarriesOut.trans {ds es : List Decision} (h : CarriesOut r r' ds)
    (h' : CarriesOut r' r'' es) : CarriesOut r r'' (ds ++ es) :=
  ⟨h'.table.trans h.table, by rw [h'.cores, h.cores, List.foldl_append]⟩

theorem deliver_length (cores : List NetworkInterface) (d : Decision) :
    (deliver cores d).length = cores.length := by
  cases d <;> simp [deliver]

theorem CarriesOut.length_eq {ds : List Decision} (h : CarriesOut r r' ds) :
    r'.interfaces.length = r.interfaces.length := by
  have hlength : ∀ cores : List NetworkInterface,
      (ds.foldl deliver cores).length = cores.length := by
    clear h
    induction ds with
    | nil => exact fun _ => rfl
    | cons d ds ih => exact fun cores => (ih _).trans (deliver_length cores d)
  have hcores := (congrArg List.length h.cores).trans (hlength _)
  rwa [Router.cores, Router.cores, List.length_map, List.length_map] at hcores

theorem setQueue_carriesOut (r : Router) (n : ℕ) (q : List IPv4Datagram) :
    CarriesOut r (r.setQueue n q) [] := by
  refine ⟨rfl, List.ext_getElem? fun j => ?_⟩
  show ((r.interfaces.modify n _).map _)[j]? = (r.interfaces.map _)[j]?
  rw [List.getElem?_map, List.getElem?_map, List.getElem?_modify]
  cases r.interfaces[j]? with
  | none => rfl
  | some i =>
      show some (if n = j then _ else i).toNetworkInterface = some i.toNetworkInterface
      split <;> rfl

/-- A queue that is not empty is that of an interface. -/
theorem queue_setQueue (h : r.queue n ≠ []) (q : List IPv4Datagram) (j : ℕ) :
    (r.setQueue n q).queue j = if j = n then q else r.queue j := by
  show (((r.interfaces.modify n _)[j]?).map _).getD [] = _
  rw [List.getElem?_modify]
  by_cases hj : j = n
  · subst hj
    rw [if_pos rfl]
    unfold queue at h
    cases hget : r.interfaces[j]? with
    | none => exact absurd (by rw [hget]; rfl) h
    | some i => simp
  · rw [if_neg hj, queue]
    cases r.interfaces[j]? with
    | none => rfl
    | some i => simp [Ne.symm hj]

theorem perform_send {i : AsyncNetworkInterface} (hget : r.interfaces[n]? = some i)
    (dgram : IPv4Datagram) (nextHop : UInt32) :
    r.perform (.send n dgram nextHop) =
      ({ r with interfaces := r.interfaces.set n (i.sendDatagram dgram nextHop).1 },
        if (i.sendDatagram dgram nextHop).2 then .throws else .ok) := by
  rw [perform, hget]

theorem perform_send_none (hget : r.interfaces[n]? = none) (dgram : IPv4Datagram)
    (nextHop : UInt32) : r.perform (.send n dgram nextHop) = (r, .undefined) := by
  rw [perform, hget]

theorem perform_carriesOut (r : Router) (d : Decision) : CarriesOut r (r.perform d).1 [d] := by
  cases d with
  | discard => exact ⟨rfl, rfl⟩
  | undefined => exact ⟨rfl, rfl⟩
  | send n dgram nextHop =>
      cases hget : r.interfaces[n]? with
      | none =>
          rw [perform_send_none hget]
          have hlength : r.cores.length ≤ n := by
            rw [Router.cores, List.length_map]
            exact List.getElem?_eq_none_iff.mp hget
          exact ⟨rfl, (List.modify_eq_self hlength).symm⟩
      | some i =>
          rw [perform_send hget]
          refine ⟨rfl, List.ext_getElem? fun j => ?_⟩
          show ((r.interfaces.set n _).map _)[j]? = ((r.interfaces.map _).modify n _)[j]?
          rw [List.getElem?_map, List.getElem?_modify, List.getElem?_map, List.getElem?_set]
          by_cases hj : n = j
          · subst hj
            rw [if_pos rfl, if_pos (List.getElem?_eq_some_iff.mp hget).1, hget]
            simp [AsyncNetworkInterface.sendDatagram]
          · simp [hj]

/-- Sending does not touch a queue. -/
theorem perform_queue (r : Router) (d : Decision) (j : ℕ) :
    (r.perform d).1.queue j = r.queue j := by
  cases d with
  | discard => rfl
  | undefined => rfl
  | send n dgram nextHop =>
      cases hget : r.interfaces[n]? with
      | none => rw [perform_send_none hget]
      | some i =>
          rw [perform_send hget]
          show (((r.interfaces.set n _)[j]?).map _).getD [] = ((r.interfaces[j]?).map _).getD []
          rw [List.getElem?_set]
          by_cases hj : n = j
          · subst hj
            rw [if_pos rfl, if_pos (List.getElem?_eq_some_iff.mp hget).1, hget]
            rfl
          · rw [if_neg hj]

/-- What a decision needs to be carried out by one of `count` interfaces. -/
def Feasible (count : ℕ) : Decision → Prop
  | .discard => True
  | .send n dgram _ => n < count ∧ dgram.serialize.isSome
  | .undefined => False

theorem perform_ok {d : Decision} (h : Feasible r.interfaces.length d) :
    (r.perform d).2 = .ok := by
  cases d with
  | discard => rfl
  | undefined => exact h.elim
  | send n dgram nextHop =>
      obtain ⟨hn, hsome⟩ := h
      obtain ⟨payload, hpayload⟩ := Option.isSome_iff_exists.mp hsome
      rw [perform_send (List.getElem?_eq_getElem hn), AsyncNetworkInterface.sendDatagram,
        NetworkInterface.sendDatagram, hpayload]
      cases (r.interfaces[n]).arpCache.find? nextHop <;> rfl

/-! ### The loops -/

theorem drain_zero (n : ℕ) (r : Router) : r.drain n 0 = (r, [], .ok) := rfl

theorem drain_nil {fuel : ℕ} (hq : r.queue n = []) : r.drain n fuel = (r, [], .ok) := by
  cases fuel with
  | zero => rfl
  | succ fuel => rw [drain, hq]

/-- A turn whose datagram is routed. -/
theorem drain_cons_ok {fuel : ℕ} {dgram : IPv4Datagram} (hq : r.queue n = dgram :: q)
    (hperform : r.perform (decisionFor r.routingTable dgram) = (r', .ok)) :
    r.drain n (fuel + 1) =
      (((r'.setQueue n q).drain n fuel).1,
        decisionFor r.routingTable dgram :: ((r'.setQueue n q).drain n fuel).2.1,
        ((r'.setQueue n q).drain n fuel).2.2) := by
  rw [drain, hq]
  simp only [routeOneDatagram, hperform]

/-- A turn that ends the call. -/
theorem drain_cons_status {fuel : ℕ} {dgram : IPv4Datagram} {status : RouteStatus}
    (hq : r.queue n = dgram :: q)
    (hperform : r.perform (decisionFor r.routingTable dgram) = (r', status))
    (hstatus : status ≠ .ok) : (r.drain n (fuel + 1)).2.2 = status := by
  rw [drain, hq]
  simp only [routeOneDatagram, hperform]

/-- The queue after a turn, and the others. -/
theorem queue_after_turn {dgram : IPv4Datagram} (hq : r.queue n = dgram :: q) (d : Decision)
    (j : ℕ) : ((r.perform d).1.setQueue n q).queue j = if j = n then q else r.queue j := by
  have hne : (r.perform d).1.queue n ≠ [] := by
    rw [perform_queue, hq]
    exact List.cons_ne_nil _ _
  rw [queue_setQueue hne, perform_queue]

/-- The inner loop, if it ends well: it takes the whole queue and no other. -/
theorem drain_spec {fuel : ℕ} (hfuel : (r.queue n).length ≤ fuel)
    (hok : (r.drain n fuel).2.2 = .ok) :
    CarriesOut r (r.drain n fuel).1 (r.drain n fuel).2.1 ∧
      (r.drain n fuel).2.1 = (r.queue n).map (decisionFor r.routingTable) ∧
      ∀ j, (r.drain n fuel).1.queue j = if j = n then [] else r.queue j := by
  induction fuel generalizing r with
  | zero =>
      have hnil := List.length_eq_zero_iff.mp (Nat.le_zero.mp hfuel)
      rw [drain_zero, hnil]
      exact ⟨CarriesOut.refl r, rfl, fun j => by split_ifs with h <;> [rw [h, hnil]; rfl]⟩
  | succ fuel ih =>
      cases hq : r.queue n with
      | nil =>
          rw [drain_nil hq]
          exact ⟨CarriesOut.refl r, rfl, fun j => by split_ifs with h <;> [rw [h, hq]; rfl]⟩
      | cons dgram q =>
          have hcarries := r.perform_carriesOut (decisionFor r.routingTable dgram)
          have hqueue := queue_after_turn hq (decisionFor r.routingTable dgram)
          cases hperform : r.perform (decisionFor r.routingTable dgram) with
          | mk r₁ status =>
              rw [hperform] at hcarries hqueue
              by_cases hstatus : status = .ok
              · subst hstatus
                rw [drain_cons_ok hq hperform] at hok ⊢
                have hself := hqueue n
                rw [if_pos rfl] at hself
                have hlength : ((r₁.setQueue n q).queue n).length ≤ fuel := by
                  rw [hq] at hfuel
                  rw [hself]
                  exact Nat.le_of_succ_le_succ hfuel
                obtain ⟨hrest, hdecisions, hqueues⟩ := ih hlength hok
                have hturn := hcarries.trans (r₁.setQueue_carriesOut n q)
                refine ⟨hturn.trans hrest, ?_, fun j => ?_⟩
                · rw [hdecisions, hself, hturn.table]
                  rfl
                · rw [hqueues, hqueue]
                  split <;> rfl
              · rw [drain_cons_status hq hperform hstatus] at hok
                exact absurd hok hstatus

/-- The inner loop ends well when the decisions can be carried out. -/
theorem drain_ok (fuel : ℕ)
    (h : ∀ d ∈ r.queue n, Feasible r.interfaces.length (decisionFor r.routingTable d)) :
    (r.drain n fuel).2.2 = .ok := by
  induction fuel generalizing r with
  | zero => rfl
  | succ fuel ih =>
      cases hq : r.queue n with
      | nil => rw [drain_nil hq]
      | cons dgram q =>
          have hcarries := (r.perform_carriesOut (decisionFor r.routingTable dgram)).trans
            (setQueue_carriesOut _ n q)
          have hqueue := queue_after_turn hq (decisionFor r.routingTable dgram) n
          have hstatus := perform_ok (h dgram (by rw [hq]; exact List.mem_cons_self))
          rw [drain_cons_ok hq (Prod.ext rfl hstatus)]
          refine ih fun d hd => ?_
          rw [hqueue, if_pos rfl] at hd
          rw [hcarries.length_eq, hcarries.table]
          exact h d (by rw [hq]; exact List.mem_cons_of_mem _ hd)

theorem drainAll_cons_ok {ns : List ℕ} (hok : (r.drain n (r.queue n).length).2.2 = .ok) :
    r.drainAll (n :: ns) =
      (((r.drain n (r.queue n).length).1.drainAll ns).1,
        (r.drain n (r.queue n).length).2.1 ++
          ((r.drain n (r.queue n).length).1.drainAll ns).2.1,
        ((r.drain n (r.queue n).length).1.drainAll ns).2.2) := by
  rw [drainAll]
  cases hdrain : r.drain n (r.queue n).length with
  | mk r₁ out =>
      obtain ⟨decisions, status⟩ := out
      rw [hdrain] at hok
      obtain rfl : status = .ok := hok
      rfl

theorem drainAll_cons_status {ns : List ℕ}
    (hstatus : (r.drain n (r.queue n).length).2.2 ≠ .ok) :
    (r.drainAll (n :: ns)).2.2 = (r.drain n (r.queue n).length).2.2 := by
  rw [drainAll]
  cases hdrain : r.drain n (r.queue n).length with
  | mk r₁ out =>
      obtain ⟨decisions, status⟩ := out
      rw [hdrain] at hstatus
      cases status with
      | ok => exact absurd rfl hstatus
      | throws => rfl
      | undefined => rfl

/-- The queues that are still to be drained are as they were. -/
theorem flatMap_queue_congr {ns : List ℕ} (hmem : n ∉ ns)
    (hqueue : ∀ j, r'.queue j = if j = n then [] else r.queue j) :
    ns.flatMap r'.queue = ns.flatMap r.queue :=
  List.flatMap_congr fun j hj => by
    rw [hqueue, if_neg fun h : j = n => hmem (h ▸ hj)]

/-- The outer loop, if it ends well. -/
theorem drainAll_spec {ns : List ℕ} (hnodup : ns.Nodup) (hok : (r.drainAll ns).2.2 = .ok) :
    CarriesOut r (r.drainAll ns).1 (r.drainAll ns).2.1 ∧
      (r.drainAll ns).2.1 = (ns.flatMap r.queue).map (decisionFor r.routingTable) ∧
      ∀ j, (r.drainAll ns).1.queue j = if j ∈ ns then [] else r.queue j := by
  induction ns generalizing r with
  | nil => exact ⟨CarriesOut.refl r, rfl, fun j => rfl⟩
  | cons n ns ih =>
      obtain ⟨hmem, hnodup⟩ := List.nodup_cons.mp hnodup
      by_cases hdrain : (r.drain n (r.queue n).length).2.2 = .ok
      · rw [drainAll_cons_ok hdrain] at hok ⊢
        obtain ⟨hcarries, hdecisions, hqueue⟩ := drain_spec le_rfl hdrain
        obtain ⟨hrest, hmore, hqueues⟩ := ih hnodup hok
        refine ⟨hcarries.trans hrest, ?_, fun j => ?_⟩
        · rw [hdecisions, hmore, hcarries.table, flatMap_queue_congr hmem hqueue,
            List.flatMap_cons, List.map_append]
        · rw [hqueues, hqueue]
          by_cases hj : j = n <;> by_cases hjs : j ∈ ns <;> simp [hj, hjs]
      · rw [drainAll_cons_status hdrain] at hok
        exact absurd hok hdrain

theorem drainAll_ok {ns : List ℕ} (hnodup : ns.Nodup)
    (h : ∀ n ∈ ns, ∀ d ∈ r.queue n,
      Feasible r.interfaces.length (decisionFor r.routingTable d)) :
    (r.drainAll ns).2.2 = .ok := by
  induction ns generalizing r with
  | nil => rfl
  | cons n ns ih =>
      obtain ⟨hmem, hnodup⟩ := List.nodup_cons.mp hnodup
      have hdrain := drain_ok (r.queue n).length (h n List.mem_cons_self)
      obtain ⟨hcarries, -, hqueue⟩ := drain_spec le_rfl hdrain
      rw [drainAll_cons_ok hdrain]
      refine ih hnodup fun m hm d hd => ?_
      rw [hqueue, if_neg fun h : m = n => hmem (h ▸ hm)] at hd
      rw [hcarries.length_eq, hcarries.table]
      exact h m (List.mem_cons_of_mem _ hm) d hd

/-! ### A call -/

theorem datagrams_eq (r : Router) :
    (List.range r.interfaces.length).flatMap r.queue = r.datagrams := by
  rw [datagrams, List.flatMap_def, List.flatMap_def]
  refine congrArg List.flatten (List.ext_getElem (by simp) fun j hj _ => ?_)
  have hlt : j < r.interfaces.length := by simpa using hj
  simp [queue, List.getElem?_eq_getElem hlt]

theorem foldl_addRoute (routes : List RouteEntry) (r : Router) :
    routes.foldl addRoute r = { r with routingTable := r.routingTable ++ routes } := by
  induction routes generalizing r with
  | nil => simp
  | cons e routes ih =>
      rw [List.foldl_cons, ih, addRoute]
      simp

/-- Nothing queued, interface by interface. -/
theorem drained_iff : (∀ i ∈ r.interfaces, i.datagramsOut = []) ↔ ∀ j, r.queue j = [] := by
  constructor
  · intro h j
    unfold queue
    cases hget : r.interfaces[j]? with
    | none => rfl
    | some i => exact h i (List.mem_of_getElem? hget)
  · intro h i hi
    obtain ⟨j, hget⟩ := List.mem_iff_getElem?.mp hi
    have hj := h j
    rwa [queue, hget] at hj

theorem route_spec (hok : r.route.2.2 = .ok) :
    CarriesOut r r.route.1 r.route.2.1 ∧
      r.route.2.1 = r.datagrams.map (decisionFor r.routingTable) ∧
      ∀ i ∈ r.route.1.interfaces, i.datagramsOut = [] := by
  obtain ⟨hcarries, hdecisions, hqueue⟩ := drainAll_spec List.nodup_range hok
  refine ⟨hcarries, hdecisions.trans (by rw [datagrams_eq]), drained_iff.mpr fun j => ?_⟩
  rw [show r.route.1.queue j = _ from hqueue j]
  split_ifs with hj
  · rfl
  · have hge : r.interfaces.length ≤ j := by simpa using hj
    rw [queue, List.getElem?_eq_none hge]
    rfl

theorem route_ok
    (h : ∀ d ∈ r.datagrams, Feasible r.interfaces.length (decisionFor r.routingTable d)) :
    r.route.2.2 = .ok := by
  refine drainAll_ok List.nodup_range fun n hn d hd => h d ?_
  rw [← datagrams_eq]
  exact List.mem_flatMap.mpr ⟨n, hn, hd⟩

/-- What longest prefix match asks for can be carried out. -/
theorem Specified.feasible {routes : List RouteEntry} {dgram : IPv4Datagram} {d : Decision}
    {count : ℕ} (h : Specified routes dgram d) (hnum : ∀ e ∈ routes, e.interfaceNum < count)
    (hdgram : dgram.serialize.isSome) : Feasible count d := by
  cases h with
  | expired => trivial
  | unreachable => trivial
  | forwarded k e _ hroute =>
      refine ⟨hnum e hroute.mem, ?_⟩
      rw [IPv4Datagram.serialize_isSome_iff] at hdgram ⊢
      exact hdgram

theorem forwards_iff {routes : List RouteEntry} (htable : r.routingTable = routes)
    (hnum : ∀ e ∈ routes, e.interfaceNum < r.interfaces.length)
    (hdgram : ∀ d ∈ r.datagrams, d.serialize.isSome) :
    Forwards routes r ↔ ∀ d ∈ r.datagrams, Specified routes d (decisionFor routes d) := by
  subst htable
  constructor
  · intro h
    obtain ⟨-, hdecisions, -⟩ := route_spec h.status
    have hspecified := h.specified
    rw [hdecisions, List.forall₂_map_right_iff, List.forall₂_same] at hspecified
    exact hspecified
  · intro h
    have hok := route_ok fun d hd => (h d hd).feasible hnum (hdgram d hd)
    obtain ⟨hcarries, hdecisions, hdrained⟩ := route_spec hok
    refine ⟨hok, hcarries.table, hdrained, ?_, hcarries.cores⟩
    rw [hdecisions, List.forall₂_map_right_iff, List.forall₂_same]
    exact h

/-- **Longest prefix match.**  For any table built by `add_route` with prefix lengths up to 32 and
valid interface numbers, and any queues of datagrams that can be serialized: a call of `route` does
what longest prefix match asks for if and only if no datagram that is still alive has its route at
an index that an `int` turns into something that sends differently. -/
theorem route_forwards_iff (interfaces : List AsyncNetworkInterface) (routes : List RouteEntry)
    (hlen : ∀ e ∈ routes, e.prefixLength.toNat ≤ 32)
    (hnum : ∀ e ∈ routes, e.interfaceNum < interfaces.length)
    (hdgram : ∀ i ∈ interfaces, ∀ d ∈ i.datagramsOut, d.serialize.isSome) :
    Forwards routes (routes.foldl addRoute { interfaces := interfaces }) ↔
      ∀ i ∈ interfaces, ∀ d ∈ i.datagramsOut, 1 < d.header.ttl →
        ∀ k e, IsRoute routes d.header.dst k e → KeepsRoute routes d.header.dst k e := by
  rw [foldl_addRoute]
  show Forwards routes { interfaces := interfaces, routingTable := routes } ↔ _
  have hmem : ∀ d : IPv4Datagram, d ∈ interfaces.flatMap (·.datagramsOut) ↔
      ∃ i ∈ interfaces, d ∈ i.datagramsOut := fun _ => List.mem_flatMap
  have hwell : ∀ d ∈ interfaces.flatMap (·.datagramsOut), d.serialize.isSome := by
    intro d hd
    obtain ⟨i, hi, hd⟩ := (hmem d).mp hd
    exact hdgram i hi d hd
  refine (forwards_iff (r := ⟨interfaces, routes⟩) rfl hnum hwell).trans ⟨?_, ?_⟩
  · intro h i hi d hd
    exact (decisionFor_specified_iff hlen).mp (h d ((hmem d).mpr ⟨i, hi, hd⟩))
  · intro h d hd
    obtain ⟨i, hi, hd⟩ := (hmem d).mp hd
    exact (decisionFor_specified_iff hlen).mpr (h i hi d hd)

/-- Two interfaces, a default route and a network that is directly attached. -/
theorem route_forwards_attached :
    let dgram : IPv4Datagram := { header := { len := 20, ttl := 64, dst := 0x0a010203 } }
    let interfaces : List AsyncNetworkInterface :=
      [{ NetworkInterface.new (Vector.replicate 6 2) 0xc0000201 with datagramsOut := [dgram] },
        { NetworkInterface.new (Vector.replicate 6 3) 0x0a000001 with }]
    let routes : List RouteEntry := [⟨0, 0, some 0xc0000202, 0⟩, ⟨0x0a000000, 8, none, 1⟩]
    Forwards routes (routes.foldl addRoute { interfaces := interfaces }) ∧
      (routes.foldl addRoute { interfaces := interfaces }).route.2.1 =
        [.send 1 dgram.decrementTtl 0x0a010203] := by
  intro dgram interfaces routes
  refine ⟨(route_forwards_iff interfaces routes (by decide) (by decide) (by decide)).mpr ?_,
    by decide⟩
  intro i _ d _ _ k e hroute
  exact KeepsRoute.of_lt (hroute.lt_length.trans (by decide)) hroute.get

/-- In a table of 2³² default routes the last one has the index whose `int` is the sentinel: the
datagram is dropped. -/
theorem route_drops_at_sentinel_index :
    let dgram : IPv4Datagram := { header := { len := 20, ttl := 64, dst := 0x0a010203 } }
    let interfaces : List AsyncNetworkInterface :=
      [{ NetworkInterface.new (Vector.replicate 6 2) 0xc0000201 with datagramsOut := [dgram] }]
    let e : RouteEntry := ⟨0, 0, none, 0⟩
    let r := (List.replicate (2 ^ 32) e).foldl addRoute { interfaces := interfaces }
    (∀ x ∈ List.replicate (2 ^ 32) e,
        x.prefixLength.toNat ≤ 32 ∧ x.interfaceNum < interfaces.length) ∧
      (∀ i ∈ interfaces, ∀ d ∈ i.datagramsOut, d.serialize.isSome) ∧
      r.route.2.1 = [.discard] ∧ ¬Forwards (List.replicate (2 ^ 32) e) r := by
  intro dgram interfaces e r
  have hcovers : e.Covers dgram.header.dst := by decide
  have hroute : IsRoute (List.replicate (2 ^ 32) e) dgram.header.dst (2 ^ 32 - 1) e :=
    IsLastBest.replicate (by norm_num) hcovers
  have hvalid : ∀ x ∈ List.replicate (2 ^ 32) e,
      x.prefixLength.toNat ≤ 32 ∧ x.interfaceNum < interfaces.length := by
    intro x hx
    rw [List.eq_of_mem_replicate hx]
    decide
  have hdecision : decisionFor (List.replicate (2 ^ 32) e) dgram = .discard := by
    rcases search_spec dgram.header.dst (fun x hx => (hvalid x hx).1)
      with ⟨hnone, -⟩ | ⟨k, b, hbest, hsearch⟩
    · exact absurd hcovers (hnone e hroute.mem)
    · obtain ⟨rfl, rfl⟩ := hroute.unique hbest
      rw [decisionFor_eq (by decide) hsearch]
      exact if_pos (by decide)
  have hr : r = { interfaces := interfaces, routingTable := List.replicate (2 ^ 32) e } :=
    foldl_addRoute _ _
  have hroutes : r.route.2.1 = [.discard] := by
    rw [hr]
    have hok : (Router.mk interfaces (List.replicate (2 ^ 32) e)).route.2.2 = .ok := by
      refine route_ok fun d hd => ?_
      obtain rfl : d = dgram := List.mem_singleton.mp hd
      show Feasible _ (decisionFor (List.replicate (2 ^ 32) e) dgram)
      rw [hdecision]
      trivial
    rw [(route_spec hok).2.1]
    exact congrArg (fun d => [d]) hdecision
  refine ⟨hvalid, by decide, hroutes, fun h => ?_⟩
  have hspecified := h.specified
  rw [hroutes, hr] at hspecified
  obtain ⟨hspec, -⟩ := List.forall₂_cons.mp hspecified
  cases hspec with
  | expired httl => exact absurd httl (by decide)
  | unreachable hnone => exact hnone e hroute.mem hcovers

end Router

end CourseNet
