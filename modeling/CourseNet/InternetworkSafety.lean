import CourseNet.Neighbours

/-!
# Datagrams travel along routes

Whatever is sent, delayed, lost, doubled and reordered: what comes up from an interface is a datagram
that a host was given, after a journey on which every router chose the longest prefix match and
every hop ended at the interface with the IP address chosen (`Journey`).  No call of a run throws.
-/

namespace CourseNet

namespace EthernetFrame

variable {frame : EthernetFrame} {d : IPv4Datagram}

theorem datagram?_concatenated (htype : frame.header.type = EthernetHeader.typeIPv4)
    (hparse : ({} : IPv4Datagram).parse frame.payload.concatenate = (d, .noError)) :
    frame.concatenated.datagram? = some d := by
  refine (if_pos (beq_iff_eq.mpr htype)).trans ?_
  unfold concatenated
  dsimp only [BufferList.toBuffer]
  rw [hparse]

theorem type_of_datagram? (h : frame.concatenated.datagram? = some d) :
    frame.header.type = EthernetHeader.typeIPv4 := by
  by_contra hother
  have hnone : frame.concatenated.datagram? = none := if_neg (by simpa [concatenated] using hother)
  rw [hnone] at h
  cases h

end EthernetFrame

namespace NetworkInterface

/-- What can be serialized is sent or waits. -/
theorem sendDatagram_not_threw {dgram : IPv4Datagram} (h : dgram.serialize.isSome)
    (i : NetworkInterface) (hop : UInt32) : (i.sendDatagram dgram hop).2 = false := by
  obtain ⟨payload, hpayload⟩ := Option.isSome_iff_exists.mp h
  unfold sendDatagram
  rw [hpayload]
  split <;> rfl

end NetworkInterface

namespace AsyncNetworkInterface

/-- The core of an interface goes its own way. -/
theorem recvFrame_core (i : AsyncNetworkInterface) (frame : EthernetFrame) :
    (i.recvFrame frame).1.toNetworkInterface =
      i.toNetworkInterface.step (.recvFrame frame) := by
  unfold recvFrame
  show _ = (i.toNetworkInterface.recvFrame frame).1
  generalize i.toNetworkInterface.recvFrame frame = r
  obtain ⟨core, outcome⟩ := r
  cases outcome <;> rfl

/-- The datagram that comes up from the interface with this address when it is handed the frame. -/
def handed? (address : EthernetAddress) (frame : EthernetFrame) : Option IPv4Datagram :=
  if frame.header.dst == address || frame.header.dst == ethernetBroadcast then
    frame.concatenated.datagram?
  else none

/-- If nothing that waits makes it throw, an interface queues what is in a frame for it. -/
theorem recvFrame_concatenated {i : AsyncNetworkInterface} (h : i.Serializable)
    (frame : EthernetFrame) :
    (i.recvFrame frame.concatenated).1.datagramsOut =
        i.datagramsOut ++ (handed? i.ethernetAddress frame).toList ∧
      (i.recvFrame frame.concatenated).2 = false := by
  have houtcome := NetworkInterface.recvFrame_outcome h frame.header frame.payload.concatenate
  have hhanded : (i.toNetworkInterface.recvFrame frame.concatenated).2 =
      (handed? i.ethernetAddress frame).elim .empty .datagram := by
    refine houtcome.trans ?_
    unfold handed?
    show (if frame.header.dst == i.ethernetAddress || frame.header.dst == ethernetBroadcast then
      frame.concatenated.datagram?.elim _ _ else _) = _
    split <;> rfl
  unfold recvFrame
  generalize i.toNetworkInterface.recvFrame frame.concatenated = r at hhanded
  obtain ⟨core, outcome⟩ := r
  have hhanded : outcome = _ := hhanded
  rcases hd : handed? i.ethernetAddress frame with _ | d
  · rw [hd] at hhanded
    subst hhanded
    exact ⟨(List.append_nil _).symm, rfl⟩
  · rw [hd] at hhanded
    subst hhanded
    exact ⟨rfl, rfl⟩

end AsyncNetworkInterface

namespace Router

variable {table : List RouteEntry} {dgram : IPv4Datagram}

/-- In a table whose indices an `int` holds, every decision is the longest prefix match. -/
theorem specified_of_le (hlen : ∀ e ∈ table, e.prefixLength.toNat ≤ 32)
    (hsize : table.length ≤ 2 ^ 31) (dgram : IPv4Datagram) :
    Specified table dgram (decisionFor table dgram) :=
  (decisionFor_specified_iff hlen).mpr fun _ _ _ hroute =>
    KeepsRoute.of_lt (hroute.lt_length.trans_le hsize) hroute.get

theorem interfaces_addInterface (f : ℕ → AsyncNetworkInterface) (nums : List ℕ) (r : Router) :
    nums.foldl (fun r num => (r.addInterface (f num)).1) r =
      { r with interfaces := r.interfaces ++ nums.map f } := by
  induction nums generalizing r with
  | nil => rw [List.foldl_nil, List.map_nil, List.append_nil]
  | cons num nums ih =>
      rw [List.foldl_cons, ih, addInterface]
      simp

end Router

variable {ρ η : Type}

/-- The datagrams that the hosts were given. -/
def givenBy (logs : Port ρ η → InterfaceLog) (h : η) : List (UInt32 × IPv4Datagram) :=
  (logs (.host h)).given

/-- A datagram of a host, on its way. -/
def Travels (t : Topology ρ η) (logs : Port ρ η → InterfaceLog) (place : Place ρ η)
    (d : IPv4Datagram) : Prop :=
  d.Sendable ∧ ∃ d₀ k, Journey t (givenBy logs) d₀ k place d

/-- The histories are true, and what the interfaces were given is on its way. -/
structure Recorded (t : Topology ρ η) (logs : Port ρ η → InterfaceLog) : Prop where
  truthful : ∀ p, Truthful t p (logs p)
  given : ∀ p, ∀ g ∈ (logs p).given, Travels t logs (.leaving p g.1) g.2

/-- What comes up has travelled one hop further. -/
theorem Recorded.handed {t : Topology ρ η} {logs : Port ρ η → InterfaceLog} {p q : Port ρ η}
    (h : Recorded t logs) (hhears : t.Hears p q) {frame : EthernetFrame}
    (hframe : frame ∈ (logs p).iface.framesOut) {d : IPv4Datagram}
    (hd : AsyncNetworkInterface.handed? (t.ethernetAddress q) frame = some d) :
    Travels t logs (.arrived q) d := by
  unfold AsyncNetworkInterface.handed? at hd
  split at hd
  · rename_i haccepts
    have htype := EthernetFrame.type_of_datagram? hd
    obtain ⟨g, hg, hneighbour, hserialize⟩ := (h.truthful p).given_of_frame hframe htype
    obtain ⟨hsendable, d₀, k, hj⟩ := h.given p g hg
    rw [Bool.or_eq_true, beq_iff_eq, beq_iff_eq] at haccepts
    have haddress := haccepts.resolve_right hneighbour.not_broadcast
    have hhop : g.1 = t.ipAddress q := (haddress ▸ hneighbour).of_hears hhears
    obtain ⟨bufs, d', hbufs, hcopy, hparse⟩ := hsendable.read
    obtain rfl := Option.some.inj (hbufs.symm.trans hserialize)
    obtain rfl := Option.some.inj ((EthernetFrame.datagram?_concatenated htype hparse).symm.trans hd)
    exact ⟨hsendable.copy hcopy, d₀, k, .link (hhop ▸ hj) hhears hcopy⟩
  · cases hd

section Recorded

variable [DecidableEq ρ] [DecidableEq η] {t : Topology ρ η} {logs : Port ρ η → InterfaceLog}
  {p q : Port ρ η}

/-- The histories after a call. -/
def observed (logs : Port ρ η → InterfaceLog) (p : Port ρ η) (op : NetworkInterface.Op) :
    Port ρ η → InterfaceLog := Function.update logs p ((logs p).observe op)

@[simp] theorem observed_self (op : NetworkInterface.Op) :
    observed logs p op p = (logs p).observe op := Function.update_self _ _ _

theorem observed_of_ne (hne : q ≠ p) (op : NetworkInterface.Op) :
    observed logs p op q = logs q := Function.update_of_ne hne _ _

theorem given_observed (logs : Port ρ η → InterfaceLog) (p : Port ρ η)
    (op : NetworkInterface.Op) (q : Port ρ η) :
    (observed logs p op q).given = (logs q).given ++ if q = p then op.given else [] := by
  by_cases hq : q = p
  · subst hq
    rw [observed_self, if_pos rfl]
    rfl
  · rw [observed_of_ne hq, if_neg hq, List.append_nil]

theorem Travels.observed {place : Place ρ η} {d : IPv4Datagram} (h : Travels t logs place d)
    (op : NetworkInterface.Op) : Travels t (observed logs p op) place d := by
  obtain ⟨hsendable, d₀, k, hj⟩ := h
  refine ⟨hsendable, d₀, k, hj.mono fun h g hg => ?_⟩
  show g ∈ (CourseNet.observed logs p op (.host h)).given
  rw [given_observed]
  exact List.mem_append_left _ hg

/-- The step: one call of one interface. -/
theorem Recorded.observed (h : Recorded t logs) {op : NetworkInterface.Op}
    (hgiven : ∀ g ∈ op.given, Travels t (observed logs p op) (.leaving p g.1) g.2)
    (harp : ∀ m, (logs p).iface.arp? op = some m →
      t.Neighbour p m.senderIpAddress m.senderEthernetAddress) :
    Recorded t (observed logs p op) := by
  refine ⟨fun q => ?_, fun q g hg => ?_⟩
  · by_cases hq : q = p
    · subst hq
      rw [observed_self]
      exact (h.truthful q).observe (fun g hg => (hgiven g hg).1.serializable) harp
    · rw [observed_of_ne hq]
      exact h.truthful q
  · rw [given_observed] at hg
    rcases List.mem_append.mp hg with hold | hnew
    · exact (h.given q g hold).observed op
    · split at hnew
      · rename_i hq
        subst hq
        exact hgiven g hnew
      · exact absurd hnew List.not_mem_nil

end Recorded

namespace Internetwork

variable [DecidableEq ρ] [DecidableEq η] {t : Topology ρ η} {n : Internetwork ρ η}
  {p q : Port ρ η} {i i' : AsyncNetworkInterface}

/-! ### The interface at a port -/

theorem port?_setPort (hp : n.port? p = some i) (i' : AsyncNetworkInterface) (q : Port ρ η) :
    (n.setPort p i').port? q = if q = p then some i' else n.port? q := by
  cases p with
  | host h =>
      cases q with
      | host h' =>
          show some (Function.update n.hosts h i' h') = _
          by_cases hh : h' = h
          · subst hh
            rw [Function.update_self, if_pos rfl]
          · rw [Function.update_of_ne hh, if_neg (by simpa using hh)]
            rfl
      | router r' num' => rw [if_neg (by simp)]; rfl
  | router r num =>
      cases q with
      | host h' => rw [if_neg (by simp)]; rfl
      | router r' num' =>
          show (Function.update n.routers r _ r').interfaces[num']? = _
          by_cases hr : r' = r
          · subst hr
            rw [Function.update_self]
            show ((n.routers r').interfaces.set num i')[num']? = _
            have hlt : num < (n.routers r').interfaces.length :=
              (List.getElem?_eq_some_iff.mp hp).1
            rw [List.getElem?_set]
            by_cases hnum : num = num'
            · subst hnum
              rw [if_pos rfl, if_pos hlt, if_pos rfl]
            · rw [if_neg hnum, if_neg (by simpa using Ne.symm hnum)]
              rfl
          · rw [Function.update_of_ne hr, if_neg (by simp [hr])]
            rfl

theorem port?_watch (n : Internetwork ρ η) (p : Port ρ η) (op : NetworkInterface.Op)
    (q : Port ρ η) : (n.watch p op).port? q = n.port? q := by
  cases q <;> rfl

omit [DecidableEq η] in
/-- Another router in the place of `r`. -/
theorem port?_routed (n : Internetwork ρ η) (r : ρ) (router : Router)
    (logs : Port ρ η → InterfaceLog) :
    let n' := { n with routers := Function.update n.routers r router, logs := logs }
    (∀ num, n'.port? (.router r num) = router.interfaces[num]?) ∧
      ∀ p, (∀ num, p ≠ .router r num) → n'.port? p = n.port? p := by
  refine ⟨fun num => ?_, fun p hp => ?_⟩
  · show (Function.update n.routers r router r).interfaces[num]? = _
    rw [Function.update_self]
  · cases p with
    | host h => rfl
    | router r' num =>
        show (Function.update n.routers r router r').interfaces[num]? = _
        rw [Function.update_of_ne fun hr => hp num (congrArg (Port.router · num) hr)]
        rfl

theorem setPort_frame (n : Internetwork ρ η) (p : Port ρ η) (i' : AsyncNetworkInterface) :
    (n.setPort p i').logs = n.logs ∧ (n.setPort p i').deliveries = n.deliveries ∧
      (n.setPort p i').arrivals = n.arrivals ∧
      ∀ r, ((n.setPort p i').routers r).routingTable = (n.routers r).routingTable ∧
        ((n.setPort p i').routers r).interfaces.length = (n.routers r).interfaces.length := by
  cases p with
  | host h => exact ⟨rfl, rfl, rfl, fun r => ⟨rfl, rfl⟩⟩
  | router r' num =>
      refine ⟨rfl, rfl, rfl, fun r => ?_⟩
      show (Function.update n.routers r' _ r).routingTable = _ ∧
        (Function.update n.routers r' _ r).interfaces.length = _
      by_cases hr : r = r'
      · subst hr
        rw [Function.update_self]
        exact ⟨rfl, List.length_set⟩
      · rw [Function.update_of_ne hr]
        exact ⟨rfl, rfl⟩

/-! ### The invariant -/

structure Sound (t : Topology ρ η) (n : Internetwork ρ η) : Prop where
  recorded : Recorded t n.logs
  mirrors : ∀ p i, n.port? p = some i → i.toNetworkInterface = (n.logs p).iface
  table : ∀ r, (n.routers r).routingTable = t.routes r
  count : ∀ r, (n.routers r).interfaces.length = t.count r
  queued : ∀ p i, n.port? p = some i → ∀ d ∈ i.datagramsOut, Travels t n.logs (.arrived p) d
  arrived : ∀ a ∈ n.arrivals, Travels t n.logs (.arrived a.2.1) a.2.2

omit [DecidableEq ρ] [DecidableEq η] in
theorem Sound.mem_framesOut (h : Sound t n) {frame : EthernetFrame} (hframe : frame ∈ n.framesOut p) :
    frame ∈ (n.logs p).iface.framesOut := by
  unfold framesOut at hframe
  rcases hp : n.port? p with _ | i
  · rw [hp] at hframe
    exact absurd hframe List.not_mem_nil
  · rw [hp] at hframe
    rw [← h.mirrors p i hp]
    exact hframe

/-- One call of one interface. -/
theorem Sound.called (h : Sound t n) (hp : n.port? p = some i) (i' : AsyncNetworkInterface)
    (op : NetworkInterface.Op) (hcore : i'.toNetworkInterface = i.toNetworkInterface.step op)
    (hgiven : ∀ g ∈ op.given, Travels t (observed n.logs p op) (.leaving p g.1) g.2)
    (harp : ∀ m, (n.logs p).iface.arp? op = some m →
      t.Neighbour p m.senderIpAddress m.senderEthernetAddress)
    (hqueued : ∀ d ∈ i'.datagramsOut, d ∈ i.datagramsOut ∨ Travels t n.logs (.arrived p) d) :
    Sound t ((n.setPort p i').watch p op) := by
  obtain ⟨hlogs, -, harrivals, hrouters⟩ := n.setPort_frame p i'
  have hobserved : ((n.setPort p i').watch p op).logs = observed n.logs p op := by
    show observed (n.setPort p i').logs p op = _
    rw [hlogs]
  have hport : ∀ q, ((n.setPort p i').watch p op).port? q =
      if q = p then some i' else n.port? q := fun q =>
    (port?_watch _ p op q).trans (port?_setPort hp i' q)
  refine ⟨?_, fun q j hj => ?_, fun r => ?_, fun r => ?_, fun q j hj d hd => ?_, fun a ha => ?_⟩
  · rw [hobserved]
    exact h.recorded.observed hgiven harp
  · rw [hobserved]
    rw [hport] at hj
    split at hj
    · rename_i hq
      obtain rfl := Option.some.inj hj
      rw [hq, observed_self, hcore, h.mirrors p i hp]
      rfl
    · rename_i hq
      rw [observed_of_ne hq]
      exact h.mirrors q j hj
  · exact (hrouters r).1.trans (h.table r)
  · exact (hrouters r).2.trans (h.count r)
  · rw [hobserved]
    rw [hport] at hj
    split at hj
    · rename_i hq
      obtain rfl := Option.some.inj hj
      subst hq
      exact ((hqueued d hd).elim (h.queued q i hp d) id).observed op
    · exact (h.queued q j hj d hd).observed op
  · rw [hobserved]
    exact (h.arrived a (harrivals ▸ ha)).observed op

/-! ### The calls -/

theorem call_deliver {k : ℕ} {frame : EthernetFrame} (hframe : (n.framesOut p)[k]? = some frame)
    (hq : n.port? q = some i) :
    n.call (.deliver p k q) =
      ({ (n.setPort q (i.recvFrame frame.concatenated).1).watch q (.recvFrame frame.concatenated) with
          deliveries := n.deliveries ++ [(p, k, q)]
          arrivals := n.arrivals ++ ((i.recvFrame frame.concatenated).1.datagramsOut.drop
            i.datagramsOut.length).map (p, q, ·) },
        statusOf (i.recvFrame frame.concatenated).2) := by
  unfold Internetwork.call
  dsimp only
  rw [hframe, hq]

/-- Nothing to hand over, or nobody to hand it to. -/
theorem call_deliver_none {k : ℕ} (h : (n.framesOut p)[k]? = none ∨ n.port? q = none) :
    n.call (.deliver p k q) = (n, .ok) := by
  unfold Internetwork.call
  dsimp only
  split
  · rename_i hframe hq
    rw [hframe, hq] at h
    simp at h
  · rfl

theorem call_tick (hp : n.port? p = some i) (ms : ℕ) :
    n.call (.tick p ms) =
      ((n.setPort p { i with toNetworkInterface := i.toNetworkInterface.tick ms }).watch p
        (.tick ms), .ok) := by
  unfold Internetwork.call
  dsimp only
  rw [hp]

theorem call_tick_none (hp : n.port? p = none) (ms : ℕ) : n.call (.tick p ms) = (n, .ok) := by
  unfold Internetwork.call
  dsimp only
  rw [hp]

theorem Sound.sendTo (h : Sound t n) (host : η) {dgram : IPv4Datagram} (hdgram : dgram.Sendable)
    (nextHop : UInt32) :
    Sound t (n.call (.sendTo host dgram nextHop)).1 ∧
      (n.call (.sendTo host dgram nextHop)).2 = .ok := by
  have hthrew := NetworkInterface.sendDatagram_not_threw hdgram.serializable
    (n.hosts host).toNetworkInterface nextHop
  have hp : n.port? (.host host) = some (n.hosts host) := rfl
  refine ⟨?_, ?_⟩
  · refine h.called hp ((n.hosts host).sendDatagram dgram nextHop).1 (.sendDatagram dgram nextHop)
      rfl (fun g hg => ?_) nofun fun d hd => Or.inl hd
    refine ⟨List.mem_singleton.mp hg ▸ hdgram, dgram, 0, ?_⟩
    rw [List.mem_singleton.mp hg]
    refine .sent ?_
    show (nextHop, dgram) ∈ (observed n.logs _ _ (.host host)).given
    rw [observed_self]
    exact List.mem_append_right _ List.mem_cons_self
  · show statusOf ((n.hosts host).toNetworkInterface.sendDatagram dgram nextHop).2 = .ok
    rw [hthrew]
    rfl

theorem Sound.tick (h : Sound t n) (p : Port ρ η) (ms : ℕ) :
    Sound t (n.call (.tick p ms)).1 ∧ (n.call (.tick p ms)).2 = .ok := by
  rcases hp : n.port? p with _ | i
  · rw [call_tick_none hp]
    exact ⟨h, rfl⟩
  · rw [call_tick hp]
    exact ⟨h.called hp _ (.tick ms) rfl (fun g hg => absurd hg List.not_mem_nil) nofun
      fun d hd => Or.inl hd, rfl⟩

theorem Sound.deliver (h : Sound t n) (hhears : t.Hears p q) (k : ℕ) :
    Sound t (n.call (.deliver p k q)).1 ∧ (n.call (.deliver p k q)).2 = .ok := by
  rcases hframe : (n.framesOut p)[k]? with _ | frame
  · rw [call_deliver_none (Or.inl hframe)]
    exact ⟨h, rfl⟩
  rcases hq : n.port? q with _ | i
  · rw [call_deliver_none (Or.inr hq)]
    exact ⟨h, rfl⟩
  · rw [call_deliver hframe hq]
    have hmem := h.mem_framesOut (List.mem_of_getElem? hframe)
    have hmirror := h.mirrors q i hq
    have hserial : i.Serializable := by
      rw [hmirror]
      exact (h.recorded.truthful q).conserved.serializable
    obtain ⟨hqueue, hthrew⟩ := AsyncNetworkInterface.recvFrame_concatenated hserial frame
    have hhanded : ∀ d ∈ (AsyncNetworkInterface.handed? i.ethernetAddress frame).toList,
        Travels t n.logs (.arrived q) d := fun d hd => by
      rw [hmirror, (h.recorded.truthful q).ethernetAddress] at hd
      exact h.recorded.handed hhears hmem (Option.mem_toList.mp hd)
    have hcalled : Sound t ((n.setPort q (i.recvFrame frame.concatenated).1).watch q
        (.recvFrame frame.concatenated)) := by
      refine h.called hq _ _ (i.recvFrame_core _) (fun g hg => absurd hg List.not_mem_nil)
        (fun m hm => ((h.recorded.truthful p).heard hhears hmem hm).2.2) fun d hd => ?_
      rw [hqueue] at hd
      exact (List.mem_append.mp hd).imp_right (hhanded d)
    have hlogs := (n.setPort_frame q (i.recvFrame frame.concatenated).1).1
    refine ⟨⟨hcalled.recorded, fun p' j' hj' => hcalled.mirrors p' j' ?_, hcalled.table,
      hcalled.count, fun p' j' hj' => hcalled.queued p' j' ?_, fun a ha => ?_⟩, ?_⟩
    · cases p' <;> exact hj'
    · cases p' <;> exact hj'
    · rcases List.mem_append.mp ha with hold | hnew
      · exact hcalled.arrived a
          ((n.setPort_frame q (i.recvFrame frame.concatenated).1).2.2.1.symm ▸ hold)
      · obtain ⟨d, hd, rfl⟩ := List.mem_map.mp hnew
        rw [hqueue, List.drop_left] at hd
        have htravels := (hhanded d hd).observed (p := q) (.recvFrame frame.concatenated)
        show Travels t (observed (n.setPort q _).logs q _) _ _
        rwa [hlogs]
    · show statusOf (i.recvFrame frame.concatenated).2 = .ok
      rw [hthrew]
      rfl

/-! ### The decisions of a router -/

/-- The histories after a decision is carried out. -/
def decided (r : ρ) (logs : Port ρ η → InterfaceLog) : Decision → Port ρ η → InterfaceLog
  | .send num dgram nextHop => observed logs (.router r num) (.sendDatagram dgram nextHop)
  | _ => logs

theorem foldl_watchDecision (r : ρ) (ds : List Decision) (n : Internetwork ρ η) :
    ds.foldl (watchDecision r) n = { n with logs := ds.foldl (decided r) n.logs } := by
  induction ds generalizing n with
  | nil => rfl
  | cons d ds ih =>
      rw [List.foldl_cons, ih]
      cases d <;> rfl

/-- The histories of a router's interfaces are those of these cores. -/
def Mirrors (r : ρ) (logs : Port ρ η → InterfaceLog) (cores : List NetworkInterface) : Prop :=
  ∀ num core, cores[num]? = some core → core = (logs (.router r num)).iface

theorem Mirrors.decided {r : ρ} {logs : Port ρ η → InterfaceLog} {cores : List NetworkInterface}
    (h : Mirrors r logs cores) (d : Decision) :
    Mirrors r (decided r logs d) (Router.deliver cores d) := by
  cases d with
  | discard => exact h
  | undefined => exact h
  | send num dgram nextHop =>
      intro num' core hcore
      have hcore : (cores.modify num fun i => (i.sendDatagram dgram nextHop).1)[num']? =
        some core := hcore
      show core = (observed logs _ _ _).iface
      rw [List.getElem?_modify] at hcore
      obtain ⟨old, hold, hnew⟩ := Option.map_eq_some_iff.mp hcore
      by_cases hnum : num = num'
      · subst hnum
        rw [if_pos rfl] at hnew
        rw [observed_self, ← hnew, h num old hold]
        rfl
      · rw [if_neg hnum] at hnew
        rw [observed_of_ne (by simpa using Ne.symm hnum), ← hnew, h num' old hold]

/-- What a decision sends is on its way. -/
def Sends (t : Topology ρ η) (logs : Port ρ η → InterfaceLog) (r : ρ) (d : Decision) : Prop :=
  ∀ num dgram nextHop, d = .send num dgram nextHop →
    Travels t logs (.leaving (.router r num) nextHop) dgram

/-- Nothing that was on its way is lost from the histories, and other interfaces do not take part. -/
structure Follows (t : Topology ρ η) (r : ρ) (logs logs' : Port ρ η → InterfaceLog) : Prop where
  recorded : Recorded t logs'
  travels : ∀ {place d}, Travels t logs place d → Travels t logs' place d
  others : ∀ p, (∀ num, p ≠ .router r num) → logs' p = logs p

theorem Follows.decided {r : ρ} {logs : Port ρ η → InterfaceLog} (h : Recorded t logs)
    {d : Decision} (hd : Sends t logs r d) : Follows t r logs (decided r logs d) := by
  cases d with
  | discard => exact ⟨h, id, fun _ _ => rfl⟩
  | undefined => exact ⟨h, id, fun _ _ => rfl⟩
  | send num dgram nextHop =>
      refine ⟨h.observed (fun g hg => ?_) nofun, fun htravels => htravels.observed _,
        fun p hp => observed_of_ne (hp num) _⟩
      rw [List.mem_singleton.mp hg]
      exact (hd num dgram nextHop rfl).observed _

/-- The decisions of a call of `route`, one after the other. -/
theorem decided_all {r : ρ} (ds : List Decision) {logs : Port ρ η → InterfaceLog}
    {cores : List NetworkInterface} (h : Recorded t logs) (hmirrors : Mirrors r logs cores)
    (hds : ∀ d ∈ ds, Sends t logs r d) :
    Follows t r logs (ds.foldl (decided r) logs) ∧
      Mirrors r (ds.foldl (decided r) logs) (ds.foldl Router.deliver cores) := by
  induction ds generalizing logs cores with
  | nil => exact ⟨⟨h, id, fun _ _ => rfl⟩, hmirrors⟩
  | cons d ds ih =>
      have hone := Follows.decided h (hds d List.mem_cons_self)
      obtain ⟨hrest, hmirrors'⟩ := ih hone.recorded (hmirrors.decided d)
        fun d' hd' num dgram nextHop heq =>
          hone.travels (hds d' (List.mem_cons_of_mem _ hd') num dgram nextHop heq)
      exact ⟨⟨hrest.recorded, fun ht => hrest.travels (hone.travels ht),
        fun p hp => (hrest.others p hp).trans (hone.others p hp)⟩, hmirrors'⟩

omit [DecidableEq ρ] [DecidableEq η] in
/-- What a router decides about a queued datagram. -/
theorem Sound.decision (h : Sound t n) (r : ρ) {d : IPv4Datagram}
    (hd : d ∈ (n.routers r).datagrams) :
    Router.Specified (t.routes r) d (Router.decisionFor (t.routes r) d) ∧ d.Sendable ∧
      Sends t n.logs r (Router.decisionFor (t.routes r) d) := by
  have hspec := Router.specified_of_le (t.prefix_le r) (t.routes_le r) d
  obtain ⟨i, hi, hd⟩ := List.mem_flatMap.mp hd
  obtain ⟨num, hnum⟩ := List.mem_iff_getElem?.mp hi
  obtain ⟨hsendable, d₀, k, hj⟩ := h.queued (.router r num) i hnum d hd
  refine ⟨hspec, hsendable, fun num' dgram nextHop heq => ?_⟩
  rw [heq] at hspec
  refine ⟨?_, d₀, k + 1, .route hj hspec⟩
  cases hspec with
  | forwarded _ e httl _ => exact hsendable.decrementTtl

theorem Sound.route (h : Sound t n) (r : ρ) :
    Sound t (n.call (.route r)).1 ∧ (n.call (.route r)).2 = .ok := by
  have htable := h.table r
  have hok : (n.routers r).route.2.2 = .ok := Router.route_ok fun d hd => by
    obtain ⟨hspec, hsendable, -⟩ := h.decision r hd
    rw [htable]
    refine hspec.feasible (fun e he => ?_) hsendable.serializable
    rw [h.count]
    exact t.interface_lt r e he
  obtain ⟨hcarries, hdecisions, hdrained⟩ := Router.route_spec hok
  have hmirrors : Mirrors r n.logs (n.routers r).cores := fun num core hcore => by
    rw [Router.cores, List.getElem?_map] at hcore
    obtain ⟨i, hi, rfl⟩ := Option.map_eq_some_iff.mp hcore
    exact h.mirrors (.router r num) i hi
  obtain ⟨hfollows, hmirrors'⟩ := decided_all (n.routers r).route.2.1 h.recorded hmirrors
    fun d hd => by
      rw [hdecisions] at hd
      obtain ⟨d', hd', rfl⟩ := List.mem_map.mp hd
      rw [htable]
      exact (h.decision r hd').2.2
  rw [← hcarries.cores] at hmirrors'
  refine ⟨?_, hok⟩
  show Sound t ((n.routers r).route.2.1.foldl (watchDecision r)
    { n with routers := Function.update n.routers r (n.routers r).route.1 })
  rw [foldl_watchDecision]
  obtain ⟨hself, hothers⟩ := port?_routed n r (n.routers r).route.1
    ((n.routers r).route.2.1.foldl (decided r) n.logs)
  refine ⟨hfollows.recorded, fun p i hi => ?_, fun r' => ?_, fun r' => ?_, fun p i hi d hd => ?_,
    fun a ha => hfollows.travels (h.arrived a ha)⟩
  · by_cases hp : ∃ num, p = .router r num
    · obtain ⟨num, rfl⟩ := hp
      refine hmirrors' num _ ?_
      rw [Router.cores, List.getElem?_map, ← hself, hi]
      rfl
    · have hne : ∀ num, p ≠ .router r num := fun num heq => hp ⟨num, heq⟩
      rw [hothers p hne] at hi
      exact (h.mirrors p i hi).trans (congrArg InterfaceLog.iface (hfollows.others p hne).symm)
  · by_cases hr : r' = r
    · subst hr
      exact (congrArg Router.routingTable (Function.update_self _ _ _)).trans
        (hcarries.table.trans htable)
    · exact (congrArg Router.routingTable (Function.update_of_ne hr _ _)).trans (h.table r')
  · let interfaceCount := fun router : Router => router.interfaces.length
    by_cases hr : r' = r
    · subst hr
      exact (congrArg interfaceCount (Function.update_self _ _ _)).trans
        (hcarries.length_eq.trans (h.count r'))
    · exact (congrArg interfaceCount (Function.update_of_ne hr _ _)).trans (h.count r')
  · by_cases hp : ∃ num, p = .router r num
    · obtain ⟨num, rfl⟩ := hp
      rw [hself] at hi
      rw [hdrained i (List.mem_of_getElem? hi)] at hd
      exact absurd hd List.not_mem_nil
    · rw [hothers p fun num heq => hp ⟨num, heq⟩] at hi
      exact hfollows.travels (h.queued p i hi d hd)

/-! ### Runs -/

theorem Sound.call (h : Sound t n) {op : Op ρ η} (hop : n.Allowed t op) :
    Sound t (n.step op) ∧ (n.call op).2 = .ok := by
  cases op with
  | sendTo host dgram nextHop => exact h.sendTo host hop nextHop
  | route r => exact h.route r
  | deliver p k q => exact h.deliver hop.1 k
  | tick p ms => exact h.tick p ms

omit [DecidableEq ρ] [DecidableEq η] in
theorem Sound.new (t : Topology ρ η) : Sound t (Internetwork.new t) := by
  have hrouter : ∀ r, router t r = ⟨(List.range (t.count r)).map fun num =>
      { NetworkInterface.new (t.ethernetAddress (.router r num)) (t.ipAddress (.router r num))
        with }, t.routes r⟩ := fun r => by
    rw [router, Router.interfaces_addInterface, Router.foldl_addRoute]
    rfl
  have hport : ∀ p i, (Internetwork.new t).port? p = some i →
      i = { NetworkInterface.new (t.ethernetAddress p) (t.ipAddress p) with } := by
    intro p i hi
    cases p with
    | host h => exact (Option.some.inj hi).symm
    | router r num =>
        have hi : (router t r).interfaces[num]? = some i := hi
        rw [hrouter] at hi
        obtain ⟨num', hnum, rfl⟩ := Option.map_eq_some_iff.mp (List.getElem?_map.symm.trans hi)
        obtain ⟨hlt, hget⟩ := List.getElem?_eq_some_iff.mp hnum
        rw [← hget, List.getElem_range]
  refine ⟨⟨fun p => Truthful.new t p, fun p g hg => absurd hg List.not_mem_nil⟩,
    fun p i hi => ?_, fun r => ?_, fun r => ?_, fun p i hi d hd => ?_,
    fun a ha => absurd ha List.not_mem_nil⟩
  · rw [hport p i hi]
    rfl
  · show (router t r).routingTable = _
    rw [hrouter]
  · show (router t r).interfaces.length = _
    rw [hrouter, List.length_map, List.length_range]
  · rw [hport p i hi] at hd
    exact absurd hd List.not_mem_nil

theorem run_sound {is : List (Op ρ η)} (h : StepSystem.Guarded step (Allowed t) (new t) is) :
    Sound t (StepSystem.run step (new t) is) :=
  h.invariant (fun _ _ hop hsound => (hsound.call hop).1) (Sound.new t)

def Op.sentBy? (h : η) : Op ρ η → Option (UInt32 × IPv4Datagram)
  | .sendTo h' dgram nextHop => if h' = h then some (nextHop, dgram) else none
  | _ => none

/-- What a run sends from a host. -/
def sentBy (is : List (Op ρ η)) (h : η) : List (UInt32 × IPv4Datagram) := is.filterMap (Op.sentBy? h)

omit [DecidableEq ρ] in
theorem sentBy?_eq_some {op : Op ρ η} {h : η} {nextHop : UInt32} {dgram : IPv4Datagram} :
    op.sentBy? h = some (nextHop, dgram) ↔ op = .sendTo h dgram nextHop := by
  cases op with
  | sendTo h' dgram' nextHop' =>
      show (if h' = h then some (nextHop', dgram') else none) = _ ↔ _
      split
      · rename_i hh
        subst hh
        simp [and_comm]
      · rename_i hh
        simp [hh]
  | route r => exact iff_of_false nofun nofun
  | deliver p k q => exact iff_of_false nofun nofun
  | tick p ms => exact iff_of_false nofun nofun

/-- Only its owner gives a host's interface datagrams. -/
theorem givenBy_step (n : Internetwork ρ η) (op : Op ρ η) (h : η) :
    givenBy (n.step op).logs h = givenBy n.logs h ++ (op.sentBy? h).toList := by
  have hobserved : ∀ (n : Internetwork ρ η) (p : Port ρ η) (i : AsyncNetworkInterface)
      (op : NetworkInterface.Op), givenBy (observed (n.setPort p i).logs p op) h =
        givenBy n.logs h ++ if Port.host h = p then op.given else [] := fun n p i op => by
    rw [givenBy, given_observed, (n.setPort_frame p i).1]
    rfl
  cases op with
  | sendTo host dgram nextHop =>
      refine (hobserved n (.host host) _ (.sendDatagram dgram nextHop)).trans ?_
      show _ = _ ++ (if host = h then some (nextHop, dgram) else none).toList
      by_cases hh : host = h
      · rw [if_pos (congrArg Port.host hh.symm), if_pos hh]
        rfl
      · rw [if_neg (by simpa using Ne.symm hh), if_neg hh]
        rfl
  | route r =>
      show givenBy ((n.routers r).route.2.1.foldl (watchDecision r) _).logs h = _
      rw [foldl_watchDecision]
      show givenBy ((n.routers r).route.2.1.foldl (decided r) n.logs) h = givenBy n.logs h ++ []
      rw [List.append_nil]
      generalize n.logs = logs
      induction (n.routers r).route.2.1 generalizing logs with
      | nil => rfl
      | cons d ds ih =>
          rw [List.foldl_cons, ih]
          cases d with
          | discard => rfl
          | undefined => rfl
          | send num dgram nextHop =>
              exact congrArg InterfaceLog.given (observed_of_ne (by simp) _)
  | deliver p k q =>
      unfold step
      rcases hframe : (n.framesOut p)[k]? with _ | frame
      · rw [call_deliver_none (Or.inl hframe)]
        exact (List.append_nil _).symm
      rcases hq : n.port? q with _ | i
      · rw [call_deliver_none (Or.inr hq)]
        exact (List.append_nil _).symm
      · rw [call_deliver hframe hq]
        refine (hobserved n q _ (.recvFrame _)).trans ?_
        rw [show (NetworkInterface.Op.recvFrame _).given = [] from rfl, ite_self]
        rfl
  | tick p ms =>
      unfold step
      rcases hp : n.port? p with _ | i
      · rw [call_tick_none hp]
        exact (List.append_nil _).symm
      · rw [call_tick hp]
        refine (hobserved n p _ (.tick ms)).trans ?_
        rw [show (NetworkInterface.Op.tick ms).given = [] from rfl, ite_self]
        rfl

theorem givenBy_run (t : Topology ρ η) (is : List (Op ρ η)) :
    givenBy (StepSystem.run step (new t) is).logs = sentBy is := by
  funext h
  induction is using List.reverseRecOn with
  | nil => rfl
  | append_singleton is op ih =>
      rw [StepSystem.run_snoc, givenBy_step, ih, sentBy, sentBy, List.filterMap_append,
        List.filterMap_cons, List.filterMap_nil]
      cases op.sentBy? h <;> rfl

/-- **Datagrams travel along routes.**  In every run, whatever is sent, delayed, lost, doubled and
reordered: each datagram that has come up from an interface is one that a host sent, after a journey
on which every router chose the longest prefix match and every hop ended at the interface with the
IP address chosen.  Nothing of it has changed but the time to live, which every router has counted
down, and the checksum. -/
theorem datagrams_follow_routes (t : Topology ρ η) (is : List (Op ρ η))
    (h : StepSystem.Guarded step (Allowed t) (new t) is) (p : Port ρ η)
    (i : AsyncNetworkInterface) (hp : (StepSystem.run step (new t) is).port? p = some i) :
    ∀ d ∈ i.datagramsOut, ∃ host nextHop d₀ k,
      .sendTo host d₀ nextHop ∈ is ∧ Journey t (sentBy is) d₀ k (.arrived p) d ∧
        Journey.Unchanged d₀ k d := by
  intro d hd
  obtain ⟨-, d₀, k, hj⟩ := (run_sound h).queued p i hp d hd
  rw [givenBy_run] at hj
  obtain ⟨host, nextHop, hsent⟩ := hj.origin
  obtain ⟨op, hop, heq⟩ := List.mem_filterMap.mp hsent
  rw [sentBy?_eq_some.mp heq] at hop
  exact ⟨host, nextHop, d₀, k, hop, hj, hj.unchanged⟩

/-- Two hosts with a router between them. -/
def crossing : Topology Unit Bool where
  ethernetAddress
    | .router _ _ => Vector.replicate 6 2
    | .host _ => Vector.replicate 6 6
  ipAddress
    | .router _ num => if num = 0 then 0x0a000001 else 0xc0a80001
    | .host h => if h then 0xc0a80002 else 0x0a000002
  segment
    | .router _ num => num
    | .host h => h.toNat
  count _ := 2
  routes _ := [⟨0x0a000000, 8, none, 0⟩, ⟨0xc0a80000, 24, none, 1⟩]
  not_broadcast
    | .router _ _ => show Vector.replicate 6 2 ≠ ethernetBroadcast by decide
    | .host _ => show Vector.replicate 6 6 ≠ ethernetBroadcast by decide
  distinct := by
    have hne : (Vector.replicate 6 2 : EthernetAddress) ≠ Vector.replicate 6 6 := by decide
    rintro (⟨_, num⟩ | h) (⟨_, num'⟩ | h') hsegment haddress
    · exact congrArg (Port.router ()) hsegment
    · exact absurd haddress hne
    · exact absurd haddress hne.symm
    · exact congrArg Port.host (by cases h <;> cases h' <;> first | rfl | cases hsegment)
  prefix_le _ := by decide
  interface_lt _ := by decide
  routes_le _ := by decide

/-- One datagram crosses the router; the addresses are resolved on the way. -/
def crossingRun : List (Op Unit Bool) :=
  [.sendTo false (IPv4Datagram.sendTo 0x0a000002 0xc0a80002 64 [7]) 0x0a000001,
    .deliver (.host false) 0 (.router () 0),
    .deliver (.router () 0) 0 (.host false),
    .deliver (.host false) 1 (.router () 0),
    .route (),
    .deliver (.router () 1) 0 (.host true),
    .deliver (.host true) 0 (.router () 1),
    .deliver (.router () 1) 1 (.host true)]

theorem datagrams_follow_routes_crossing :
    let n := StepSystem.run step (new crossing) crossingRun
    n.hosts true ≠ (new crossing).hosts true ∧
      ∀ d ∈ (n.hosts true).datagramsOut, ∃ host nextHop d₀ k,
        .sendTo host d₀ nextHop ∈ crossingRun ∧
          Journey crossing (sentBy crossingRun) d₀ k (.arrived (.host true)) d ∧
            Journey.Unchanged d₀ k d :=
  ⟨by
    refine fun heq => absurd (congrArg (·.datagramsOut.length) heq) ?_
    decide +kernel,
    datagrams_follow_routes crossing crossingRun (by decide +kernel) (.host true) _ rfl⟩

/-- **Nothing false is learned, and nothing fails.**  In every run a mapping in a cache is that of a
neighbour, every IPv4 frame is addressed to the neighbour with the next hop's IP address, and every
call that may come next ends well: no `serialize` throws, and no router leaves its tables. -/
theorem mappings_true_and_calls_succeed (t : Topology ρ η) (is : List (Op ρ η))
    (h : StepSystem.Guarded step (Allowed t) (new t) is) :
    let n := StepSystem.run step (new t) is
    (∀ p i, n.port? p = some i →
      (∀ ip address time, i.arpCache.find? ip = some (address, time) →
        t.Neighbour p ip address) ∧
      ∀ frame ∈ i.framesOut, frame.header.type = EthernetHeader.typeIPv4 →
        ∃ g ∈ (n.logs p).given, t.Neighbour p g.1 frame.header.dst ∧
          g.2.serialize = some frame.payload) ∧
    ∀ op, n.Allowed t op → (n.call op).2 = .ok := by
  intro n
  have hsound : Sound t n := run_sound h
  refine ⟨fun p i hp => ?_, fun op hop => (hsound.call hop).2⟩
  rw [hsound.mirrors p i hp]
  exact ⟨fun ip address time hfind => (hsound.recorded.truthful p).cache hfind,
    fun frame hframe htype => (hsound.recorded.truthful p).given_of_frame hframe htype⟩

theorem mappings_true_and_calls_succeed_crossing :
    crossing.Neighbour (.host false) 0x0a000001 (Vector.replicate 6 2) ∧
      ((StepSystem.run step (new crossing) crossingRun).call (.route ())).2 = .ok :=
  ⟨((mappings_true_and_calls_succeed crossing crossingRun (by decide +kernel)).1 (.host false) _
      rfl).1 0x0a000001 _ NetworkInterface.arpCacheTimeout (by decide +kernel),
    (mappings_true_and_calls_succeed crossing crossingRun (by decide +kernel)).2 (.route ()) trivial⟩

end Internetwork

end CourseNet
