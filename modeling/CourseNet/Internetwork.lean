import CourseNet.AdapterLaws
import CourseNet.RouterForwarding

/-!
# Hosts and routers

The network of `network_simulator.cc`: hosts with one interface each, routers with several, and
segments that hand the frames of one interface to the others.  Any frame may be handed to any other
interface of its segment, at any time, any number of times; `deliver` puts the payload into one
buffer first.  No frame is taken off a queue, so `framesOut` numbers the frames of an interface.

`Journey` is what all this is for: the same hosts and routers if addresses were known and a datagram
were just passed on.
-/

namespace CourseNet

/-- An interface: one of a router, or that of a host. -/
inductive Port (ρ η : Type)
  | router (r : ρ) (num : ℕ)
  | host (h : η)
deriving DecidableEq

/-- How the network is put together: the addresses are those of its constructor, the routes those of
`add_route`. -/
structure Topology (ρ η : Type) where
  ethernetAddress : Port ρ η → EthernetAddress
  ipAddress : Port ρ η → UInt32
  segment : Port ρ η → ℕ
  count : ρ → ℕ
  routes : ρ → List RouteEntry
  not_broadcast : ∀ p, ethernetAddress p ≠ ethernetBroadcast
  distinct : ∀ p q, segment p = segment q → ethernetAddress p = ethernetAddress q → p = q
  prefix_le : ∀ r, ∀ e ∈ routes r, e.prefixLength.toNat ≤ 32
  interface_lt : ∀ r, ∀ e ∈ routes r, e.interfaceNum < count r
  routes_le : ∀ r, (routes r).length ≤ 2 ^ 31

/-- The frames of `p` reach `q`. -/
def Topology.Hears {ρ η : Type} (t : Topology ρ η) (p q : Port ρ η) : Prop :=
  t.segment p = t.segment q ∧ p ≠ q

instance {ρ η : Type} [DecidableEq ρ] [DecidableEq η] (t : Topology ρ η) (p q : Port ρ η) :
    Decidable (t.Hears p q) := inferInstanceAs (Decidable (_ ∧ _))

namespace IPv4Datagram

/-- A datagram that its receiver can read. -/
structure Sendable (d : IPv4Datagram) : Prop where
  fits : d.header.Fits
  len : d.header.len.toNat = 4 * d.header.hlen.toNat + d.payload.size

instance (h : IPv4Header) : Decidable h.Fits :=
  decidable_of_iff (h.ver = 4 ∧ 5 ≤ h.hlen.toNat ∧ h.hlen.toNat ≤ 15 ∧ h.offset.toNat < 2 ^ 13)
    ⟨fun ⟨h₁, h₂, h₃, h₄⟩ => ⟨h₁, h₂, h₃, h₄⟩, fun ⟨h₁, h₂, h₃, h₄⟩ => ⟨h₁, h₂, h₃, h₄⟩⟩

instance (d : IPv4Datagram) : Decidable d.Sendable :=
  decidable_of_iff (d.header.Fits ∧ d.header.len.toNat = 4 * d.header.hlen.toNat + d.payload.size)
    ⟨fun ⟨h₁, h₂⟩ => ⟨h₁, h₂⟩, fun ⟨h₁, h₂⟩ => ⟨h₁, h₂⟩⟩

/-- The datagram as its receiver has it. -/
def Copy (d d' : IPv4Datagram) : Prop :=
  ∃ cksum, d' = ⟨d.header.withCksum cksum, [d.payload.concatenate]⟩

/-- `Host::send_to`: the datagram it makes. -/
def sendTo (myAddress destination : UInt32) (ttl : UInt8) (payload : Bytes) : IPv4Datagram :=
  { header :=
      { src := myAddress, dst := destination, len := UInt16.ofNat (5 * 4 + payload.length),
        ttl := ttl }
    payload := [payload] }

theorem sendTo_sendable {payload : Bytes} (h : payload.length ≤ 65515)
    (myAddress destination : UInt32) (ttl : UInt8) :
    (sendTo myAddress destination ttl payload).Sendable := by
  refine ⟨⟨rfl, (by decide : 5 ≤ 5), (by decide : 5 ≤ 15), (by decide : 0 < 2 ^ 13)⟩, ?_⟩
  show (UInt16.ofNat (5 * 4 + payload.length)).toNat = 4 * 5 + (payload.length + 0)
  rw [UInt16.toNat_ofNat']
  omega

end IPv4Datagram

/-- `deliver` of the simulator: the frame with its payload in one buffer. -/
def EthernetFrame.concatenated (frame : EthernetFrame) : EthernetFrame :=
  { frame with payload := [frame.payload.concatenate] }

/-- The hosts and routers; what each interface was given and emitted; which frame of which interface
was handed to which; and which datagram came up where, from which interface. -/
structure Internetwork (ρ η : Type) where
  routers : ρ → Router
  hosts : η → AsyncNetworkInterface
  logs : Port ρ η → InterfaceLog
  deliveries : List (Port ρ η × ℕ × Port ρ η)
  arrivals : List (Port ρ η × Port ρ η × IPv4Datagram)

namespace Internetwork

inductive Op (ρ η : Type)
  | sendTo (h : η) (dgram : IPv4Datagram) (nextHop : UInt32)
  | route (r : ρ)
  | deliver (p : Port ρ η) (k : ℕ) (q : Port ρ η)
  | tick (p : Port ρ η) (ms : ℕ)

variable {ρ η : Type}

/-- The router as its constructor's caller leaves it. -/
def router (t : Topology ρ η) (r : ρ) : Router :=
  (t.routes r).foldl Router.addRoute
    ((List.range (t.count r)).foldl
      (fun router num => (router.addInterface
        { NetworkInterface.new (t.ethernetAddress (.router r num)) (t.ipAddress (.router r num))
          with }).1) {})

def new (t : Topology ρ η) : Internetwork ρ η where
  routers := router t
  hosts h := { NetworkInterface.new (t.ethernetAddress (.host h)) (t.ipAddress (.host h)) with }
  logs p := InterfaceLog.new (t.ethernetAddress p) (t.ipAddress p)
  deliveries := []
  arrivals := []

def port? (n : Internetwork ρ η) : Port ρ η → Option AsyncNetworkInterface
  | .router r num => (n.routers r).interfaces[num]?
  | .host h => some (n.hosts h)

/-- The frames that an interface has emitted. -/
def framesOut (n : Internetwork ρ η) (p : Port ρ η) : List EthernetFrame :=
  ((n.port? p).map (·.framesOut)).getD []

variable [DecidableEq ρ] [DecidableEq η]

def setPort (n : Internetwork ρ η) (p : Port ρ η) (i : AsyncNetworkInterface) :
    Internetwork ρ η :=
  match p with
  | .router r num =>
      { n with
          routers := Function.update n.routers r
            { n.routers r with interfaces := (n.routers r).interfaces.set num i } }
  | .host h => { n with hosts := Function.update n.hosts h i }

/-- The observer notes a call of an interface. -/
def watch (n : Internetwork ρ η) (p : Port ρ η) (op : NetworkInterface.Op) : Internetwork ρ η :=
  { n with logs := Function.update n.logs p ((n.logs p).observe op) }

/-- The observer notes what a router decided. -/
def watchDecision (r : ρ) (n : Internetwork ρ η) : Decision → Internetwork ρ η
  | .send num dgram nextHop => n.watch (.router r num) (.sendDatagram dgram nextHop)
  | _ => n

def statusOf (threw : Bool) : RouteStatus := if threw then .throws else .ok

/-- A call, and how it ends. -/
def call (n : Internetwork ρ η) : Op ρ η → Internetwork ρ η × RouteStatus
  | .sendTo h dgram nextHop =>
      let (i, threw) := (n.hosts h).sendDatagram dgram nextHop
      ((n.setPort (.host h) i).watch (.host h) (.sendDatagram dgram nextHop), statusOf threw)
  | .route r =>
      let (router, decisions, status) := (n.routers r).route
      (decisions.foldl (watchDecision r)
        { n with routers := Function.update n.routers r router }, status)
  | .deliver p k q =>
      match (n.framesOut p)[k]?, n.port? q with
      | some frame, some i =>
          let (i', threw) := i.recvFrame frame.concatenated
          ({ (n.setPort q i').watch q (.recvFrame frame.concatenated) with
              deliveries := n.deliveries ++ [(p, k, q)]
              arrivals := n.arrivals ++
                (i'.datagramsOut.drop i.datagramsOut.length).map (p, q, ·) }, statusOf threw)
      | _, _ => (n, .ok)
  | .tick p ms =>
      match n.port? p with
      | none => (n, .ok)
      | some i =>
          ((n.setPort p { i with toNetworkInterface := i.toNetworkInterface.tick ms }).watch p
            (.tick ms), .ok)

def step (n : Internetwork ρ η) (op : Op ρ η) : Internetwork ρ η := (n.call op).1

/-- Hosts send what can be read, as all that `Host::send_to` makes can (`sendTo_sendable`); an interface
hears the frames of its segment. -/
def Allowed (t : Topology ρ η) (n : Internetwork ρ η) : Op ρ η → Prop
  | .sendTo _ dgram _ => dgram.Sendable
  | .route _ => True
  | .deliver p k q => t.Hears p q ∧ k < (n.framesOut p).length
  | .tick _ _ => True

instance (t : Topology ρ η) (n : Internetwork ρ η) (op : Op ρ η) : Decidable (n.Allowed t op) :=
  match op with
  | .sendTo _ dgram _ => inferInstanceAs (Decidable dgram.Sendable)
  | .route _ => isTrue trivial
  | .deliver _ _ _ => inferInstanceAs (Decidable (_ ∧ _))
  | .tick _ _ => isTrue trivial

end Internetwork

/-! ### The network without Ethernet and ARP -/

/-- Where a datagram is: given to an interface for a next hop, or come up from one. -/
inductive Place (ρ η : Type)
  | leaving (p : Port ρ η) (nextHop : UInt32)
  | arrived (p : Port ρ η)

/-- The datagram `d₀` that a host was given, `d` as it is now, and the number of routers between. -/
inductive Journey {ρ η : Type} (t : Topology ρ η) (given : η → List (UInt32 × IPv4Datagram))
    (d₀ : IPv4Datagram) : ℕ → Place ρ η → IPv4Datagram → Prop
  | sent {h : η} {nextHop : UInt32} (hgiven : (nextHop, d₀) ∈ given h) :
      Journey t given d₀ 0 (.leaving (.host h) nextHop) d₀
  | link {k : ℕ} {p q : Port ρ η} {d d' : IPv4Datagram}
      (hleaving : Journey t given d₀ k (.leaving p (t.ipAddress q)) d) (hhears : t.Hears p q)
      (hcopy : d.Copy d') : Journey t given d₀ k (.arrived q) d'
  | route {k : ℕ} {r : ρ} {num num' : ℕ} {nextHop : UInt32} {d d' : IPv4Datagram}
      (harrived : Journey t given d₀ k (.arrived (.router r num)) d)
      (hroute : Router.Specified (t.routes r) d (.send num' d' nextHop)) :
      Journey t given d₀ (k + 1) (.leaving (.router r num') nextHop) d'

namespace Journey

variable {ρ η : Type} {t : Topology ρ η} {given given' : η → List (UInt32 × IPv4Datagram)}
  {d₀ d : IPv4Datagram} {k : ℕ} {place : Place ρ η}

theorem mono (hgiven : ∀ h, given h ⊆ given' h) (hj : Journey t given d₀ k place d) :
    Journey t given' d₀ k place d := by
  induction hj with
  | sent hmem => exact .sent (hgiven _ hmem)
  | link _ hhears hcopy ih => exact .link ih hhears hcopy
  | route _ hroute ih => exact .route ih hroute

theorem origin (hj : Journey t given d₀ k place d) : ∃ h nextHop, (nextHop, d₀) ∈ given h := by
  induction hj with
  | sent hmem => exact ⟨_, _, hmem⟩
  | link _ _ _ ih => exact ih
  | route _ _ ih => exact ih

/-- Routers count the time to live down, and nothing else changes but the checksum. -/
structure Unchanged (d₀ : IPv4Datagram) (k : ℕ) (d : IPv4Datagram) : Prop where
  header : ∃ cksum, d.header =
    { d₀.header with ttl := UInt8.ofNat (d₀.header.ttl.toNat - k), cksum := cksum }
  payload : d.payload.concatenate = d₀.payload.concatenate
  alive : k ≠ 0 → k < d₀.header.ttl.toNat

theorem unchanged (hj : Journey t given d₀ k place d) : Unchanged d₀ k d := by
  induction hj with
  | sent hmem =>
      refine ⟨⟨d₀.header.cksum, ?_⟩, rfl, fun h => absurd rfl h⟩
      rw [Nat.sub_zero, UInt8.ofNat_toNat]
  | link _ _ hcopy ih =>
      obtain ⟨cksum, rfl⟩ := hcopy
      obtain ⟨⟨old, hheader⟩, hpayload, halive⟩ := ih
      refine ⟨⟨cksum, ?_⟩, (List.append_nil _).trans hpayload, halive⟩
      show IPv4Header.withCksum _ _ = _
      rw [hheader]
      rfl
  | @route k r num num' nextHop d d' harrived hroute ih =>
      obtain ⟨⟨old, hheader⟩, hpayload, -⟩ := ih
      cases hroute with
      | forwarded _ e httl _ =>
          have httl : 1 < d.header.ttl.toNat := UInt8.lt_iff_toNat_lt.mp httl
          have hleft : d.header.ttl = UInt8.ofNat (d₀.header.ttl.toNat - k) := by rw [hheader]
          have hsmall := d₀.header.ttl.toNat_lt
          have hnat : d.header.ttl.toNat = d₀.header.ttl.toNat - k := by
            rw [hleft, UInt8.toNat_ofNat', Nat.mod_eq_of_lt (by omega)]
          refine ⟨⟨old, ?_⟩, hpayload, fun _ => by omega⟩
          show { d.header with ttl := d.header.ttl - 1 } = _
          have hle : (1 : UInt8) ≤ d.header.ttl :=
            UInt8.le_iff_toNat_le.mpr (show 1 ≤ d.header.ttl.toNat from httl.le)
          have hcount : d.header.ttl - 1 = UInt8.ofNat (d₀.header.ttl.toNat - (k + 1)) := by
            rw [← UInt8.toNat_inj, UInt8.toNat_sub_of_le _ _ hle, hnat, UInt8.toNat_ofNat',
              Nat.mod_eq_of_lt (by omega)]
            rfl
          rw [hcount, hheader]

end Journey

end CourseNet
