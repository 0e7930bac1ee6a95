import CourseNet.LastBest
import CourseNet.NetworkInterface

/-!
# The router

`AsyncNetworkInterface` and `Router` of `router.hh` and `router.cc`.  An `Address` is the IPv4
number that `send_datagram` reads from it.  The search of `route_one_datagram` keeps the index of
its candidate in an `int`: an index that does not fit there comes out negative or as that of another
entry, and the one whose bits are those of `-1` reads as "no route".
-/

namespace CourseNet

/-- A `NetworkInterface` that queues the datagrams it receives. -/
structure AsyncNetworkInterface extends NetworkInterface where
  datagramsOut : List IPv4Datagram := []

namespace AsyncNetworkInterface

/-- `recv_frame`; the flag tells whether it threw. -/
def recvFrame (i : AsyncNetworkInterface) (frame : EthernetFrame) : AsyncNetworkInterface × Bool :=
  match i.toNetworkInterface.recvFrame frame with
  | (core, .datagram dgram) => (⟨core, i.datagramsOut ++ [dgram]⟩, false)
  | (core, .empty) => (⟨core, i.datagramsOut⟩, false)
  | (core, .throws) => (⟨core, i.datagramsOut⟩, true)

/-- `send_datagram`, inherited. -/
def sendDatagram (i : AsyncNetworkInterface) (dgram : IPv4Datagram) (nextHop : UInt32) :
    AsyncNetworkInterface × Bool :=
  let (core, threw) := i.toNetworkInterface.sendDatagram dgram nextHop
  ({ i with toNetworkInterface := core }, threw)

end AsyncNetworkInterface

/-- `RouteEntry`: without a next hop the network is directly attached. -/
structure RouteEntry where
  routePrefix : UInt32
  prefixLength : UInt8
  nextHop : Option UInt32
  interfaceNum : ℕ
deriving DecidableEq, Repr

namespace RouteEntry

/-- The mask of the prefix.  (The shift has a meaning for lengths up to 32 only.) -/
def mask (e : RouteEntry) : UInt32 :=
  if 0 < e.prefixLength then
    if e.prefixLength = 32 then 0xffffffff
    else ~~~(1 <<< UInt32.ofNat (32 - e.prefixLength.toNat) - 1)
  else 0

/-- Does the entry match this destination? -/
def matchesDst (e : RouteEntry) (dstIp : UInt32) : Bool :=
  dstIp &&& e.mask == e.routePrefix &&& e.mask

/-- The first `prefixLength` bits of the destination are those of the prefix. -/
def Covers (e : RouteEntry) (dstIp : UInt32) : Prop :=
  dstIp.toNat / 2 ^ (32 - e.prefixLength.toNat) =
    e.routePrefix.toNat / 2 ^ (32 - e.prefixLength.toNat)

instance (e : RouteEntry) (dstIp : UInt32) : Decidable (e.Covers dstIp) :=
  inferInstanceAs (Decidable (_ = _))

end RouteEntry

structure Router where
  interfaces : List AsyncNetworkInterface := []
  routingTable : List RouteEntry := []

/-- What `route_one_datagram` finds out about a datagram. -/
inductive Decision
  | discard
  | send (interfaceNum : ℕ) (dgram : IPv4Datagram) (nextHop : UInt32)
  | undefined
deriving DecidableEq, Repr

/-- How a call ends.  Undefined behaviour is an outcome of its own. -/
inductive RouteStatus
  | ok
  | throws
  | undefined
deriving DecidableEq, Repr

namespace Router

def addInterface (r : Router) (interface : AsyncNetworkInterface) : Router × ℕ :=
  ({ r with interfaces := r.interfaces ++ [interface] }, r.interfaces.length)

def addRoute (r : Router) (e : RouteEntry) : Router :=
  { r with routingTable := r.routingTable ++ [e] }

/-! ### The search -/

/-- `int` from `size_t`: the low 32 bits, in two's complement. -/
def toInt (i : ℕ) : ℤ :=
  if i % 2 ^ 32 < 2 ^ 31 then (i % 2 ^ 32 : ℕ) else (i % 2 ^ 32 : ℕ) - 2 ^ 32

/-- The two variables of the search. -/
structure Search where
  bestMatchIdx : ℤ := -1
  longestPrefix : UInt8 := 0
deriving DecidableEq, Repr

/-- One turn of the search, at the entry `e` with index `i`. -/
def Search.visit (dstIp : UInt32) (s : Search) (e : RouteEntry) (i : ℕ) : Search :=
  if e.matchesDst dstIp then
    if e.prefixLength ≥ s.longestPrefix then
      { bestMatchIdx := toInt i, longestPrefix := e.prefixLength }
    else s
  else s

/-- The loop over the routing table. -/
def search (table : List RouteEntry) (dstIp : UInt32) : Search :=
  table.zipIdx.foldl (fun s x => s.visit dstIp x.1 x.2) {}

/-- Send by `_routing_table[best_match_idx]`.  A negative index is past the end of the table. -/
def sendBy (table : List RouteEntry) (bestMatchIdx : ℤ) (dgram : IPv4Datagram) : Decision :=
  if bestMatchIdx < 0 then .undefined
  else
    match table[bestMatchIdx.toNat]? with
    | none => .undefined
    | some bestRoute =>
        .send bestRoute.interfaceNum dgram (bestRoute.nextHop.getD dgram.header.dst)

/-- What becomes of a datagram. -/
def decisionFor (table : List RouteEntry) (dgram : IPv4Datagram) : Decision :=
  if dgram.header.ttl ≤ 1 then .discard
  else
    let dgram := dgram.decrementTtl
    let bestMatchIdx := (search table dgram.header.dst).bestMatchIdx
    if bestMatchIdx = -1 then .discard else sendBy table bestMatchIdx dgram

/-- The datagram as `route_one_datagram` leaves it: it is passed by reference. -/
def visited (dgram : IPv4Datagram) : IPv4Datagram :=
  if dgram.header.ttl ≤ 1 then dgram else dgram.decrementTtl

/-- Carry a decision out. -/
def perform (r : Router) : Decision → Router × RouteStatus
  | .discard => (r, .ok)
  | .undefined => (r, .undefined)
  | .send n dgram nextHop =>
      match r.interfaces[n]? with
      | none => (r, .undefined)
      | some interface =>
          let (interface, threw) := interface.sendDatagram dgram nextHop
          ({ r with interfaces := r.interfaces.set n interface }, if threw then .throws else .ok)

/-- `route_one_datagram`: the router and the datagram afterwards, and how it ended. -/
def routeOneDatagram (r : Router) (dgram : IPv4Datagram) : Router × IPv4Datagram × RouteStatus :=
  let (r, status) := r.perform (decisionFor r.routingTable dgram)
  (r, visited dgram, status)

/-! ### The loops -/

/-- `datagrams_out()` of an interface. -/
def queue (r : Router) (n : ℕ) : List IPv4Datagram :=
  (r.interfaces[n]?.map (·.datagramsOut)).getD []

def setQueue (r : Router) (n : ℕ) (q : List IPv4Datagram) : Router :=
  { r with interfaces := r.interfaces.modify n fun i => { i with datagramsOut := q } }

/-- The inner loop, for `fuel` turns: route the front of the queue and pop it.  The decisions are
for the observer. -/
def drain (n : ℕ) : ℕ → Router → Router × List Decision × RouteStatus
  | 0, r => (r, [], .ok)
  | fuel + 1, r =>
      match r.queue n with
      | [] => (r, [], .ok)
      | dgram :: rest =>
          let decision := decisionFor r.routingTable dgram
          match r.routeOneDatagram dgram with
          | (r, _, .ok) =>
              let (r, decisions, status) := drain n fuel (r.setQueue n rest)
              (r, decision :: decisions, status)
          | (r, dgram, status) => (r.setQueue n (dgram :: rest), [decision], status)

/-- The outer loop, over the interfaces that are left. -/
def drainAll : List ℕ → Router → Router × List Decision × RouteStatus
  | [], r => (r, [], .ok)
  | n :: ns, r =>
      match r.drain n (r.queue n).length with
      | (r, decisions, .ok) =>
          let (r, more, status) := drainAll ns r
          (r, decisions ++ more, status)
      | (r, decisions, status) => (r, decisions, status)

def route (r : Router) : Router × List Decision × RouteStatus :=
  r.drainAll (List.range r.interfaces.length)

end Router

end CourseNet
