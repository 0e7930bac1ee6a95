import CourseNet.Ethernet
import CourseNet.SortedMap
import CourseNet.StepSystem

/-!
# The network interface

`NetworkInterface` of `network_interface.cc`: IPv4 datagrams in Ethernet frames, with the ARP cache,
the datagrams that wait for an address, and the timers of the ARP requests.  `framesOut` is the
queue the owner drains; no member function reads it, so the model leaves every frame in it.  A
`serialize` that throws leaves what was done before it; the last component of a call's result tells
whether it threw.
-/

namespace CourseNet

/-- Keys of `std::map<uint32_t, …>` are compared as numbers. -/
instance instLinearOrderUInt32 : LinearOrder UInt32 where
  le_refl := UInt32.le_refl
  le_trans _ _ _ := UInt32.le_trans
  le_antisymm _ _ := UInt32.le_antisymm
  le_total := UInt32.le_total
  lt_iff_le_not_ge a b := by
    rw [UInt32.lt_iff_toNat_lt, UInt32.le_iff_toNat_le, UInt32.le_iff_toNat_le]
    omega
  toDecidableLE := inferInstance
  toDecidableEq := inferInstance
  toDecidableLT := inferInstance

structure NetworkInterface where
  ethernetAddress : EthernetAddress
  ipAddress : UInt32
  framesOut : List EthernetFrame
  arpCache : SortedMap UInt32 (EthernetAddress × ℕ)
  pendingDatagrams : SortedMap UInt32 (List IPv4Datagram)
  arpRequests : SortedMap UInt32 ℕ

/-- What `recv_frame` does for its caller. -/
inductive RecvOutcome
  | empty
  | datagram (d : IPv4Datagram)
  | throws
deriving DecidableEq, Repr

namespace NetworkInterface

/-- `ARP_CACHE_TIMEOUT`. -/
def arpCacheTimeout : ℕ := 30000

/-- `ARP_REQUEST_TIMEOUT`. -/
def arpRequestTimeout : ℕ := 5000

def new (ethernetAddress : EthernetAddress) (ipAddress : UInt32) : NetworkInterface :=
  ⟨ethernetAddress, ipAddress, [], SortedMap.empty, SortedMap.empty, SortedMap.empty⟩

/-- The datagrams that wait for the address of `ip`, the first one first. -/
def pending (i : NetworkInterface) (ip : UInt32) : List IPv4Datagram :=
  (i.pendingDatagrams.find? ip).getD []

/-- `_frames_out.push`. -/
def pushFrame (i : NetworkInterface) (frame : EthernetFrame) : NetworkInterface :=
  { i with framesOut := i.framesOut ++ [frame] }

/-- An IPv4 frame from this interface. -/
def ipv4Frame (i : NetworkInterface) (dst : EthernetAddress) (payload : BufferList) :
    EthernetFrame :=
  { header := { dst := dst, src := i.ethernetAddress, type := EthernetHeader.typeIPv4 }
    payload := payload }

/-- An ARP frame from this interface.  The messages it sends are supported, so `serialize` does not
throw. -/
def arpFrame (i : NetworkInterface) (dst : EthernetAddress) (m : ARPMessage) : EthernetFrame :=
  { header := { dst := dst, src := i.ethernetAddress, type := EthernetHeader.typeARP }
    payload := [m.toBytes] }

/-- The request `send_datagram` broadcasts. -/
def arpRequest (i : NetworkInterface) (nextHopIp : UInt32) : ARPMessage :=
  { opcode := ARPMessage.opcodeRequest
    senderEthernetAddress := i.ethernetAddress
    senderIpAddress := i.ipAddress
    targetEthernetAddress := Vector.replicate 6 0
    targetIpAddress := nextHopIp }

/-- The reply to a request for our address. -/
def arpReply (i : NetworkInterface) (m : ARPMessage) : ARPMessage :=
  { opcode := ARPMessage.opcodeReply
    senderEthernetAddress := i.ethernetAddress
    senderIpAddress := i.ipAddress
    targetEthernetAddress := m.senderEthernetAddress
    targetIpAddress := m.senderIpAddress }

/-- Queue a datagram whose next hop is not known. -/
def enqueue (i : NetworkInterface) (dgram : IPv4Datagram) (nextHopIp : UInt32) :
    NetworkInterface :=
  { i with
      pendingDatagrams := i.pendingDatagrams.assign nextHopIp (i.pending nextHopIp ++ [dgram]) }

/-- Broadcast a request unless one is under way. -/
def requestAddress (i : NetworkInterface) (nextHopIp : UInt32) : NetworkInterface :=
  match i.arpRequests.find? nextHopIp with
  | some _ => i
  | none =>
      { i.pushFrame (i.arpFrame ethernetBroadcast (i.arpRequest nextHopIp)) with
          arpRequests := i.arpRequests.assign nextHopIp arpRequestTimeout }

/-- `send_datagram`; the flag tells whether `serialize` threw. -/
def sendDatagram (i : NetworkInterface) (dgram : IPv4Datagram) (nextHopIp : UInt32) :
    NetworkInterface × Bool :=
  match i.arpCache.find? nextHopIp with
  | some (dst, _) =>
      match dgram.serialize with
      | some payload => (i.pushFrame (i.ipv4Frame dst payload), false)
      | none => (i, true)
  | none => ((i.enqueue dgram nextHopIp).requestAddress nextHopIp, false)

/-- The loop over a queue of waiting datagrams: the payloads sent, and the datagrams that are left
because the first of them made `serialize` throw. -/
def serializeQueue : List IPv4Datagram → List BufferList × List IPv4Datagram
  | [] => ([], [])
  | dgram :: rest =>
      match dgram.serialize with
      | some payload => (payload :: (serializeQueue rest).1, (serializeQueue rest).2)
      | none => ([], dgram :: rest)

/-- Send everything that waits for `ip`. -/
def flushPending (i : NetworkInterface) (ip : UInt32) (dst : EthernetAddress) :
    NetworkInterface × Bool :=
  match i.pendingDatagrams.find? ip with
  | none => (i, false)
  | some queue =>
      let (payloads, left) := serializeQueue queue
      let i := { i with framesOut := i.framesOut ++ payloads.map (i.ipv4Frame dst) }
      if left.isEmpty then ({ i with pendingDatagrams := i.pendingDatagrams.erase ip }, false)
      else ({ i with pendingDatagrams := i.pendingDatagrams.assign ip left }, true)

/-- `_arp_cache[sender_ip] = …`. -/
def learn (i : NetworkInterface) (m : ARPMessage) : NetworkInterface :=
  { i with
      arpCache :=
        i.arpCache.assign m.senderIpAddress (m.senderEthernetAddress, arpCacheTimeout) }

/-- The ARP part of `recv_frame`, for a message that was parsed. -/
def recvArp (i : NetworkInterface) (m : ARPMessage) : NetworkInterface × Bool :=
  let i := i.learn m
  if m.opcode == ARPMessage.opcodeRequest && m.targetIpAddress == i.ipAddress then
    (i.pushFrame (i.arpFrame m.senderEthernetAddress (i.arpReply m)), false)
  else if m.opcode == ARPMessage.opcodeReply then
    { i with arpRequests := i.arpRequests.erase m.senderIpAddress }.flushPending
      m.senderIpAddress m.senderEthernetAddress
  else (i, false)

/-- Is the frame for this interface? -/
def accepts (i : NetworkInterface) (frame : EthernetFrame) : Bool :=
  frame.header.dst == i.ethernetAddress || frame.header.dst == ethernetBroadcast

/-- The ARP message of a frame that is for this interface. -/
def arpMessage? (i : NetworkInterface) (frame : EthernetFrame) : Option ARPMessage :=
  if i.accepts frame && frame.header.type == EthernetHeader.typeARP then
    match BufferList.toBuffer frame.payload with
    | none => none
    | some buffer =>
        match ({} : ARPMessage).parse buffer with
        | (m, .noError) => some m
        | _ => none
  else none

/-- `recv_frame`.  A payload in more than one buffer makes the conversion to `Buffer` throw. -/
def recvFrame (i : NetworkInterface) (frame : EthernetFrame) : NetworkInterface × RecvOutcome :=
  if !i.accepts frame then (i, .empty)
  else if frame.header.type == EthernetHeader.typeIPv4 then
    match BufferList.toBuffer frame.payload with
    | none => (i, .throws)
    | some buffer =>
        match ({} : IPv4Datagram).parse buffer with
        | (dgram, .noError) => (i, .datagram dgram)
        | _ => (i, .empty)
  else if frame.header.type == EthernetHeader.typeARP then
    match BufferList.toBuffer frame.payload with
    | none => (i, .throws)
    | some buffer =>
        match ({} : ARPMessage).parse buffer with
        | (m, .noError) =>
            let (i, threw) := i.recvArp m
            (i, if threw then .throws else .empty)
        | _ => (i, .empty)
  else (i, .empty)

/-- One of the loops of `tick`: drop what expires and count the rest down. -/
def expire {V : Type} (time : V → ℕ) (setTime : V → ℕ → V) (ms : ℕ) (timers : SortedMap UInt32 V) :
    SortedMap UInt32 V :=
  (timers.filter fun e => !decide (time e.2 ≤ ms)).mapValues fun v => setTime v (time v - ms)

def tick (i : NetworkInterface) (ms : ℕ) : NetworkInterface :=
  { i with
      arpCache := expire (·.2) (fun v time => (v.1, time)) ms i.arpCache
      arpRequests := expire id (fun _ time => time) ms i.arpRequests }

/-! ### Runs -/

/-- The calls of an owner. -/
inductive Op
  | sendDatagram (dgram : IPv4Datagram) (nextHop : UInt32)
  | recvFrame (frame : EthernetFrame)
  | tick (ms : ℕ)

def step (i : NetworkInterface) : Op → NetworkInterface
  | .sendDatagram dgram nextHop => (i.sendDatagram dgram nextHop).1
  | .recvFrame frame => (i.recvFrame frame).1
  | .tick ms => i.tick ms

end NetworkInterface

end CourseNet
