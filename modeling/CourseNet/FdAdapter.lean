import CourseNet.FileDescriptor
import CourseNet.NetworkInterface
import CourseNet.SegmentFormat
import CourseNet.TCPOverIPv4

/-!
# Adapters

The adapters of `fd_adapter.hh`, `tuntap_adapter.hh` and `lossy_fd_adapter.hh`: a descriptor that
reads and writes TCP segments as UDP payloads, as IPv4 datagrams, or as IPv4 datagrams in Ethernet
frames, and one that loses some of them.  What the kernel hands to a read is an argument; what was
handed to the kernel by the writes so far is kept in order.
-/

namespace CourseNet

/-- The rest of `FdAdapterConfig`. -/
structure LossRates where
  lossRateDn : UInt16 := 0
  lossRateUp : UInt16 := 0
deriving DecidableEq, Repr

/-- What `TCPSpongeSocket` asks of an adapter.  `δ` is what the kernel hands to one read, `ω` what
it is handed by one write; a read or a write is nothing if it throws. -/
class FdAdapter (α : Type) (δ ω : outParam Type) where
  fd : α → FileDescriptor
  output : α → List ω
  setConfig : α → FdAdapterConfig → LossRates → α
  setListening : α → Bool → α
  read : α → δ → Option (α × Option TCPSegment)
  write : α → TCPSegment → Option α
  tick : α → ℕ → α

/-! ### UDP -/

/-- What `recvfrom` returns; no UDP payload is longer. -/
structure ReceivedDatagram where
  sourceAddress : Address
  payload : Bytes
  size_le : payload.length ≤ 65507

structure TCPOverUDPSocketAdapter where
  config : FdAdapterConfig := {}
  listening : Bool := false
  sock : FileDescriptor := {}
  sent : List (Address × Bytes) := []
deriving DecidableEq, Repr

namespace TCPOverUDPSocketAdapter

/-- `UDPSocket::recv`, or nothing if it throws. -/
def recv (a : TCPOverUDPSocketAdapter) (datagram : ReceivedDatagram) (mtu : ℕ) :
    Option TCPOverUDPSocketAdapter :=
  if mtu < datagram.payload.length then none else some { a with sock := a.sock.registerRead }

/-- What `read` makes of a datagram. -/
def accept (a : TCPOverUDPSocketAdapter) (datagram : ReceivedDatagram) :
    TCPOverUDPSocketAdapter × Option TCPSegment :=
  if !a.listening && datagram.sourceAddress != a.config.destination then (a, none)
  else
    let (seg, result) := ({} : TCPSegment).parse datagram.payload 0
    if result ≠ .noError then (a, none)
    else if a.listening then
      if seg.header.syn && !seg.header.rst then
        ({ a with
            config := { a.config with destination := datagram.sourceAddress }
            listening := false }, some seg)
      else (a, none)
    else (a, some seg)

def read (a : TCPOverUDPSocketAdapter) (datagram : ReceivedDatagram) :
    Option (TCPOverUDPSocketAdapter × Option TCPSegment) :=
  (a.recv datagram 65536).map (·.accept datagram)

def write (a : TCPOverUDPSocketAdapter) (seg : TCPSegment) : Option TCPOverUDPSocketAdapter :=
  let seg : TCPSegment := { seg with header := { seg.header with
    sport := a.config.source.port
    dport := a.config.destination.port } }
  (seg.serialize 0).map fun bufs =>
    { a with
        sock := a.sock.registerWrite
        sent := a.sent ++ [(a.config.destination, bufs.concatenate)] }

instance : FdAdapter TCPOverUDPSocketAdapter ReceivedDatagram (Address × Bytes) where
  fd := sock
  output := sent
  setConfig a config _ := { a with config := config }
  setListening a listening := { a with listening := listening }
  read := read
  write := write
  tick a _ := a

end TCPOverUDPSocketAdapter

/-! ### TUN and TAP devices -/

/-- What one read of a device returns; a read asks for no more. -/
structure DevicePacket where
  bytes : Bytes
  size_le : bytes.length ≤ FileDescriptor.bufferSize

/-- A TUN or TAP device and the packets written to it. -/
structure TunTapFD where
  fd : FileDescriptor := {}
  written : List Bytes := []
deriving DecidableEq, Repr

namespace TunTapFD

/-- `read`, with the limit it has by default. -/
def read (d : TunTapFD) (packet : DevicePacket) : Except String (TunTapFD × Bytes) :=
  (d.fd.read (2 ^ 64 - 1) packet.bytes).map fun r => ({ d with fd := r.1 }, r.2)

/-- `write`; a device takes a packet as a whole. -/
def write (d : TunTapFD) (bufs : BufferList) : TunTapFD :=
  let (fd, taken, _) := d.fd.write bufs true [some bufs.size]
  { fd := fd, written := d.written ++ [taken] }

end TunTapFD

structure TCPOverIPv4OverTunFdAdapter extends TCPOverIPv4Adapter where
  tun : TunTapFD := {}
deriving DecidableEq, Repr

namespace TCPOverIPv4OverTunFdAdapter

/-- `unwrap_tcp_in_ip` of the base class. -/
def unwrapDatagram (a : TCPOverIPv4OverTunFdAdapter) (ipDgram : IPv4Datagram) :
    Option (TCPOverIPv4OverTunFdAdapter × Option TCPSegment) :=
  (a.unwrapTcpInIp ipDgram).map fun r => ({ a with toTCPOverIPv4Adapter := r.1 }, r.2)

def read (a : TCPOverIPv4OverTunFdAdapter) (packet : DevicePacket) :
    Option (TCPOverIPv4OverTunFdAdapter × Option TCPSegment) :=
  match a.tun.read packet with
  | .error _ => none
  | .ok (tun, bytes) =>
      let a := { a with tun := tun }
      match ({} : IPv4Datagram).parse bytes with
      | (ipDgram, .noError) => a.unwrapDatagram ipDgram
      | _ => some (a, none)

def write (a : TCPOverIPv4OverTunFdAdapter) (seg : TCPSegment) :
    Option TCPOverIPv4OverTunFdAdapter := do
  let ipDgram ← (a.wrapTcpInIp seg).2
  let bufs ← ipDgram.serialize
  return { a with tun := a.tun.write bufs }

instance : FdAdapter TCPOverIPv4OverTunFdAdapter DevicePacket Bytes where
  fd a := a.tun.fd
  output a := a.tun.written
  setConfig a config _ := { a with config := config }
  setListening a listening := { a with listening := listening }
  read := read
  write := write
  tick a _ := a

end TCPOverIPv4OverTunFdAdapter

/-! ### Ethernet -/

structure TCPOverIPv4OverEthernetAdapter extends TCPOverIPv4Adapter where
  tap : TunTapFD
  interface : NetworkInterface
  nextHop : UInt32

namespace TCPOverIPv4OverEthernetAdapter

/-- The constructor: a dummy frame goes first. -/
def new (tap : TunTapFD) (ethernetAddress : EthernetAddress) (ipAddress nextHop : UInt32) :
    TCPOverIPv4OverEthernetAdapter where
  tap := tap.write EthernetFrame.zero.serialize
  interface := NetworkInterface.new ethernetAddress ipAddress
  nextHop := nextHop

/-- `send_pending`. -/
def sendPending (a : TCPOverIPv4OverEthernetAdapter) : TCPOverIPv4OverEthernetAdapter :=
  { a with
      tap := a.interface.framesOut.foldl (fun tap frame => tap.write frame.serialize) a.tap
      interface := { a.interface with framesOut := [] } }

/-- `unwrap_tcp_in_ip` of the base class. -/
def unwrapDatagram (a : TCPOverIPv4OverEthernetAdapter) (ipDgram : IPv4Datagram) :
    Option (TCPOverIPv4OverEthernetAdapter × Option TCPSegment) :=
  (a.unwrapTcpInIp ipDgram).map fun r => ({ a with toTCPOverIPv4Adapter := r.1 }, r.2)

def read (a : TCPOverIPv4OverEthernetAdapter) (packet : DevicePacket) :
    Option (TCPOverIPv4OverEthernetAdapter × Option TCPSegment) :=
  match a.tap.read packet with
  | .error _ => none
  | .ok (tap, bytes) =>
      let a := { a with tap := tap }
      match EthernetFrame.zero.parse bytes with
      | (frame, .noError) =>
          let (interface, outcome) := a.interface.recvFrame frame
          match outcome with
          | .throws => none
          | .empty => some ({ a with interface := interface }.sendPending, none)
          | .datagram ipDgram =>
              { a with interface := interface }.sendPending.unwrapDatagram ipDgram
      | _ => some (a, none)

def tick (a : TCPOverIPv4OverEthernetAdapter) (msSinceLastTick : ℕ) :
    TCPOverIPv4OverEthernetAdapter :=
  { a with interface := a.interface.tick msSinceLastTick }.sendPending

def write (a : TCPOverIPv4OverEthernetAdapter) (seg : TCPSegment) :
    Option TCPOverIPv4OverEthernetAdapter := do
  let ipDgram ← (a.wrapTcpInIp seg).2
  let (interface, threw) := a.interface.sendDatagram ipDgram a.nextHop
  if threw then none else some { a with interface := interface }.sendPending

instance : FdAdapter TCPOverIPv4OverEthernetAdapter DevicePacket Bytes where
  fd a := a.tap.fd
  output a := a.tap.written
  setConfig a config _ := { a with config := config }
  setListening a listening := { a with listening := listening }
  read := read
  write := write
  tick := tick

end TCPOverIPv4OverEthernetAdapter

/-! ### Loss -/

/-- `rand` are the numbers that the generator gives, `draws` says how many were used. -/
structure LossyFdAdapter (α : Type) where
  adapter : α
  rates : LossRates
  rand : ℕ → UInt32
  draws : ℕ

namespace LossyFdAdapter

variable {α δ ω : Type} [FdAdapter α δ ω]

/-- `_should_drop`; a rate of zero draws no number. -/
def shouldDrop (a : LossyFdAdapter α) (uplink : Bool) : Bool × LossyFdAdapter α :=
  let loss := if uplink then a.rates.lossRateUp else a.rates.lossRateDn
  if loss ≠ 0 then (decide ((a.rand a.draws).toUInt16 < loss), { a with draws := a.draws + 1 })
  else (false, a)

/-- `read`: what is dropped has been read. -/
def read (a : LossyFdAdapter α) (datagram : δ) :
    Option (LossyFdAdapter α × Option TCPSegment) :=
  (FdAdapter.read a.adapter datagram).map fun (adapter, ret) =>
    let (drop, a) := { a with adapter := adapter }.shouldDrop false
    (a, if drop then none else ret)

def write (a : LossyFdAdapter α) (seg : TCPSegment) : Option (LossyFdAdapter α) :=
  let (drop, a) := a.shouldDrop true
  if drop then some a
  else (FdAdapter.write a.adapter seg).map fun adapter => { a with adapter := adapter }

instance : FdAdapter (LossyFdAdapter α) δ ω where
  fd a := FdAdapter.fd a.adapter
  output a := FdAdapter.output a.adapter
  setConfig a config rates :=
    { a with adapter := FdAdapter.setConfig a.adapter config rates, rates := rates }
  setListening a listening := { a with adapter := FdAdapter.setListening a.adapter listening }
  read := read
  write := write
  tick a ms := { a with adapter := FdAdapter.tick a.adapter ms }

end LossyFdAdapter

end CourseNet
