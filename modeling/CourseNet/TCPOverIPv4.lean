import CourseNet.TCPWire

/-!
# TCP segments in IPv4 datagrams

`TCPOverIPv4Adapter` of `tcp_over_ip.cc`: `wrap_tcp_in_ip` sets the ports, the addresses and the
total length and lets the segment be serialized with the checksum of the pseudo-header;
`unwrap_tcp_in_ip` takes a datagram only if its addresses, its protocol, its checksum and its ports
are those of the connection.  Between two adapters that face each other nothing of a segment is
lost.
-/

namespace CourseNet

/-- `Address`: what `ipv4_numeric` and `port` return. -/
structure Address where
  ipv4Numeric : UInt32 := 0
  port : UInt16 := 0
deriving DecidableEq, Repr

/-- `FdAdapterConfig`: the two ends of the connection. -/
structure FdAdapterConfig where
  source : Address := {}
  destination : Address := {}
deriving DecidableEq, Repr

structure TCPOverIPv4Adapter where
  config : FdAdapterConfig := {}
  listening : Bool := false
deriving DecidableEq, Repr

namespace TCPOverIPv4Adapter

/-- The datagram header that `wrap_tcp_in_ip` fills in. -/
def headerFor (a : TCPOverIPv4Adapter) (seg : TCPSegment) : IPv4Header :=
  let header : IPv4Header := {}
  { header with
    src := a.config.source.ipv4Numeric
    dst := a.config.destination.ipv4Numeric
    len := UInt16.ofNat
      (header.hlen.toNat * 4 + seg.header.doff.toNat * 4 + seg.payload.length) }

/-- The port numbers that `wrap_tcp_in_ip` sets in the segment. -/
def setPorts (a : TCPOverIPv4Adapter) (seg : TCPSegment) : TCPSegment :=
  { seg with header := { seg.header with
    sport := a.config.source.port
    dport := a.config.destination.port } }

/-- `wrap_tcp_in_ip`: the segment as it leaves it, and the datagram or nothing if it throws. -/
def wrapTcpInIp (a : TCPOverIPv4Adapter) (seg : TCPSegment) : TCPSegment × Option IPv4Datagram :=
  let seg := a.setPorts seg
  let header := a.headerFor seg
  (seg, (seg.serialize header.pseudoCksum).map fun payload => ⟨header, payload⟩)

/-- The last test of `unwrap_tcp_in_ip`: is the segment from our peer? -/
def fromPeer (a : TCPOverIPv4Adapter) (tcpSeg : TCPSegment) : Option TCPSegment :=
  if tcpSeg.header.sport ≠ a.config.destination.port then none else some tcpSeg

/-- `unwrap_tcp_in_ip`: the adapter as it leaves it and the segment if it is related to the
connection, or nothing if it throws.  A SYN makes a listening adapter a connected one, with the
sender as its peer and the address contacted as its own. -/
def unwrapTcpInIp (a : TCPOverIPv4Adapter) (ipDgram : IPv4Datagram) :
    Option (TCPOverIPv4Adapter × Option TCPSegment) :=
  if !a.listening && ipDgram.header.dst != a.config.source.ipv4Numeric then some (a, none)
  else if !a.listening && ipDgram.header.src != a.config.destination.ipv4Numeric then
    some (a, none)
  else if ipDgram.header.proto ≠ IPv4Header.protoTCP then some (a, none)
  else do
    let buffer ← ipDgram.payload.toBuffer
    let (tcpSeg, result) := ({} : TCPSegment).parse buffer ipDgram.header.pseudoCksum
    if result ≠ .noError then return (a, none)
    else if tcpSeg.header.dport ≠ a.config.source.port then return (a, none)
    else if a.listening then
      if tcpSeg.header.syn && !tcpSeg.header.rst then
        let a : TCPOverIPv4Adapter :=
          { config :=
              { source := ⟨ipDgram.header.dst, a.config.source.port⟩
                destination := ⟨ipDgram.header.src, tcpSeg.header.sport⟩ }
            listening := false }
        return (a, a.fromPeer tcpSeg)
      else return (a, none)
    else return (a, a.fromPeer tcpSeg)

/-! ### The datagram that carries a segment -/

/-- A segment that fits into a datagram with a header of twenty bytes. -/
structure Fits (seg : TCPSegment) : Prop where
  header : seg.header.Fits
  size : seg.payload.length ≤ 65535 - 20 - 4 * seg.header.doff.toNat

variable {a : TCPOverIPv4Adapter} {seg : TCPSegment}

theorem headerFor_fits (a : TCPOverIPv4Adapter) (seg : TCPSegment) : (a.headerFor seg).Fits :=
  ⟨rfl, Nat.le_refl 5, show 5 ≤ 15 from by decide, show 0 < 2 ^ 13 from by decide⟩

/-- The total length does not overflow its sixteen bits. -/
theorem headerFor_len (hfits : Fits seg) :
    (a.headerFor seg).len.toNat =
      4 * (a.headerFor seg).hlen.toNat + (4 * seg.header.doff.toNat + seg.payload.length) := by
  have hmaximum := hfits.header.maximum
  have hsize := hfits.size
  show (UInt16.ofNat (5 * 4 + seg.header.doff.toNat * 4 + seg.payload.length)).toNat = 4 * 5 + _
  rw [UInt16.toNat_ofNat']
  omega

/-- Folding the two halves of an address. -/
theorem halves_le (x : UInt32) : ((x >>> 16) + (x &&& 0xffff)).toNat ≤ 2 * 65535 := by
  have hx := x.toNat_lt
  rw [InternetChecksum.foldTurn_toNat]
  omega

/-- The pseudo-header leaves room in the running sum. -/
theorem pseudoCksum_le (h : IPv4Header) : h.pseudoCksum.toNat ≤ 5 * 65535 + 255 := by
  have hsrc := halves_le h.src
  have hdst := halves_le h.dst
  have hproto := h.proto.toNat_lt
  have hlength := h.payloadLength.toNat_lt
  dsimp only [IPv4Header.pseudoCksum]
  rw [UInt32.toNat_add, UInt32.toNat_add, UInt32.toNat_add, UInt8.toNat_toUInt32,
    UInt16.toNat_toUInt32]
  omega

/-- What `wrap_tcp_in_ip` and `IPv4Datagram::serialize` make of a segment is parsed back. -/
theorem wrap_parse (a : TCPOverIPv4Adapter) (seg : TCPSegment) (hfits : Fits seg) :
    ∃ ipDgram bufs cksum buffer, (a.wrapTcpInIp seg).2 = some ipDgram ∧
      ipDgram.serialize = some bufs ∧
      ({} : IPv4Datagram).parse bufs.concatenate =
        (⟨(a.headerFor seg).withCksum cksum, [buffer]⟩, .noError) ∧
      ∃ tcpCksum, ({} : TCPSegment).parse buffer (a.headerFor seg).pseudoCksum =
        (⟨(a.setPorts seg).header.withCksum tcpCksum, seg.payload⟩, .noError) := by
  have hmaximum := hfits.header.maximum
  have hsize := hfits.size
  have hpseudo := pseudoCksum_le (a.headerFor seg)
  have hroom : (a.headerFor seg).pseudoCksum.toNat +
      65535 * ((4 * seg.header.doff.toNat + seg.payload.length) / 2 + 2) < 2 ^ 32 := by
    have hhalf : (4 * seg.header.doff.toNat + seg.payload.length) / 2 + 2 ≤ 32770 := by omega
    have hmul := Nat.mul_le_mul_left 65535 hhalf
    omega
  obtain ⟨payload, tcpCksum, hserialize, hpayload, hsegment⟩ :=
    TCPSegment.parse_serialize (a.setPorts seg)
      ⟨hfits.header.minimum, hfits.header.maximum⟩ hroom
  obtain ⟨bufs, cksum, hbufs, hparse⟩ :=
    IPv4Datagram.parse_serialize (d := ⟨a.headerFor seg, payload⟩) (a.headerFor_fits seg)
      (by rw [headerFor_len hfits, hpayload]; rfl)
  refine ⟨⟨a.headerFor seg, payload⟩, bufs, cksum, payload.concatenate, ?_, hbufs, hparse,
    tcpCksum, hsegment {}⟩
  show ((a.setPorts seg).serialize (a.headerFor seg).pseudoCksum).map _ = _
  rw [hserialize]
  rfl

/-- A datagram of the connection that carries a valid segment of the connection. -/
theorem unwrap_eq {h : IPv4Header} {buffer : Bytes} {tcpSeg : TCPSegment}
    (hlistening : a.listening = false) (hdst : h.dst = a.config.source.ipv4Numeric)
    (hsrc : h.src = a.config.destination.ipv4Numeric) (hproto : h.proto = IPv4Header.protoTCP)
    (hparse : ({} : TCPSegment).parse buffer h.pseudoCksum = (tcpSeg, .noError))
    (hdport : tcpSeg.header.dport = a.config.source.port)
    (hsport : tcpSeg.header.sport = a.config.destination.port) :
    a.unwrapTcpInIp ⟨h, [buffer]⟩ = some (a, some tcpSeg) := by
  have hpeer : a.fromPeer tcpSeg = some tcpSeg := if_neg (not_not.mpr hsport)
  unfold unwrapTcpInIp
  simp only [hlistening, hdst, hsrc, hproto, bne_self_eq_false, Bool.and_false, Bool.false_eq_true,
    if_false, ne_eq, not_true_eq_false]
  show (some buffer).bind _ = _
  simp only [Option.bind_some, hparse, hdport, hpeer, not_true_eq_false, if_false]
  rfl

/-- **A segment survives the datagram.**  For every segment with a data offset of `5 .. 15` and a
payload that fits, and for adapters that face each other: what `a` wraps, serialized and parsed,
`b` unwraps to the same payload and the same header, up to the ports, which are those of `a`, and
the checksum. -/
theorem unwrap_wrapTcpInIp (a b : TCPOverIPv4Adapter) (seg : TCPSegment)
    (hlistening : b.listening = false)
    (hsource : a.config.source = b.config.destination)
    (hdestination : a.config.destination = b.config.source)
    (hminimum : 5 ≤ seg.header.doff.toNat) (hmaximum : seg.header.doff.toNat ≤ 15)
    (hsize : seg.payload.length ≤ 65535 - 20 - 4 * seg.header.doff.toNat) :
    ∃ ipDgram bufs received out, (a.wrapTcpInIp seg).2 = some ipDgram ∧
      ipDgram.serialize = some bufs ∧
      ({} : IPv4Datagram).parse bufs.concatenate = (received, .noError) ∧
      b.unwrapTcpInIp received = some (b, some out) ∧ out.payload = seg.payload ∧
      out.header = { seg.header with
        sport := a.config.source.port
        dport := a.config.destination.port
        cksum := out.header.cksum } := by
  obtain ⟨ipDgram, bufs, cksum, buffer, hwrap, hserialize, hparse, tcpCksum, hsegment⟩ :=
    wrap_parse a seg ⟨⟨hminimum, hmaximum⟩, hsize⟩
  refine ⟨ipDgram, bufs, _, _, hwrap, hserialize, hparse,
    unwrap_eq hlistening ?_ ?_ rfl hsegment ?_ ?_, rfl, rfl⟩
  · exact congrArg Address.ipv4Numeric hdestination
  · exact congrArg Address.ipv4Numeric hsource
  · exact congrArg Address.port hdestination
  · exact congrArg Address.port hsource

/-- An odd payload behind a header with options, between two adapters that face each other. -/
theorem unwrap_wrapTcpInIp_odd :
    let here : Address := ⟨0x0a000001, 1234⟩
    let peer : Address := ⟨0xc0a80001, 80⟩
    let a : TCPOverIPv4Adapter := { config := { source := here, destination := peer } }
    let b : TCPOverIPv4Adapter := { config := { source := peer, destination := here } }
    let seg : TCPSegment :=
      { header := { seqno := ⟨0xfffffffe⟩, ackno := ⟨7⟩, doff := 6, ack := true, fin := true }
        payload := [1, 2, 255] }
    ∃ ipDgram bufs received out, (a.wrapTcpInIp seg).2 = some ipDgram ∧
      ipDgram.serialize = some bufs ∧
      ({} : IPv4Datagram).parse bufs.concatenate = (received, .noError) ∧
      b.unwrapTcpInIp received = some (b, some out) ∧ out.payload = seg.payload ∧
      out.header = { seg.header with
        sport := a.config.source.port
        dport := a.config.destination.port
        cksum := out.header.cksum } :=
  unwrap_wrapTcpInIp _ _ _ rfl rfl rfl (by decide) (by decide) (by decide)

end TCPOverIPv4Adapter

end CourseNet
