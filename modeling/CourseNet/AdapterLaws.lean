import CourseNet.DatagramConservation
import CourseNet.FdAdapter
import CourseNet.Network

/-!
# What the adapters promise

Two sockets talk through adapters and a network between them.  `LawfulFdAdapter` says what their
adapters have to promise for the connections to see each other's segments and nothing else: what an
adapter writes, now or once an address is known, are the segments it was given, and what it reads
from such a datagram is that segment, up to what the connection does not look at.
-/

namespace CourseNet

/-- The same segment up to the ports and the checksum. -/
structure TCPSegment.Matches (out seg : TCPSegment) : Prop where
  payload : out.payload = seg.payload
  header : ∃ sport dport cksum, out.header =
    { seg.header with sport := sport, dport := dport, cksum := cksum }

/-- A connection looks neither at the ports nor at the checksum. -/
theorem TCPConnection.segmentReceived_matches (c : TCPConnection) {out seg : TCPSegment}
    (h : out.Matches seg) : c.segmentReceived out = c.segmentReceived seg := by
  obtain ⟨header, payload⟩ := out
  obtain ⟨hpayload, sport, dport, cksum, hheader⟩ := h
  dsimp only at hpayload hheader
  rw [hpayload, hheader]
  rfl

theorem TCPConnection.segmentReceivedThrows_matches (c : TCPConnection) {out seg : TCPSegment}
    (h : out.Matches seg) : c.segmentReceivedThrows out = c.segmentReceivedThrows seg := by
  obtain ⟨header, payload⟩ := out
  obtain ⟨hpayload, sport, dport, cksum, hheader⟩ := h
  dsimp only at hpayload hheader
  rw [hpayload, hheader]
  rfl

theorem Endpoint.step_matches (e : Endpoint) {out seg : TCPSegment} (h : out.Matches seg) :
    e.step (.segmentReceived out) = e.step (.segmentReceived seg) := by
  unfold Endpoint.step TCPConnection.step
  dsimp only
  rw [e.conn.segmentReceived_matches h]

/-- The laws.  `Holds T` is about an adapter: every segment in what it has written, and in what
waits inside it, satisfies `T`.  `Carried` is about the network: this datagram is one of those
written.  A datagram that is `Foreign` to an adapter is not for its connection. -/
class LawfulFdAdapter (α : Type) {δ ω : outParam Type} [FdAdapter α δ ω] where
  Holds : (TCPSegment → Prop) → α → Prop
  Carried : List ω → δ → Prop
  Foreign : α → δ → Prop
  holds_mono {S T : TCPSegment → Prop} {a : α} (h : ∀ seg, S seg → T seg) : Holds S a → Holds T a
  holds_setConfig {T : TCPSegment → Prop} {a : α} (config : FdAdapterConfig) (rates : LossRates) :
    Holds T a → Holds T (FdAdapter.setConfig a config rates)
  holds_setListening {T : TCPSegment → Prop} {a : α} (listening : Bool) :
    Holds T a → Holds T (FdAdapter.setListening a listening)
  holds_write {T : TCPSegment → Prop} {a : α} {seg : TCPSegment} :
    Holds T a → T seg → seg.Compact → ∃ a', FdAdapter.write a seg = some a' ∧ Holds T a'
  holds_read {T : TCPSegment → Prop} {a : α} (d : δ) :
    Holds T a → ∃ a' out, FdAdapter.read a d = some (a', out) ∧ Holds T a'
  holds_tick {T : TCPSegment → Prop} {a : α} (ms : ℕ) : Holds T a → Holds T (FdAdapter.tick a ms)
  authentic {S T : TCPSegment → Prop} {a b a' : α} {d : δ} {out : TCPSegment} :
    Holds S a → Holds T b → Carried (FdAdapter.output b) d →
      FdAdapter.read a d = some (a', some out) → ∃ seg, T seg ∧ out.Matches seg
  foreign_read {T : TCPSegment → Prop} {a a' : α} {d : δ} {out : Option TCPSegment} :
    Holds T a → Foreign a d → FdAdapter.read a d = some (a', out) → out = none ∧ Foreign a' d
  foreign_write {a a' : α} {d : δ} {seg : TCPSegment} :
    Foreign a d → FdAdapter.write a seg = some a' → Foreign a' d
  read_fd {T : TCPSegment → Prop} {a a' : α} {d : δ} {out : Option TCPSegment} :
    Holds T a → FdAdapter.read a d = some (a', out) →
      (FdAdapter.fd a').readCount = (FdAdapter.fd a).readCount + 1

/-! ### UDP payloads -/

/-- Read as a segment with this contribution of the datagram layer, the bytes are a segment of
`T`. -/
def TCPSegment.ReadsAs (T : TCPSegment → Prop) (bytes : Bytes) (sum : UInt32) : Prop :=
  ∃ out seg, ({} : TCPSegment).parse bytes sum = (out, .noError) ∧ T seg ∧ out.Matches seg

theorem TCPSegment.ReadsAs.mono {S T : TCPSegment → Prop} {bytes : Bytes} {sum : UInt32}
    (hST : ∀ seg, S seg → T seg) (h : ReadsAs S bytes sum) : ReadsAs T bytes sum := by
  obtain ⟨out, seg, hparse, hseg, hmatches⟩ := h
  exact ⟨out, seg, hparse, hST seg hseg, hmatches⟩

theorem TCPSegment.ReadsAs.segment {T : TCPSegment → Prop} {bytes : Bytes} {sum : UInt32}
    (h : ReadsAs T bytes sum) {out : TCPSegment} {result : ParseResult}
    (hparse : ({} : TCPSegment).parse bytes sum = (out, result)) :
    ∃ seg, T seg ∧ out.Matches seg := by
  obtain ⟨out', seg, hparse', hseg, hmatches⟩ := h
  rw [hparse, Prod.mk.injEq] at hparse'
  exact ⟨seg, hseg, hparse'.1 ▸ hmatches⟩

/-- A compact segment fits into every datagram. -/
theorem TCPSegment.Compact.fits {seg : TCPSegment} (h : seg.Compact) :
    TCPOverIPv4Adapter.Fits seg := by
  have hdoff : seg.header.doff.toNat = 5 := by rw [h.header]; rfl
  have hsize : seg.payload.length ≤ 1000 := h.size
  exact ⟨⟨by omega, by omega⟩, by omega⟩

namespace TCPOverUDPSocketAdapter

variable {a a' : TCPOverUDPSocketAdapter} {datagram : ReceivedDatagram}

/-- Whether a datagram is accepted depends on the configuration alone. -/
theorem accept_congr {b : TCPOverUDPSocketAdapter} (hconfig : b.config = a.config)
    (hlistening : b.listening = a.listening) :
    (b.accept datagram).2 = (a.accept datagram).2 := by
  unfold accept
  rw [hconfig, hlistening]
  split
  · rfl
  · dsimp only
    split
    · rfl
    · split
      · split <;> rfl
      · rfl

/-- What `accept` changes and what it returns. -/
theorem accept_spec (a : TCPOverUDPSocketAdapter) (datagram : ReceivedDatagram) :
    (a.accept datagram).1.sock = a.sock ∧ (a.accept datagram).1.sent = a.sent ∧
      ((a.accept datagram).2 = none → (a.accept datagram).1 = a) ∧
      ∀ out, (a.accept datagram).2 = some out →
        ({} : TCPSegment).parse datagram.payload 0 = (out, .noError) := by
  unfold accept
  split
  · exact ⟨rfl, rfl, fun _ => rfl, fun out h => by cases h⟩
  · rcases hparse : ({} : TCPSegment).parse datagram.payload 0 with ⟨seg, result⟩
    dsimp only
    split
    · exact ⟨rfl, rfl, fun _ => rfl, fun out h => by cases h⟩
    · rename_i hresult
      rw [ne_eq, not_not] at hresult
      split
      · split
        · refine ⟨rfl, rfl, fun h => (by cases h), fun out h => ?_⟩
          cases h
          rw [hresult]
        · exact ⟨rfl, rfl, fun _ => rfl, fun out h => by cases h⟩
      · refine ⟨rfl, rfl, fun _ => rfl, fun out h => ?_⟩
        cases h
        rw [hresult]

/-- No datagram is too long for `read`. -/
theorem read_eq (a : TCPOverUDPSocketAdapter) (datagram : ReceivedDatagram) :
    a.read datagram = some ({ a with sock := a.sock.registerRead }.accept datagram) := by
  have hsize := datagram.size_le
  rw [read, recv, if_neg (by omega), Option.map_some]

/-- A read counts, sends nothing, and returns a segment only if the payload is one. -/
theorem read_spec {out : Option TCPSegment} (h : a.read datagram = some (a', out)) :
    a'.sock = a.sock.registerRead ∧ a'.sent = a.sent ∧ out = (a.accept datagram).2 ∧
      (out = none → a' = { a with sock := a.sock.registerRead }) ∧
      ∀ seg, out = some seg → ({} : TCPSegment).parse datagram.payload 0 = (seg, .noError) := by
  rw [read_eq, Option.some.injEq] at h
  obtain ⟨hsock, hsent, hnone, hsome⟩ := accept_spec { a with sock := a.sock.registerRead } datagram
  have hcongr : ({ a with sock := a.sock.registerRead }.accept datagram).2 =
      (a.accept datagram).2 := accept_congr rfl rfl
  rw [h] at hsock hsent hnone hsome hcongr
  exact ⟨hsock, hsent, hcongr, hnone, hsome⟩

/-- A compact segment is sent, and its payload reads as that segment. -/
theorem write_spec (a : TCPOverUDPSocketAdapter) {seg : TCPSegment} (hseg : seg.Compact) :
    ∃ payload, TCPSegment.ReadsAs (· = seg) payload 0 ∧ a.write seg = some
      { a with
          sock := a.sock.registerWrite
          sent := a.sent ++ [(a.config.destination, payload)] } := by
  have hfits := hseg.fits
  have hsize := hfits.size
  have hmaximum := hfits.header.maximum
  have hroom : (0 : UInt32).toNat +
      65535 * ((4 * seg.header.doff.toNat + seg.payload.length) / 2 + 2) < 2 ^ 32 := by
    have hhalf : (4 * seg.header.doff.toNat + seg.payload.length) / 2 + 2 ≤ 32770 := by omega
    have hmul := Nat.mul_le_mul_left 65535 hhalf
    rw [UInt32.toNat_zero, Nat.zero_add]
    omega
  obtain ⟨bufs, cksum, hserialize, -, hparse⟩ := TCPSegment.parse_serialize
    { seg with header := { seg.header with
      sport := a.config.source.port
      dport := a.config.destination.port } } ⟨hfits.header.minimum, hfits.header.maximum⟩
    hroom
  refine ⟨bufs.concatenate, ⟨_, seg, hparse {}, rfl, rfl, _, _, _, rfl⟩, ?_⟩
  unfold write
  dsimp only
  rw [hserialize, Option.map_some]

instance : LawfulFdAdapter TCPOverUDPSocketAdapter where
  Holds T a := ∀ o ∈ a.sent, TCPSegment.ReadsAs T o.2 0
  Carried outs datagram := ∃ o ∈ outs, o.2 = datagram.payload
  Foreign a datagram := (a.accept datagram).2 = none
  holds_mono hST h o ho := (h o ho).mono hST
  holds_setConfig _ _ h := h
  holds_setListening _ h := h
  holds_write {T a seg} h hT hseg := by
    obtain ⟨payload, hreads, hwrite⟩ := a.write_spec hseg
    refine ⟨_, hwrite, fun o ho => ?_⟩
    rcases List.mem_append.mp ho with hold | hnew
    · exact h o hold
    · rw [List.mem_singleton.mp hnew]
      refine hreads.mono fun seg' heq => ?_
      rw [heq]
      exact hT
  holds_read {T a} datagram h := by
    obtain ⟨-, hsent, -⟩ := read_spec (a.read_eq datagram)
    exact ⟨_, _, a.read_eq datagram, fun o ho => h o (by rw [hsent] at ho; exact ho)⟩
  holds_tick _ h := h
  authentic _ h hcarried hread := by
    obtain ⟨o, ho, hpayload⟩ := hcarried
    obtain ⟨-, -, -, -, hparse⟩ := read_spec hread
    have hreads := h o ho
    rw [hpayload] at hreads
    exact hreads.segment (hparse _ rfl)
  foreign_read {T a a' datagram out} _ h hread := by
    obtain ⟨-, -, hout, hsame, -⟩ := read_spec hread
    have hnone := hout.trans h
    refine ⟨hnone, ?_⟩
    rw [hsame hnone]
    refine Eq.trans (accept_congr ?_ ?_) h
    · rfl
    · rfl
  foreign_write {a a' datagram seg} h hwrite := by
    have hwrite : a.write seg = some a' := hwrite
    unfold write at hwrite
    obtain ⟨bufs, -, rfl⟩ := Option.map_eq_some_iff.mp hwrite
    refine Eq.trans (accept_congr ?_ ?_) h
    · rfl
    · rfl
  read_fd _ hread := congrArg FileDescriptor.readCount (read_spec hread).1

end TCPOverUDPSocketAdapter

/-! ### IPv4 datagrams -/

namespace TCPOverIPv4Adapter

/-- What `unwrap_tcp_in_ip` can make of a datagram. -/
inductive Unwraps (a : TCPOverIPv4Adapter) (d : IPv4Datagram) :
    Option (TCPOverIPv4Adapter × Option TCPSegment) → Prop
  | throws (hbuffer : d.payload.toBuffer = none) : Unwraps a d none
  | rejected : Unwraps a d (some (a, none))
  | connected {buffer : Bytes} {seg : TCPSegment} (hlistening : a.listening = false)
      (hdst : d.header.dst = a.config.source.ipv4Numeric)
      (hsrc : d.header.src = a.config.destination.ipv4Numeric)
      (hbuffer : d.payload.toBuffer = some buffer)
      (hparse : ({} : TCPSegment).parse buffer d.header.pseudoCksum = (seg, .noError))
      (hdport : seg.header.dport = a.config.source.port)
      (hsport : seg.header.sport = a.config.destination.port) : Unwraps a d (some (a, some seg))
  | locked {buffer : Bytes} {seg : TCPSegment} (hlistening : a.listening = true)
      (hbuffer : d.payload.toBuffer = some buffer)
      (hparse : ({} : TCPSegment).parse buffer d.header.pseudoCksum = (seg, .noError))
      (hdport : seg.header.dport = a.config.source.port) (hsyn : seg.header.syn = true)
      (hrst : seg.header.rst = false) :
      Unwraps a d (some
        ({ config :=
            { source := ⟨d.header.dst, a.config.source.port⟩
              destination := ⟨d.header.src, seg.header.sport⟩ }
           listening := false }, some seg))

theorem unwrapTcpInIp_unwraps (a : TCPOverIPv4Adapter) (d : IPv4Datagram) :
    Unwraps a d (a.unwrapTcpInIp d) := by
  unfold unwrapTcpInIp
  split
  · exact Unwraps.rejected
  · rename_i hdst
    split
    · exact Unwraps.rejected
    · rename_i hsrc
      split
      · exact Unwraps.rejected
      · rcases hbuffer : d.payload.toBuffer with _ | buffer
        · exact Unwraps.throws hbuffer
        · show Unwraps a d ((some buffer).bind _)
          rw [Option.bind_some]
          rcases hparse : ({} : TCPSegment).parse buffer d.header.pseudoCksum with ⟨seg, result⟩
          dsimp only
          split
          · exact Unwraps.rejected
          · rename_i hresult
            rw [ne_eq, not_not] at hresult
            subst hresult
            split
            · exact Unwraps.rejected
            · rename_i hdport
              rw [ne_eq, not_not] at hdport
              split
              · rename_i hlistening
                split
                · rename_i hsyn
                  rw [Bool.and_eq_true, Bool.not_eq_true'] at hsyn
                  have hpeer : ∀ b : TCPOverIPv4Adapter,
                      seg.header.sport = b.config.destination.port → b.fromPeer seg = some seg :=
                    fun b h => if_neg (not_not.mpr h)
                  rw [hpeer _ rfl]
                  exact Unwraps.locked hlistening hbuffer hparse hdport hsyn.1 hsyn.2
                · exact Unwraps.rejected
              · rename_i hlistening
                rw [Bool.not_eq_true] at hlistening
                simp only [hlistening, Bool.not_false, Bool.true_and, bne_iff_ne, ne_eq,
                  not_not] at hdst hsrc
                show Unwraps a d (some (a, a.fromPeer seg))
                unfold fromPeer
                split
                · exact Unwraps.rejected
                · rename_i hsport
                  rw [ne_eq, not_not] at hsport
                  exact Unwraps.connected hlistening hdst hsrc hbuffer hparse hdport hsport

end TCPOverIPv4Adapter

namespace IPv4Datagram

/-- Its receiver reads a segment of `T` from the datagram. -/
def Carries (T : TCPSegment → Prop) (d : IPv4Datagram) : Prop :=
  ∃ buffer, d.payload.toBuffer = some buffer ∧
    TCPSegment.ReadsAs T buffer d.header.pseudoCksum

/-- What routers may do to a datagram: another time to live, and the checksum that goes with it. -/
def Relayed (d d' : IPv4Datagram) : Prop :=
  d'.payload = d.payload ∧ ∃ ttl cksum, d'.header = { d.header with ttl := ttl, cksum := cksum }

theorem Carries.mono {S T : TCPSegment → Prop} {d : IPv4Datagram} (hST : ∀ seg, S seg → T seg)
    (h : Carries S d) : Carries T d := by
  obtain ⟨buffer, hbuffer, hreads⟩ := h
  exact ⟨buffer, hbuffer, hreads.mono hST⟩

theorem Carries.relayed {T : TCPSegment → Prop} {d d' : IPv4Datagram} (h : Carries T d)
    (hrelayed : Relayed d d') : Carries T d' := by
  obtain ⟨buffer, hbuffer, hreads⟩ := h
  obtain ⟨hpayload, ttl, cksum, hheader⟩ := hrelayed
  refine ⟨buffer, by rw [hpayload]; exact hbuffer, ?_⟩
  rw [hheader]
  exact hreads

/-- The payload of what `parse` returns is one buffer. -/
theorem parse_payload (d : IPv4Datagram) (bytes : Bytes) :
    ∃ buffer, (d.parse bytes).1.payload = [buffer] := by
  unfold parse
  dsimp only
  split <;> exact ⟨_, rfl⟩

/-- So it can be unwrapped, whatever it is. -/
theorem unwrap_parsed (a : TCPOverIPv4Adapter) {bytes : Bytes} {d : IPv4Datagram}
    {result : ParseResult} (h : ({} : IPv4Datagram).parse bytes = (d, result)) :
    ∃ a' out, a.unwrapTcpInIp d = some (a', out) := by
  obtain ⟨buffer, hpayload⟩ := parse_payload {} bytes
  rw [h] at hpayload
  have hunwraps := a.unwrapTcpInIp_unwraps d
  generalize a.unwrapTcpInIp d = r at hunwraps
  cases hunwraps with
  | throws hbuffer =>
      rw [show d.payload = [buffer] from hpayload] at hbuffer
      exact absurd hbuffer (by simp [BufferList.toBuffer])
  | rejected => exact ⟨_, _, rfl⟩
  | connected => exact ⟨_, _, rfl⟩
  | locked => exact ⟨_, _, rfl⟩

/-- What an adapter unwraps is the segment that the datagram carries. -/
theorem Carries.unwrapped {T : TCPSegment → Prop} {d : IPv4Datagram} (h : Carries T d)
    {a a' : TCPOverIPv4Adapter} {out : TCPSegment}
    (hunwrap : a.unwrapTcpInIp d = some (a', some out)) : ∃ seg, T seg ∧ out.Matches seg := by
  obtain ⟨buffer, hbuffer, hreads⟩ := h
  have hunwraps := a.unwrapTcpInIp_unwraps d
  rw [hunwrap] at hunwraps
  cases hunwraps with
  | connected hlistening hdst hsrc hbuffer' hparse hdport hsport =>
      rw [hbuffer, Option.some.injEq] at hbuffer'
      exact hreads.segment (hbuffer' ▸ hparse)
  | locked hlistening hbuffer' hparse hdport hsyn hrst =>
      rw [hbuffer, Option.some.injEq] at hbuffer'
      exact hreads.segment (hbuffer' ▸ hparse)

/-- On the wire the datagram is one that carries a segment of `T`. -/
def Wired (T : TCPSegment → Prop) (d : IPv4Datagram) : Prop :=
  ∃ bufs received, d.serialize = some bufs ∧
    ({} : IPv4Datagram).parse bufs.concatenate = (received, .noError) ∧ Carries T received

theorem Wired.mono {S T : TCPSegment → Prop} {d : IPv4Datagram} (hST : ∀ seg, S seg → T seg)
    (h : Wired S d) : Wired T d := by
  obtain ⟨bufs, received, hserialize, hparse, hcarries⟩ := h
  exact ⟨bufs, received, hserialize, hparse, hcarries.mono hST⟩

/-- What `wrap_tcp_in_ip` makes of a compact segment. -/
theorem wired_of_wrap (a : TCPOverIPv4Adapter) {seg : TCPSegment} (hseg : seg.Compact) :
    ∃ ipDgram, (a.wrapTcpInIp seg).2 = some ipDgram ∧ Wired (· = seg) ipDgram := by
  obtain ⟨ipDgram, bufs, cksum, buffer, hwrap, hserialize, hparse, tcpCksum, hsegment⟩ :=
    TCPOverIPv4Adapter.wrap_parse a seg hseg.fits
  exact ⟨ipDgram, hwrap, bufs, _, hserialize, hparse, buffer, rfl, _, seg, hsegment, rfl, rfl,
    _, _, _, rfl⟩

end IPv4Datagram

/-! ### A TUN device -/

namespace TunTapFD

/-- No packet is too long for `read`. -/
theorem read_spec (d : TunTapFD) (packet : DevicePacket) :
    ∃ fd, d.read packet = .ok ({ d with fd := fd }, packet.bytes) ∧
      fd.readCount = d.fd.readCount + 1 := by
  have hlimit : min FileDescriptor.bufferSize (2 ^ 64 - 1) = FileDescriptor.bufferSize := by decide
  have hsize := not_lt.mpr packet.size_le
  rw [← hlimit] at hsize
  unfold read FileDescriptor.read
  dsimp only
  rw [if_neg hsize]
  refine ⟨_, rfl, ?_⟩
  split <;> rfl

/-- A packet goes to the device as a whole. -/
theorem write_eq (d : TunTapFD) (bufs : BufferList) :
    d.write bufs = { fd := d.fd.registerWrite, written := d.written ++ [bufs.concatenate] } := by
  have hsize : BufferViewList.size bufs = bufs.size := rfl
  obtain ⟨rest, hrest⟩ := Option.ne_none_iff_exists'.mp
    (mt (BufferViewList.removePrefix_eq_none_iff bufs bufs.size).mp (lt_irrefl _))
  have hempty : BufferViewList.size rest = 0 := by
    rw [BufferViewList.size_eq, BufferViewList.removePrefix_bytes hrest, List.length_drop,
      ← BufferViewList.size_eq, hsize, Nat.sub_self]
  have htake : (BufferViewList.bytes bufs).take bufs.size = bufs.concatenate := by
    rw [← hsize, BufferViewList.size_eq, List.take_length]
    rfl
  unfold write FileDescriptor.write
  rw [FileDescriptor.writeLoop, if_neg (by rw [hsize]; exact fun h => h.2 h.1),
    if_neg (by rw [hsize]; exact lt_irrefl _)]
  simp only [hrest, hempty, htake, bne_self_eq_false, Bool.and_false, Bool.false_eq_true, if_false]

end TunTapFD

namespace TCPOverIPv4OverTunFdAdapter

variable {a a' : TCPOverIPv4OverTunFdAdapter} {packet : DevicePacket} {out : Option TCPSegment}

/-- A read counts and writes nothing; what it returns is unwrapped from the packet's datagram. -/
theorem read_spec (a : TCPOverIPv4OverTunFdAdapter) (packet : DevicePacket) :
    ∃ a' out, a.read packet = some (a', out) ∧ a'.tun.written = a.tun.written ∧
      a'.tun.fd.readCount = a.tun.fd.readCount + 1 ∧
      ((out = none ∧ a'.toTCPOverIPv4Adapter = a.toTCPOverIPv4Adapter) ∨
        ∃ d, ({} : IPv4Datagram).parse packet.bytes = (d, .noError) ∧
          a.unwrapTcpInIp d = some (a'.toTCPOverIPv4Adapter, out)) := by
  obtain ⟨fd, hread, hcount⟩ := a.tun.read_spec packet
  unfold read
  rw [hread]
  dsimp only
  split
  · rename_i d hparse
    obtain ⟨base, out, hunwrap⟩ := IPv4Datagram.unwrap_parsed a.toTCPOverIPv4Adapter hparse
    refine ⟨⟨base, { a.tun with fd := fd }⟩, out, ?_, rfl, hcount, Or.inr ⟨d, hparse, hunwrap⟩⟩
    unfold unwrapDatagram
    dsimp only
    rw [hunwrap, Option.map_some]
  · exact ⟨_, none, rfl, rfl, hcount, Or.inl ⟨rfl, rfl⟩⟩

theorem read_inv (h : a.read packet = some (a', out)) :
    a'.tun.written = a.tun.written ∧ a'.tun.fd.readCount = a.tun.fd.readCount + 1 ∧
      ((out = none ∧ a'.toTCPOverIPv4Adapter = a.toTCPOverIPv4Adapter) ∨
        ∃ d, ({} : IPv4Datagram).parse packet.bytes = (d, .noError) ∧
          a.unwrapTcpInIp d = some (a'.toTCPOverIPv4Adapter, out)) := by
  obtain ⟨b, out', hread, hrest⟩ := a.read_spec packet
  rw [h, Option.some.injEq, Prod.mk.injEq] at hread
  rwa [hread.1, hread.2]

/-- The packet is a datagram that carries a segment of `T`. -/
def Wire (T : TCPSegment → Prop) (bytes : Bytes) : Prop :=
  ∀ d, ({} : IPv4Datagram).parse bytes = (d, .noError) → d.Carries T

theorem write_spec (a : TCPOverIPv4OverTunFdAdapter) {seg : TCPSegment} (hseg : seg.Compact) :
    ∃ bytes, Wire (· = seg) bytes ∧ a.write seg = some { a with
      tun := { fd := a.tun.fd.registerWrite, written := a.tun.written ++ [bytes] } } := by
  obtain ⟨ipDgram, hwrap, bufs, received, hserialize, hparse, hcarries⟩ :=
    IPv4Datagram.wired_of_wrap a.toTCPOverIPv4Adapter hseg
  refine ⟨bufs.concatenate, fun d hd => ?_, ?_⟩
  · rw [hparse, Prod.mk.injEq] at hd
    exact hd.1 ▸ hcarries
  · unfold write
    rw [hwrap]
    show ipDgram.serialize.bind _ = _
    rw [hserialize, Option.bind_some, TunTapFD.write_eq]
    rfl

instance : LawfulFdAdapter TCPOverIPv4OverTunFdAdapter where
  Holds T a := ∀ o ∈ a.tun.written, Wire T o
  Carried outs packet := ∃ o ∈ outs, ∀ received,
    ({} : IPv4Datagram).parse packet.bytes = (received, .noError) →
      ∃ sent, ({} : IPv4Datagram).parse o = (sent, .noError) ∧ sent.Relayed received
  Foreign a packet := ∀ d, ({} : IPv4Datagram).parse packet.bytes = (d, .noError) →
    a.unwrapTcpInIp d = some (a.toTCPOverIPv4Adapter, none)
  holds_mono hST h o ho d hd := (h o ho d hd).mono hST
  holds_setConfig _ _ h := h
  holds_setListening _ h := h
  holds_write {T a seg} h hT hseg := by
    obtain ⟨bytes, hwire, hwrite⟩ := a.write_spec hseg
    refine ⟨_, hwrite, fun o ho => ?_⟩
    rcases List.mem_append.mp ho with hold | hnew
    · exact h o hold
    · rw [List.mem_singleton.mp hnew]
      refine fun d hd => (hwire d hd).mono fun seg' heq => ?_
      rw [heq]
      exact hT
  holds_read {T a} packet h := by
    obtain ⟨a', out, hread, hwritten, -⟩ := a.read_spec packet
    exact ⟨a', out, hread, fun o ho => h o (hwritten ▸ ho)⟩
  holds_tick _ h := h
  authentic _ h hcarried hread := by
    obtain ⟨o, ho, hcarried⟩ := hcarried
    obtain ⟨-, -, ⟨hnone, -⟩ | ⟨received, hparse, hunwrap⟩⟩ := read_inv hread
    · exact absurd hnone (by simp)
    · obtain ⟨sent, hsent, hrelayed⟩ := hcarried received hparse
      exact ((h o ho sent hsent).relayed hrelayed).unwrapped hunwrap
  foreign_read {T a a' packet out} _ h hread := by
    obtain ⟨-, -, ⟨hnone, hbase⟩ | ⟨received, hparse, hunwrap⟩⟩ := read_inv hread
    · exact ⟨hnone, by rw [hbase]; exact h⟩
    · rw [h received hparse, Option.some.injEq, Prod.mk.injEq] at hunwrap
      exact ⟨hunwrap.2.symm, by rw [← hunwrap.1]; exact h⟩
  foreign_write {a a' packet seg} h hwrite := by
    have hbase : a'.toTCPOverIPv4Adapter = a.toTCPOverIPv4Adapter := by
      have hwrite : a.write seg = some a' := hwrite
      unfold write at hwrite
      obtain ⟨ipDgram, -, hwrite⟩ := Option.bind_eq_some_iff.mp hwrite
      obtain ⟨bufs, -, hwrite⟩ := Option.bind_eq_some_iff.mp hwrite
      rw [← Option.some.inj hwrite]
    show ∀ d, _ → a'.unwrapTcpInIp d = some (a'.toTCPOverIPv4Adapter, none)
    rw [hbase]
    exact h
  read_fd _ hread := (read_inv hread).2.1

end TCPOverIPv4OverTunFdAdapter

/-! ### Ethernet frames -/

/-- The datagram in an IPv4 frame. -/
def EthernetFrame.datagram? (frame : EthernetFrame) : Option IPv4Datagram :=
  if frame.header.type == EthernetHeader.typeIPv4 then
    match BufferList.toBuffer frame.payload with
    | none => none
    | some buffer =>
        match ({} : IPv4Datagram).parse buffer with
        | (d, .noError) => some d
        | _ => none
  else none

namespace EthernetFrame

/-- Every packet is accepted as a frame, with its payload in one buffer. -/
theorem parse_payload (frame : EthernetFrame) (bytes : Bytes) :
    ∃ header buffer, frame.parse bytes = (⟨header, [buffer]⟩, .noError) := by
  rcases Nat.lt_or_ge bytes.length EthernetHeader.length with hshort | hlong
  · exact ⟨_, _, frame.parse_short hshort⟩
  · have hresult := (frame.serialize_parse hlong).2
    unfold parse at hresult ⊢
    dsimp only at hresult ⊢
    exact ⟨_, _, by rw [hresult]⟩

theorem datagram?_spec {frame : EthernetFrame} {d : IPv4Datagram} (h : frame.datagram? = some d) :
    ∃ buffer, ({} : IPv4Datagram).parse buffer = (d, .noError) := by
  unfold datagram? at h
  split at h
  · split at h
    · cases h
    · rename_i buffer hbuffer
      split at h
      · rename_i d' hparse
        cases h
        exact ⟨buffer, hparse⟩
      · cases h
  · cases h

end EthernetFrame

namespace NetworkInterface

variable {i : NetworkInterface}

/-- Everything that waits carries a segment of `T`. -/
def Holds (T : TCPSegment → Prop) (i : NetworkInterface) : Prop :=
  ∀ g ∈ i.queued, IPv4Datagram.Wired T g.2

theorem Holds.serializable {T : TCPSegment → Prop} (h : i.Holds T) : i.Serializable := by
  intro ip dgram hd
  have hmem : (ip, dgram) ∈ i.queued :=
    (i.queued_split ip).mem_iff.mpr (List.mem_append_left _ (List.mem_map_of_mem hd))
  obtain ⟨bufs, -, hserialize, -⟩ := h _ hmem
  rw [hserialize, Option.isSome_some]

/-- Nothing that waits makes the interface throw. -/
theorem recvArp_not_threw (h : i.Serializable) (m : ARPMessage) : (i.recvArp m).2 = false := by
  unfold recvArp
  dsimp only
  split
  · rfl
  · split
    · unfold flushPending
      split
      · rfl
      · rename_i queue hqueue
        have hpending : i.pending m.senderIpAddress = queue := by
          rw [pending]
          exact congrArg (Option.getD · []) hqueue
        have hleft := (serializeQueue_of_serializable (hpending ▸ h m.senderIpAddress)).1
        dsimp only
        rw [hleft, if_pos List.isEmpty_nil]
    · rfl

/-- What `recv_frame` returns for a frame with one buffer. -/
theorem recvFrame_outcome (h : i.Serializable) (header : EthernetHeader) (buffer : Bytes) :
    (i.recvFrame ⟨header, [buffer]⟩).2 =
      if i.accepts ⟨header, [buffer]⟩ then
        (EthernetFrame.datagram? ⟨header, [buffer]⟩).elim .empty .datagram
      else .empty := by
  unfold recvFrame EthernetFrame.datagram?
  by_cases hours : i.accepts ⟨header, [buffer]⟩ = true
  · rw [if_neg (by simp [hours]), if_pos hours]
    dsimp only [BufferList.toBuffer]
    by_cases htype : (header.type == EthernetHeader.typeIPv4) = true
    · rw [if_pos htype, if_pos htype]
      generalize ({} : IPv4Datagram).parse buffer = r
      obtain ⟨d, result⟩ := r
      cases result <;> rfl
    · rw [if_neg htype, if_neg htype]
      split
      · split
        · rename_i m hparse
          dsimp only
          rw [recvArp_not_threw h m]
          rfl
        · rfl
      · rfl
  · rw [if_pos (by simp [hours]), if_neg hours]

/-- A call with such datagrams leaves such datagrams waiting, and its IPv4 frames carry them. -/
theorem Holds.step {T : TCPSegment → Prop} (h : i.Holds T) {op : Op}
    (hgiven : ∀ g ∈ op.given, IPv4Datagram.Wired T g.2) (hdrained : i.framesOut = []) :
    (i.step op).Holds T ∧ ∀ frame ∈ (i.step op).framesOut,
      frame.header.type = EthernetHeader.typeIPv4 →
        ∃ d, IPv4Datagram.Wired T d ∧ d.serialize = some frame.payload := by
  have hserial : op.Serializable := fun g hg => by
    obtain ⟨bufs, -, hserialize, -⟩ := hgiven g hg
    rw [hserialize, Option.isSome_some]
  obtain ⟨frames, sent, hsends, hperm⟩ := step_conserves h.serializable hserial
  have hall : ∀ g ∈ sent ++ (i.step op).queued, IPv4Datagram.Wired T g.2 := by
    intro g hg
    rcases List.mem_append.mp (hperm.mem_iff.mpr hg) with hold | hnew
    · exact h g hold
    · exact hgiven g hnew
  refine ⟨fun g hg => hall g (List.mem_append_right _ hg), fun frame hframe htype => ?_⟩
  have hnone : i.ipv4Frames = [] := by rw [ipv4Frames, hdrained, List.filter_nil]
  have hmem : frame ∈ frames := by
    have hin : frame ∈ (i.step op).ipv4Frames := List.mem_filter.mpr ⟨hframe, by simp [htype]⟩
    rwa [hsends.ipv4Frames, hnone, List.nil_append] at hin
  obtain ⟨n, hn, rfl⟩ := List.getElem_of_mem hmem
  have hlength := hsends.carries.length_eq
  have hcarried := (List.forall₂_iff_get.mp hsends.carries).2 n hn (hlength ▸ hn)
  exact ⟨_, hall _ (List.mem_append_left _ (List.getElem_mem (hlength ▸ hn))), hcarried.2⟩

end NetworkInterface

namespace TCPOverIPv4OverEthernetAdapter

variable {a a' : TCPOverIPv4OverEthernetAdapter} {packet : DevicePacket} {out : Option TCPSegment}

/-- `send_pending` writes the frames in order and leaves none. -/
theorem sendPending_eq (a : TCPOverIPv4OverEthernetAdapter) :
    ∃ tap : TunTapFD, a.sendPending =
        { a with tap := tap, interface := { a.interface with framesOut := [] } } ∧
      tap.written =
        a.tap.written ++ a.interface.framesOut.map (fun frame => frame.serialize.concatenate) ∧
      tap.fd.readCount = a.tap.fd.readCount := by
  refine ⟨_, rfl, ?_⟩
  generalize a.interface.framesOut = frames
  generalize a.tap = tap
  induction frames generalizing tap with
  | nil => exact ⟨by rw [List.map_nil, List.append_nil]; rfl, rfl⟩
  | cons frame frames ih =>
      obtain ⟨hwritten, hcount⟩ := ih (tap.write frame.serialize)
      rw [List.foldl_cons]
      refine ⟨hwritten.trans ?_, hcount.trans ?_⟩
      · rw [TunTapFD.write_eq, List.map_cons, List.append_assoc]
        rfl
      · rw [TunTapFD.write_eq]
        rfl

/-- If the packet is an IPv4 frame with a datagram, it carries a segment of `T`. -/
def Wire (T : TCPSegment → Prop) (bytes : Bytes) : Prop :=
  ∀ d, (EthernetFrame.zero.parse bytes).1.datagram? = some d → d.Carries T

/-- A frame with a datagram from the wire. -/
theorem wire_of_wired {T : TCPSegment → Prop} {frame : EthernetFrame}
    (h : frame.header.type = EthernetHeader.typeIPv4 →
      ∃ d, IPv4Datagram.Wired T d ∧ d.serialize = some frame.payload) :
    Wire T frame.serialize.concatenate := by
  intro d hd
  rw [EthernetFrame.parse_serialize] at hd
  unfold EthernetFrame.datagram? at hd
  dsimp only [BufferList.toBuffer] at hd
  split at hd
  · rename_i htype
    obtain ⟨dgram, ⟨bufs, received, hserialize, hparse, hcarries⟩, hpayload⟩ :=
      h (beq_iff_eq.mp htype)
    rw [hserialize, Option.some.injEq] at hpayload
    rw [← hpayload, hparse] at hd
    exact Option.some.inj hd ▸ hcarries
  · cases hd

/-- Everything written, and everything that waits for an address, carries a segment of `T`. -/
structure Holds (T : TCPSegment → Prop) (a : TCPOverIPv4OverEthernetAdapter) : Prop where
  written : ∀ o ∈ a.tap.written, Wire T o
  waiting : a.interface.Holds T
  drained : a.interface.framesOut = []

/-- A call of the interface, and then `send_pending`. -/
theorem Holds.call {T : TCPSegment → Prop} (h : a.Holds T) (op : NetworkInterface.Op)
    (hgiven : ∀ g ∈ op.given, IPv4Datagram.Wired T g.2) {tap : TunTapFD}
    (htap : tap.written = a.tap.written) :
    { a with tap := tap, interface := a.interface.step op }.sendPending.Holds T := by
  obtain ⟨hwaiting, hframes⟩ := h.waiting.step hgiven h.drained
  obtain ⟨tap', heq, hwritten, -⟩ :=
    sendPending_eq { a with tap := tap, interface := a.interface.step op }
  rw [heq]
  refine ⟨fun o ho => ?_, hwaiting, rfl⟩
  rw [hwritten] at ho
  rcases List.mem_append.mp ho with hold | hnew
  · exact h.written o (htap ▸ hold)
  · obtain ⟨frame, hframe, rfl⟩ := List.mem_map.mp hnew
    exact wire_of_wired (hframes frame hframe)

/-- What an adapter read, counted and handed to its interface; the segment is unwrapped from the
datagram in the frame, if the frame is for the interface. -/
theorem read_spec (h : a.interface.Serializable) (packet : DevicePacket) :
    ∃ (tap : TunTapFD) (base : TCPOverIPv4Adapter) (out : Option TCPSegment),
      tap.written = a.tap.written ∧ tap.fd.readCount = a.tap.fd.readCount + 1 ∧
      a.read packet = some
        ({ { a with
              tap := tap
              interface := a.interface.step (.recvFrame (EthernetFrame.zero.parse packet.bytes).1)
            }.sendPending with toTCPOverIPv4Adapter := base }, out) ∧
      ((out = none ∧ base = a.toTCPOverIPv4Adapter) ∨
        ∃ d, (EthernetFrame.zero.parse packet.bytes).1.datagram? = some d ∧
          a.interface.accepts (EthernetFrame.zero.parse packet.bytes).1 = true ∧
          a.unwrapTcpInIp d = some (base, out)) := by
  obtain ⟨fd, hread, hcount⟩ := a.tap.read_spec packet
  obtain ⟨header, buffer, hparse⟩ := EthernetFrame.zero.parse_payload packet.bytes
  have houtcome := NetworkInterface.recvFrame_outcome h header buffer
  refine ⟨{ a.tap with fd := fd }, ?_⟩
  unfold read
  rw [hread]
  dsimp only
  rw [hparse]
  dsimp only
  rw [houtcome]
  by_cases hours : a.interface.accepts ⟨header, [buffer]⟩ = true
  · rw [if_pos hours]
    rcases hdatagram : EthernetFrame.datagram? ⟨header, [buffer]⟩ with _ | d
    · exact ⟨a.toTCPOverIPv4Adapter, none, rfl, hcount, rfl, Or.inl ⟨rfl, rfl⟩⟩
    · obtain ⟨bytes, hbytes⟩ := EthernetFrame.datagram?_spec hdatagram
      obtain ⟨base, out, hunwrap⟩ := IPv4Datagram.unwrap_parsed a.toTCPOverIPv4Adapter hbytes
      refine ⟨base, out, rfl, hcount, ?_, Or.inr ⟨d, rfl, hours, hunwrap⟩⟩
      dsimp only [Option.elim_some]
      unfold unwrapDatagram
      show (a.unwrapTcpInIp d).map _ = _
      rw [hunwrap, Option.map_some]
      rfl
  · rw [if_neg hours]
    exact ⟨a.toTCPOverIPv4Adapter, none, rfl, hcount, rfl, Or.inl ⟨rfl, rfl⟩⟩

theorem read_inv (h : a.interface.Serializable) (hread : a.read packet = some (a', out)) :
    a'.tap.fd.readCount = a.tap.fd.readCount + 1 ∧
      a'.interface.ethernetAddress = a.interface.ethernetAddress ∧
      ((out = none ∧ a'.toTCPOverIPv4Adapter = a.toTCPOverIPv4Adapter) ∨
        ∃ d, (EthernetFrame.zero.parse packet.bytes).1.datagram? = some d ∧
          a.interface.accepts (EthernetFrame.zero.parse packet.bytes).1 = true ∧
          a.unwrapTcpInIp d = some (a'.toTCPOverIPv4Adapter, out)) := by
  obtain ⟨tap, base, out', -, hcount, hread', hcases⟩ := read_spec h packet
  rw [hread, Option.some.injEq, Prod.mk.injEq] at hread'
  obtain ⟨rfl, rfl⟩ := hread'
  obtain ⟨tap', heq, -, hcount'⟩ := sendPending_eq { a with
    tap := tap
    interface := a.interface.step (.recvFrame (EthernetFrame.zero.parse packet.bytes).1) }
  refine ⟨?_, InterfaceLog.step_ethernetAddress _ _, hcases⟩
  rw [heq]
  exact hcount'.trans hcount

theorem accepts_congr {i i' : NetworkInterface} (h : i'.ethernetAddress = i.ethernetAddress)
    (frame : EthernetFrame) : i'.accepts frame = true ↔ i.accepts frame = true := by
  unfold NetworkInterface.accepts
  rw [h]

theorem write_frame {seg : TCPSegment} (h : a.write seg = some a') :
    a'.toTCPOverIPv4Adapter = a.toTCPOverIPv4Adapter ∧
      a'.interface.ethernetAddress = a.interface.ethernetAddress := by
  unfold write at h
  obtain ⟨ipDgram, -, h⟩ := Option.bind_eq_some_iff.mp h
  have haddress := InterfaceLog.step_ethernetAddress a.interface (.sendDatagram ipDgram a.nextHop)
  dsimp only at h
  split at h
  · cases h
  · cases h
    exact ⟨rfl, haddress⟩

/-- A compact segment goes to the interface. -/
theorem write_spec (a : TCPOverIPv4OverEthernetAdapter) {seg : TCPSegment} (hseg : seg.Compact) :
    ∃ ipDgram, IPv4Datagram.Wired (· = seg) ipDgram ∧ a.write seg = some
      { a with interface := a.interface.step (.sendDatagram ipDgram a.nextHop) }.sendPending := by
  obtain ⟨ipDgram, hwrap, hwired⟩ := IPv4Datagram.wired_of_wrap a.toTCPOverIPv4Adapter hseg
  refine ⟨ipDgram, hwired, ?_⟩
  obtain ⟨bufs, -, hserialize, -⟩ := hwired
  have hthrew : (a.interface.sendDatagram ipDgram a.nextHop).2 = false := by
    unfold NetworkInterface.sendDatagram
    split
    · rw [hserialize]
    · rfl
  unfold write
  rw [hwrap]
  show (if (a.interface.sendDatagram ipDgram a.nextHop).2 = true then _ else _) = _
  rw [hthrew]
  rfl

instance : LawfulFdAdapter TCPOverIPv4OverEthernetAdapter where
  Holds := Holds
  Carried outs packet := ∃ o ∈ outs, ∀ received,
    (EthernetFrame.zero.parse packet.bytes).1.datagram? = some received →
      ∃ sent, (EthernetFrame.zero.parse o).1.datagram? = some sent ∧ sent.Relayed received
  Foreign a packet := ∀ d, (EthernetFrame.zero.parse packet.bytes).1.datagram? = some d →
    a.interface.accepts (EthernetFrame.zero.parse packet.bytes).1 = true →
      a.unwrapTcpInIp d = some (a.toTCPOverIPv4Adapter, none)
  holds_mono hST h :=
    ⟨fun o ho d hd => (h.written o ho d hd).mono hST, fun g hg => (h.waiting g hg).mono hST,
      h.drained⟩
  holds_setConfig _ _ h := ⟨h.written, h.waiting, h.drained⟩
  holds_setListening _ h := ⟨h.written, h.waiting, h.drained⟩
  holds_write {T a seg} h hT hseg := by
    obtain ⟨ipDgram, hwired, hwrite⟩ := a.write_spec hseg
    refine ⟨_, hwrite, h.call _ (fun g hg => ?_) rfl⟩
    rw [List.mem_singleton.mp hg]
    refine hwired.mono fun seg' heq => ?_
    rw [heq]
    exact hT
  holds_read {T a} packet h := by
    obtain ⟨tap, base, out, htap, -, hread, -⟩ := read_spec h.waiting.serializable packet
    have hcall := h.call (.recvFrame (EthernetFrame.zero.parse packet.bytes).1)
      (fun g hg => absurd hg List.not_mem_nil) htap
    exact ⟨_, out, hread, hcall.written, hcall.waiting, hcall.drained⟩
  holds_tick {T a} ms h := h.call (.tick ms) (fun g hg => absurd hg List.not_mem_nil) rfl
  authentic {S T a b a' packet out} ha h hcarried hread := by
    obtain ⟨o, ho, hcarried⟩ := hcarried
    obtain ⟨-, -, hcases⟩ := read_inv ha.waiting.serializable hread
    rcases hcases with ⟨hnone, -⟩ | ⟨received, hreceived, -, hunwrap⟩
    · exact absurd hnone (by simp)
    · obtain ⟨sent, hsent, hrelayed⟩ := hcarried received hreceived
      exact ((h.written o ho sent hsent).relayed hrelayed).unwrapped hunwrap
  foreign_read {T a a' packet out} ha h hread := by
    obtain ⟨-, haddress, hcases⟩ := read_inv ha.waiting.serializable hread
    rcases hcases with ⟨hnone, hbase⟩ | ⟨received, hreceived, hours, hunwrap⟩
    · refine ⟨hnone, fun d hd hours => ?_⟩
      rw [hbase]
      exact h d hd ((accepts_congr haddress _).mp hours)
    · rw [h received hreceived hours, Option.some.injEq, Prod.mk.injEq] at hunwrap
      refine ⟨hunwrap.2.symm, fun d hd hours => ?_⟩
      rw [← hunwrap.1]
      exact h d hd ((accepts_congr haddress _).mp hours)
  foreign_write {a a' packet seg} h hwrite := by
    obtain ⟨hbase, haddress⟩ := write_frame hwrite
    intro d hd hours
    rw [hbase]
    exact h d hd ((accepts_congr haddress _).mp hours)
  read_fd h hread := (read_inv h.waiting.serializable hread).1

end TCPOverIPv4OverEthernetAdapter

/-! ### Loss -/

namespace LossyFdAdapter

variable {α δ ω : Type} [FdAdapter α δ ω]

theorem shouldDrop_adapter (a : LossyFdAdapter α) (uplink : Bool) :
    (a.shouldDrop uplink).2.adapter = a.adapter := by
  unfold shouldDrop
  dsimp only
  generalize (if uplink = true then a.rates.lossRateUp else a.rates.lossRateDn) = loss
  split <;> rfl

/-- The adapter inside has read the datagram; the segment may be dropped. -/
theorem read_spec {a a' : LossyFdAdapter α} {datagram : δ} {out : Option TCPSegment}
    (h : read a datagram = some (a', out)) :
    ∃ ret, FdAdapter.read a.adapter datagram = some (a'.adapter, ret) ∧
      (out = none ∨ out = ret) := by
  obtain ⟨⟨adapter, ret⟩, hread, heq⟩ := Option.map_eq_some_iff.mp h
  rw [Prod.mk.injEq] at heq
  refine ⟨ret, ?_, ?_⟩
  · rw [hread, ← heq.1, shouldDrop_adapter]
  · rw [← heq.2]
    split
    · exact Or.inl rfl
    · exact Or.inr rfl

/-- What the adapter inside can do, the lossy one can do. -/
theorem read_of_inner {a : LossyFdAdapter α} {datagram : δ} {adapter : α}
    {ret : Option TCPSegment} (h : FdAdapter.read a.adapter datagram = some (adapter, ret)) :
    ∃ a' out, read a datagram = some (a', out) ∧ a'.adapter = adapter := by
  unfold read
  rw [h, Option.map_some]
  exact ⟨_, _, rfl, shouldDrop_adapter _ _⟩

/-- A write is dropped or made by the adapter inside. -/
theorem write_spec (a : LossyFdAdapter α) (seg : TCPSegment) :
    (∃ a', write a seg = some a' ∧ a'.adapter = a.adapter) ∨
      ∃ b : LossyFdAdapter α, write a seg =
        (FdAdapter.write a.adapter seg).map fun adapter => { b with adapter := adapter } := by
  have hadapter := a.shouldDrop_adapter true
  unfold write
  generalize a.shouldDrop true = r at hadapter
  obtain ⟨drop, b⟩ := r
  dsimp only at hadapter ⊢
  split
  · exact Or.inl ⟨b, rfl, hadapter⟩
  · exact Or.inr ⟨b, by rw [hadapter]⟩

instance [LawfulFdAdapter α] : LawfulFdAdapter (LossyFdAdapter α) where
  Holds T a := LawfulFdAdapter.Holds T a.adapter
  Carried outs datagram := LawfulFdAdapter.Carried α outs datagram
  Foreign a datagram := LawfulFdAdapter.Foreign a.adapter datagram
  holds_mono hST h := LawfulFdAdapter.holds_mono hST h
  holds_setConfig config rates h := LawfulFdAdapter.holds_setConfig config rates h
  holds_setListening listening h := LawfulFdAdapter.holds_setListening listening h
  holds_write {T a seg} h hT hseg := by
    rcases a.write_spec seg with ⟨a', hwrite, hadapter⟩ | ⟨b, hwrite⟩
    · exact ⟨a', hwrite, by rw [hadapter]; exact h⟩
    · obtain ⟨adapter, hinner, hholds⟩ := LawfulFdAdapter.holds_write h hT hseg
      rw [hinner, Option.map_some] at hwrite
      exact ⟨_, hwrite, hholds⟩
  holds_read {T a} datagram h := by
    obtain ⟨adapter, ret, hread, hholds⟩ := LawfulFdAdapter.holds_read datagram h
    obtain ⟨a', out, hread', hadapter⟩ := read_of_inner hread
    exact ⟨a', out, hread', by rw [hadapter]; exact hholds⟩
  holds_tick ms h := LawfulFdAdapter.holds_tick ms h
  authentic ha hb hcarried hread := by
    obtain ⟨ret, hinner, hout⟩ := read_spec hread
    rcases hout with hnone | hsome
    · exact absurd hnone (by simp)
    · exact LawfulFdAdapter.authentic ha hb hcarried (hsome ▸ hinner)
  foreign_read ha h hread := by
    obtain ⟨ret, hinner, hout⟩ := read_spec hread
    obtain ⟨hnone, hforeign⟩ := LawfulFdAdapter.foreign_read ha h hinner
    exact ⟨hout.elim id fun hsame => hsame.trans hnone, hforeign⟩
  foreign_write {a a' datagram seg} h hwrite := by
    have hwrite : write a seg = some a' := hwrite
    rcases a.write_spec seg with ⟨b, hdropped, hadapter⟩ | ⟨b, hwritten⟩
    · rw [hdropped, Option.some.injEq] at hwrite
      rw [← hwrite, hadapter]
      exact h
    · rw [hwritten] at hwrite
      obtain ⟨adapter, hinner, rfl⟩ := Option.map_eq_some_iff.mp hwrite
      exact LawfulFdAdapter.foreign_write h hinner
  read_fd {T a a' datagram out} ha hread := by
    obtain ⟨ret, hinner, -⟩ := read_spec hread
    have hinside : LawfulFdAdapter.Holds T a.adapter := ha
    have hcount := LawfulFdAdapter.read_fd hinside hinner
    exact hcount

end LossyFdAdapter

end CourseNet
