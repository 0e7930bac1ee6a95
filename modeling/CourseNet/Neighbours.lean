import CourseNet.Internetwork

/-!
# What an interface learns from its segment

Every interface names itself in its ARP messages, so on a segment where interfaces are all there is
an interface learns nothing but the truth: every mapping it hears of is that of a neighbour, and a
frame it emits for a next hop is addressed to a neighbour with that IP address.
-/

namespace CourseNet

/-- The frame carries this ARP message. -/
structure EthernetFrame.CarriesARP (frame : EthernetFrame) (m : ARPMessage) : Prop where
  type : frame.header.type = EthernetHeader.typeARP
  payload : frame.payload = [m.toBytes]
  supported : m.supported = true

namespace NetworkInterface

variable {i : NetworkInterface} {frame : EthernetFrame} {m : ARPMessage}

theorem carriesARP_arpFrame (i : NetworkInterface) (dst : EthernetAddress)
    (h : m.supported = true) : (i.arpFrame dst m).CarriesARP m := ⟨rfl, rfl, h⟩

/-- The message is read, by an interface that the frame is for. -/
theorem arpMessage?_of_carriesARP (h : frame.CarriesARP m) (i : NetworkInterface) :
    i.arpMessage? frame.concatenated = if i.accepts frame then some m else none := by
  have hbytes : frame.payload.concatenate = m.toBytes := by
    rw [h.payload]
    exact List.append_nil _
  have htype : (frame.header.type == EthernetHeader.typeARP) = true := beq_iff_eq.mpr h.type
  have haccepts : i.accepts frame.concatenated = i.accepts frame := rfl
  unfold arpMessage?
  rw [haccepts, show frame.concatenated.header.type = frame.header.type from rfl, htype,
    Bool.and_true]
  unfold EthernetFrame.concatenated
  dsimp only [BufferList.toBuffer]
  rw [hbytes, ARPMessage.parse_toBytes _ _ h.supported]

/-- There is none in an IPv4 frame. -/
theorem arpMessage?_of_ipv4 (h : frame.header.type = EthernetHeader.typeIPv4)
    (i : NetworkInterface) : i.arpMessage? frame.concatenated = none := by
  refine if_neg ?_
  show ¬(i.accepts frame && frame.header.type == EthernetHeader.typeARP) = true
  rw [h, show (EthernetHeader.typeIPv4 == EthernetHeader.typeARP) = false by decide,
    Bool.and_false]
  exact Bool.false_ne_true

/-- A message from the interface itself. -/
def Own (i : NetworkInterface) (m : ARPMessage) : Prop :=
  m.senderIpAddress = i.ipAddress ∧ m.senderEthernetAddress = i.ethernetAddress

/-- A call appends IPv4 frames and ARP messages of our own. -/
theorem step_frames (i : NetworkInterface) (op : Op) :
    ∃ frames, (i.step op).framesOut = i.framesOut ++ frames ∧ ∀ frame ∈ frames,
      frame.header.type = EthernetHeader.typeIPv4 ∨ ∃ m, frame.CarriesARP m ∧ i.Own m := by
  have hone : ∀ {frame : EthernetFrame} {P : EthernetFrame → Prop}, P frame →
      ∀ frame' ∈ [frame], P frame' := fun hP frame' h => List.mem_singleton.mp h ▸ hP
  have hquiet : ∀ {P : EthernetFrame → Prop}, ∃ frames, i.framesOut = i.framesOut ++ frames ∧
      ∀ frame ∈ frames, P frame :=
    ⟨[], (List.append_nil _).symm, fun _ h => absurd h List.not_mem_nil⟩
  have heffect := i.step_effect op
  generalize i.step op = i' at heffect
  cases heffect with
  | @immediate dgram hop dst time payload hcache hpayload =>
      exact ⟨[i.ipv4Frame dst payload], rfl, hone (Or.inl rfl)⟩
  | refused hcache hthrows => exact hquiet
  | @waits dgram hop hcache =>
      unfold requestAddress
      split
      · exact hquiet
      · exact ⟨[i.arpFrame ethernetBroadcast (i.arpRequest hop)], rfl,
          hone (Or.inr ⟨_, i.carriesARP_arpFrame _ rfl, rfl, rfl⟩)⟩
  | ignored harp => exact hquiet
  | @request frame m harp hopcode =>
      unfold answer
      split
      · exact ⟨[i.arpFrame m.senderEthernetAddress (i.arpReply m)], rfl,
          hone (Or.inr ⟨_, i.carriesARP_arpFrame _ rfl, rfl, rfl⟩)⟩
      · exact hquiet
  | @reply frame m harp hopcode =>
      obtain ⟨payloads, hframes⟩ := i.acceptReply_framesOut m
      refine ⟨_, hframes, fun frame' hmem => Or.inl ?_⟩
      obtain ⟨payload, -, rfl⟩ := List.mem_map.mp hmem
      rfl
  | tick ms => exact hquiet

theorem step_ipAddress (i : NetworkInterface) (op : Op) : (i.step op).ipAddress = i.ipAddress := by
  have heffect := i.step_effect op
  generalize i.step op = i' at heffect
  cases heffect with
  | immediate | refused | ignored | tick => rfl
  | waits hcache =>
      unfold requestAddress
      split <;> rfl
  | request harp hopcode =>
      unfold answer
      split <;> rfl
  | reply harp hopcode =>
      unfold acceptReply flushPending
      split
      · rfl
      · dsimp only
        split <;> rfl

end NetworkInterface

/-- The next hop of an emission is resolved when it is noted. -/
theorem InterfaceLog.resolved_of_mem {l : InterfaceLog} {op : NetworkInterface.Op} {e : Emission}
    (h : e ∈ l.emitted op) : e.resolved = (l.called op).resolve e.nextHop := by
  unfold emitted at h
  split at h
  · exact absurd h List.not_mem_nil
  · obtain ⟨frame, -, rfl⟩ := List.mem_map.mp h
    rfl

variable {ρ η : Type}

namespace Topology

variable (t : Topology ρ η)

/-- The mapping is that of a neighbour. -/
def Neighbour (p : Port ρ η) (ip : UInt32) (address : EthernetAddress) : Prop :=
  ∃ q, t.Hears q p ∧ ip = t.ipAddress q ∧ address = t.ethernetAddress q

variable {t}

/-- A neighbour is known by its Ethernet address. -/
theorem Neighbour.of_hears {p q : Port ρ η} {ip : UInt32}
    (h : t.Neighbour p ip (t.ethernetAddress q)) (hhears : t.Hears p q) : ip = t.ipAddress q := by
  obtain ⟨q', ⟨hsegment, -⟩, rfl, haddress⟩ := h
  rw [t.distinct q q' (hhears.1.symm.trans hsegment.symm) haddress]

theorem Neighbour.not_broadcast {p : Port ρ η} {ip : UInt32} {address : EthernetAddress}
    (h : t.Neighbour p ip address) : address ≠ ethernetBroadcast := by
  obtain ⟨q, -, -, rfl⟩ := h
  exact t.not_broadcast q

end Topology

/-- The history of the interface at `p`: what it heard, and so what it emitted, is true. -/
structure Truthful (t : Topology ρ η) (p : Port ρ η) (l : InterfaceLog) : Prop where
  conserved : l.Conserved
  ethernetAddress : l.iface.ethernetAddress = t.ethernetAddress p
  ipAddress : l.iface.ipAddress = t.ipAddress p
  arps : ∀ m ∈ l.arps, t.Neighbour p m.senderIpAddress m.senderEthernetAddress
  emissions : ∀ e ∈ l.emissions, t.Neighbour p e.nextHop e.frame.header.dst
  frames : ∀ frame ∈ l.iface.framesOut, frame.header.type = EthernetHeader.typeIPv4 ∨
    ∃ m, frame.CarriesARP m ∧ l.iface.Own m

namespace Truthful

variable {t : Topology ρ η} {p q : Port ρ η} {l : InterfaceLog} {frame : EthernetFrame}

theorem new (t : Topology ρ η) (p : Port ρ η) :
    Truthful t p (InterfaceLog.new (t.ethernetAddress p) (t.ipAddress p)) where
  conserved := InterfaceLog.Conserved.new _ _
  ethernetAddress := rfl
  ipAddress := rfl
  arps := fun _ h => absurd h List.not_mem_nil
  emissions := fun _ h => absurd h List.not_mem_nil
  frames := fun _ h => absurd h List.not_mem_nil

/-- An address that was heard of is that of a neighbour. -/
theorem neighbour_of_resolve {arps : List ARPMessage} {ip : UInt32} {address : EthernetAddress}
    (harps : ∀ m ∈ arps, t.Neighbour p m.senderIpAddress m.senderEthernetAddress)
    (h : (arps.find? fun m => m.senderIpAddress == ip).map (·.senderEthernetAddress) =
      some address) : t.Neighbour p ip address := by
  obtain ⟨m, hfind, rfl⟩ := Option.map_eq_some_iff.mp h
  have hip : m.senderIpAddress = ip := by simpa using List.find?_some hfind
  exact hip ▸ harps m (List.mem_of_find?_eq_some hfind)

theorem cache (h : Truthful t p l) {ip : UInt32} {address : EthernetAddress} {time : ℕ}
    (hfind : l.iface.arpCache.find? ip = some (address, time)) : t.Neighbour p ip address :=
  neighbour_of_resolve h.arps (h.conserved.cache ip address time hfind)

/-- The step: one call, which brings no ARP message but a neighbour's. -/
theorem observe (h : Truthful t p l) {op : NetworkInterface.Op} (hserial : op.Serializable)
    (harp : ∀ m, l.iface.arp? op = some m →
      t.Neighbour p m.senderIpAddress m.senderEthernetAddress) :
    Truthful t p (l.observe op) := by
  have hconserved := h.conserved.observe hserial
  have harps : ∀ m ∈ (l.called op).arps,
      t.Neighbour p m.senderIpAddress m.senderEthernetAddress := by
    intro m hm
    rcases List.mem_append.mp hm with hnew | hold
    · exact harp m (Option.mem_toList.mp hnew)
    · exact h.arps m hold
  refine ⟨hconserved, ?_, ?_, harps, fun e he => ?_, fun frame hframe => ?_⟩
  · exact (InterfaceLog.step_ethernetAddress _ _).trans h.ethernetAddress
  · exact (NetworkInterface.step_ipAddress _ _).trans h.ipAddress
  · rcases List.mem_append.mp he with hold | hnew
    · exact h.emissions e hold
    · refine neighbour_of_resolve harps ?_
      exact (InterfaceLog.resolved_of_mem hnew).symm.trans
        (hconserved.addressed e (List.mem_append_right _ hnew)).2
  · obtain ⟨frames, heq, hframes⟩ := l.iface.step_frames op
    have hframe : frame ∈ (l.iface.step op).framesOut := hframe
    show _ ∨ ∃ m, frame.CarriesARP m ∧ (l.iface.step op).Own m
    unfold NetworkInterface.Own
    rw [InterfaceLog.step_ethernetAddress, NetworkInterface.step_ipAddress]
    rw [heq] at hframe
    exact (List.mem_append.mp hframe).elim (h.frames frame) (hframes frame)

/-- A message that comes from a neighbour is about it. -/
theorem heard (h : Truthful t p l) (hhears : t.Hears p q) (hframe : frame ∈ l.iface.framesOut)
    {i : NetworkInterface} {m : ARPMessage} (harp : i.arpMessage? frame.concatenated = some m) :
    frame.CarriesARP m ∧ l.iface.Own m ∧
      t.Neighbour q m.senderIpAddress m.senderEthernetAddress := by
  rcases h.frames frame hframe with htype | ⟨m', hmessage, hown⟩
  · rw [NetworkInterface.arpMessage?_of_ipv4 htype] at harp
    cases harp
  · rw [NetworkInterface.arpMessage?_of_carriesARP hmessage] at harp
    split at harp
    · obtain rfl := Option.some.inj harp
      exact ⟨hmessage, hown, p, hhears, hown.1.trans h.ipAddress, hown.2.trans h.ethernetAddress⟩
    · cases harp

/-- An IPv4 frame was emitted for a datagram that was given. -/
theorem given_of_frame (h : Truthful t p l) (hframe : frame ∈ l.iface.framesOut)
    (htype : frame.header.type = EthernetHeader.typeIPv4) :
    ∃ g ∈ l.given, t.Neighbour p g.1 frame.header.dst ∧ g.2.serialize = some frame.payload := by
  have hmem : frame ∈ l.emissions.map (·.frame) := by
    rw [h.conserved.frames]
    exact List.mem_filter.mpr ⟨hframe, beq_iff_eq.mpr htype⟩
  obtain ⟨e, he, rfl⟩ := List.mem_map.mp hmem
  obtain ⟨sent, hcarries, hperm⟩ := h.conserved.conserved
  obtain ⟨k, hk, rfl⟩ := List.getElem_of_mem he
  have hlength := hcarries.length_eq
  obtain ⟨hhop, hserialize⟩ := (List.forall₂_iff_get.mp hcarries).2 k hk (hlength ▸ hk)
  refine ⟨sent[k], ?_, hhop ▸ h.emissions _ he, hserialize⟩
  exact hperm.mem_iff.mpr (List.mem_append_left _ (List.getElem_mem (hlength ▸ hk)))

/-- The frame is for `q` just if the address is that of `q`. -/
theorem accepts_iff (h : Truthful t q l) (frame : EthernetFrame) :
    l.iface.accepts frame = true ↔
      frame.header.dst = t.ethernetAddress q ∨ frame.header.dst = ethernetBroadcast := by
  rw [NetworkInterface.accepts, h.ethernetAddress, Bool.or_eq_true, beq_iff_eq, beq_iff_eq]

end Truthful

namespace IPv4Datagram

variable {d d' : IPv4Datagram}

/-- What can be read is serialized and read. -/
theorem Sendable.read (h : d.Sendable) :
    ∃ bufs d', d.serialize = some bufs ∧ d.Copy d' ∧
      ({} : IPv4Datagram).parse bufs.concatenate = (d', .noError) := by
  obtain ⟨bufs, cksum, hserialize, hparse⟩ := parse_serialize h.fits h.len
  exact ⟨bufs, _, hserialize, ⟨cksum, rfl⟩, hparse⟩

theorem Sendable.serializable (h : d.Sendable) : d.serialize.isSome := by
  obtain ⟨bufs, -, hserialize, -⟩ := h.read
  rw [hserialize, Option.isSome_some]

theorem Sendable.copy (h : d.Sendable) (hcopy : d.Copy d') : d'.Sendable := by
  obtain ⟨cksum, rfl⟩ := hcopy
  refine ⟨h.fits.withCksum cksum, h.len.trans ?_⟩
  show _ = 4 * d.header.hlen.toNat + (d.payload.concatenate.length + 0)
  rw [Nat.add_zero, show d.payload.concatenate.length = d.payload.size from List.length_flatten]

theorem Sendable.decrementTtl (h : d.Sendable) : d.decrementTtl.Sendable :=
  ⟨⟨h.fits.ver, h.fits.minimum, h.fits.maximum, h.fits.offset⟩, h.len⟩

end IPv4Datagram

end CourseNet
