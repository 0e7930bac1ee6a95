import CourseNet.InterfaceLog

/-!
# No datagram is lost or duplicated

One call moves datagrams between three places: those given, those waiting, and those in emitted
frames.  If everything that waits can be serialized, what was waiting together with what the call
gives is, up to order, what the call emits together with what waits afterwards
(`step_conserves`).  The cache never holds anything but the address in the latest ARP message.
-/

namespace CourseNet

namespace NetworkInterface

/-- Everything that waits can be serialized. -/
def Serializable (i : NetworkInterface) : Prop :=
  ∀ ip, ∀ dgram ∈ i.pending ip, dgram.serialize.isSome

/-- Every datagram that the call gives can be serialized. -/
def Op.Serializable (op : Op) : Prop := ∀ g ∈ op.given, g.2.serialize.isSome

instance : DecidablePred Op.Serializable := fun op =>
  inferInstanceAs (Decidable (∀ g ∈ op.given, _))

/-- What one call emits: the frames, and the datagrams in them with their next hop. -/
structure Sends (i : NetworkInterface) (op : Op) (frames : List EthernetFrame)
    (sent : List (UInt32 × IPv4Datagram)) : Prop where
  ipv4Frames : (i.step op).ipv4Frames = i.ipv4Frames ++ frames
  carries : List.Forall₂ (fun frame g => i.hop? op = some g.1 ∧
    IPv4Datagram.serialize g.2 = some frame.payload) frames sent
  addressed : ∀ frame ∈ frames, frame.header.src = i.ethernetAddress ∧
    ∀ hop, i.hop? op = some hop →
      ∃ time, (i.step op).arpCache.find? hop = some (frame.header.dst, time)

/-- A call that emits nothing. -/
theorem Sends.none {i : NetworkInterface} {op : Op} (h : (i.step op).ipv4Frames = i.ipv4Frames) :
    Sends i op [] [] :=
  ⟨by rw [h, List.append_nil], List.Forall₂.nil, fun _ hf => absurd hf List.not_mem_nil⟩

/-- The waiting datagrams are determined by the map. -/
theorem queued_congr {i i' : NetworkInterface} (h : i'.pendingDatagrams = i.pendingDatagrams) :
    i'.queued = i.queued := by
  rw [queued, h, queued]

theorem hop?_reply {i : NetworkInterface} {frame : EthernetFrame} {m : ARPMessage}
    (harp : i.arpMessage? frame = some m) :
    i.hop? (.recvFrame frame) = some m.senderIpAddress := by
  rw [hop?, harp]
  rfl

/-- A datagram for a next hop in the cache leaves at once. -/
theorem Sends.immediate {i : NetworkInterface} {dgram : IPv4Datagram} {hop : UInt32}
    {dst : EthernetAddress} {time : ℕ} {payload : BufferList}
    (hcache : i.arpCache.find? hop = some (dst, time)) (hpayload : dgram.serialize = some payload)
    (hstep : i.step (.sendDatagram dgram hop) = i.pushFrame (i.ipv4Frame dst payload)) :
    Sends i (.sendDatagram dgram hop) [i.ipv4Frame dst payload] [(hop, dgram)] := by
  refine ⟨?_, List.Forall₂.cons ⟨rfl, hpayload⟩ List.Forall₂.nil, ?_⟩
  · rw [hstep, ipv4Frames_pushFrame_ipv4]
  · intro frame hframe
    rw [List.mem_singleton.mp hframe, hstep]
    exact ⟨rfl, fun hop' heq => ⟨time, Option.some.inj heq ▸ hcache⟩⟩

/-- A reply sends everything that waits for its sender, if it can be serialized. -/
theorem Sends.reply {i : NetworkInterface} {frame : EthernetFrame} {m : ARPMessage}
    (harp : i.arpMessage? frame = some m)
    (hserial : ∀ dgram ∈ i.pending m.senderIpAddress, dgram.serialize.isSome)
    (hstep : i.step (.recvFrame frame) = i.acceptReply m) :
    (∃ frames, Sends i (.recvFrame frame) frames
        ((i.pending m.senderIpAddress).map (m.senderIpAddress, ·))) ∧
      (i.acceptReply m).pendingDatagrams = i.pendingDatagrams.erase m.senderIpAddress := by
  obtain ⟨payloads, hsent, hframes, hpending⟩ := i.acceptReply_sends hserial
  refine ⟨⟨payloads.map (i.ipv4Frame m.senderEthernetAddress), ?_, ?_, ?_⟩, hpending⟩
  · rw [hstep, hframes]
  · rw [List.forall₂_map_left_iff, List.forall₂_map_right_iff]
    exact hsent.imp fun _ _ hpayload => ⟨hop?_reply harp, hpayload⟩
  · intro frame' hframe
    obtain ⟨payload, -, rfl⟩ := List.mem_map.mp hframe
    refine ⟨rfl, fun hop heq => ⟨arpCacheTimeout, ?_⟩⟩
    rw [hop?_reply harp] at heq
    rw [hstep, (i.acceptReply_frame m).1, learn_find?, if_pos (Option.some.inj heq).symm]
    rfl

/-- **One call conserves datagrams.** -/
theorem step_conserves {i : NetworkInterface} (h : i.Serializable) {op : Op}
    (hserial : op.Serializable) :
    ∃ frames sent, Sends i op frames sent ∧
      (i.queued ++ op.given).Perm (sent ++ (i.step op).queued) := by
  have heffect := i.step_effect op
  generalize hi' : i.step op = i' at heffect
  cases heffect with
  | @immediate dgram hop dst time payload hcache hpayload =>
      exact ⟨_, _, Sends.immediate hcache hpayload hi', List.perm_append_comm⟩
  | @refused dgram hop dst time hcache hthrows =>
      have hsome := hserial _ List.mem_cons_self
      rw [hthrows] at hsome
      exact absurd hsome (by simp)
  | @waits dgram hop hcache =>
      obtain ⟨hframes, -, hpending, -⟩ := (i.enqueue dgram hop).requestAddress_frame hop
      refine ⟨[], [], Sends.none (by rw [hi', hframes]; rfl), ?_⟩
      rw [queued_congr hpending]
      exact (i.queued_enqueue dgram hop).symm
  | ignored harp =>
      exact ⟨[], [], Sends.none (by rw [hi']), by rw [Op.given, List.append_nil]; rfl⟩
  | @request frame m harp hopcode =>
      obtain ⟨hframes, -, hpending, -⟩ := i.answer_frame m
      refine ⟨[], [], Sends.none (by rw [hi', hframes]), ?_⟩
      rw [queued_congr hpending, Op.given, List.append_nil]
      rfl
  | @reply frame m harp hopcode =>
      obtain ⟨⟨frames, hsends⟩, hpending⟩ := Sends.reply harp (h m.senderIpAddress) hi'
      refine ⟨frames, _, hsends, ?_⟩
      rw [Op.given, List.append_nil]
      refine (i.queued_split m.senderIpAddress).trans (List.Perm.of_eq ?_)
      show _ = _ ++ (i.acceptReply m).pendingDatagrams.entries.flatMap _
      rw [hpending]
  | tick ms => exact ⟨[], [], Sends.none (by rw [hi']; rfl), by rw [Op.given, List.append_nil]; rfl⟩

/-- Nothing waits that was not waiting before or is given now. -/
theorem step_pending {i : NetworkInterface} (h : i.Serializable) {op : Op} {ip : UInt32}
    {dgram : IPv4Datagram} (hmem : dgram ∈ (i.step op).pending ip) :
    dgram ∈ i.pending ip ∨ (ip, dgram) ∈ op.given := by
  have hsame : ∀ {i' : NetworkInterface}, i'.pendingDatagrams = i.pendingDatagrams →
      dgram ∈ i'.pending ip → dgram ∈ i.pending ip := fun heq hd => by rwa [pending, heq] at hd
  have heffect := i.step_effect op
  generalize i.step op = i' at heffect hmem
  cases heffect with
  | immediate hcache hpayload => exact Or.inl hmem
  | refused hcache hthrows => exact Or.inl hmem
  | @waits dgram' hop hcache =>
      rw [pending, ((i.enqueue dgram' hop).requestAddress_frame hop).2.2.1, ← pending,
        pending_enqueue] at hmem
      by_cases hip : ip = hop
      · rw [if_pos hip] at hmem
        rcases List.mem_append.mp hmem with hold | hnew
        · exact Or.inl (hip ▸ hold)
        · exact Or.inr (by rw [hip, List.mem_singleton.mp hnew]; exact List.mem_cons_self)
      · rw [if_neg hip] at hmem
        exact Or.inl hmem
  | ignored harp => exact Or.inl hmem
  | @request frame m harp hopcode => exact Or.inl (hsame (i.answer_frame m).2.2.1 hmem)
  | @reply frame m harp hopcode =>
      obtain ⟨-, -, -, hpending⟩ := i.acceptReply_sends (h m.senderIpAddress)
      rw [pending, hpending, SortedMap.find?_erase] at hmem
      by_cases hip : ip = m.senderIpAddress
      · rw [if_pos hip] at hmem
        exact absurd hmem List.not_mem_nil
      · rw [if_neg hip] at hmem
        exact Or.inl hmem
  | tick ms => exact Or.inl hmem

theorem Serializable.step {i : NetworkInterface} (h : i.Serializable) {op : Op}
    (hserial : op.Serializable) : (i.step op).Serializable := by
  intro ip dgram hmem
  rcases step_pending h hmem with hold | hgiven
  · exact h ip dgram hold
  · exact hserial _ hgiven

/-- What a call leaves in the cache is from the ARP message it brings, or was there before. -/
theorem step_cache (i : NetworkInterface) {op : Op} {ip : UInt32} {dst : EthernetAddress}
    {time : ℕ} (h : (i.step op).arpCache.find? ip = some (dst, time)) :
    (∃ m, i.arp? op = some m ∧ m.senderIpAddress = ip ∧ m.senderEthernetAddress = dst) ∨
      (∃ time', i.arpCache.find? ip = some (dst, time')) ∧
        ∀ m, i.arp? op = some m → m.senderIpAddress ≠ ip := by
  have hcall : (∀ ms, op ≠ .tick ms) →
      (∃ m, i.arp? op = some m ∧ m.senderIpAddress = ip ∧ m.senderEthernetAddress = dst) ∨
        (∃ time', i.arpCache.find? ip = some (dst, time')) ∧
          ∀ m, i.arp? op = some m → m.senderIpAddress ≠ ip := by
    intro htick
    rw [i.step_arpCache htick] at h
    rcases harp : i.arp? op with _ | m
    · rw [harp, Option.elim_none] at h
      exact Or.inr ⟨⟨time, h⟩, nofun⟩
    · rw [harp, Option.elim_some, learn_find?] at h
      by_cases hip : ip = m.senderIpAddress
      · rw [if_pos hip] at h
        exact Or.inl ⟨m, rfl, hip.symm, congrArg Prod.fst (Option.some.inj h)⟩
      · rw [if_neg hip] at h
        refine Or.inr ⟨⟨time, h⟩, ?_⟩
        rintro _ ⟨⟩
        exact Ne.symm hip
  cases op with
  | sendDatagram dgram hop => exact hcall nofun
  | recvFrame frame => exact hcall nofun
  | tick ms =>
      obtain ⟨time', hfind⟩ := i.tick_find? h
      exact Or.inr ⟨⟨time', hfind⟩, nofun⟩

end NetworkInterface

namespace InterfaceLog

open NetworkInterface

/-- The latest ARP message from `ip`, after a call. -/
theorem called_resolve (l : InterfaceLog) (op : Op) (ip : UInt32) :
    (l.called op).resolve ip =
      match l.iface.arp? op with
      | none => l.resolve ip
      | some m => if m.senderIpAddress = ip then some m.senderEthernetAddress else l.resolve ip := by
  unfold resolve called
  rcases l.iface.arp? op with _ | m
  · rfl
  · show ((m :: l.arps).find? _).map _ = _
    by_cases hip : m.senderIpAddress = ip
    · rw [List.find?_cons_of_pos (by simpa using hip)]
      exact (if_pos hip).symm
    · rw [List.find?_cons_of_neg (by simpa using hip)]
      exact (if_neg hip).symm

/-- What the history says at any time. -/
structure Conserved (l : InterfaceLog) : Prop where
  frames : l.emissions.map (·.frame) = l.iface.ipv4Frames
  conserved : ∃ sent, List.Forall₂ Emission.Carries l.emissions sent ∧
    l.given.Perm (sent ++ l.iface.queued)
  addressed : ∀ e ∈ l.emissions,
    e.frame.header.src = l.iface.ethernetAddress ∧ e.resolved = some e.frame.header.dst
  cache : ∀ ip dst time, l.iface.arpCache.find? ip = some (dst, time) → l.resolve ip = some dst
  serializable : l.iface.Serializable

theorem Conserved.new (ethernetAddress : EthernetAddress) (ipAddress : UInt32) :
    (InterfaceLog.new ethernetAddress ipAddress).Conserved where
  frames := rfl
  conserved := ⟨[], List.Forall₂.nil, List.Perm.refl _⟩
  addressed := fun _ he => absurd he List.not_mem_nil
  cache := fun _ _ _ h => absurd h (by simp [InterfaceLog.new, NetworkInterface.new,
    SortedMap.find?, SortedMap.empty])
  serializable := fun _ _ hd => absurd hd List.not_mem_nil

theorem step_ethernetAddress (i : NetworkInterface) (op : Op) :
    (i.step op).ethernetAddress = i.ethernetAddress := by
  have heffect := i.step_effect op
  generalize i.step op = i' at heffect
  cases heffect with
  | immediate | refused | ignored | tick => rfl
  | @waits dgram hop hcache => exact ((i.enqueue dgram hop).requestAddress_frame hop).2.2.2
  | @request frame m harp hopcode => exact (i.answer_frame m).2.2.2
  | @reply frame m harp hopcode => exact (i.acceptReply_frame m).2

/-- The cache agrees with the latest ARP messages after a call. -/
theorem Conserved.called_cache {l : InterfaceLog} (h : l.Conserved) (op : Op) {ip : UInt32}
    {dst : EthernetAddress} {time : ℕ}
    (hfind : (l.iface.step op).arpCache.find? ip = some (dst, time)) :
    (l.called op).resolve ip = some dst := by
  rw [called_resolve]
  rcases l.iface.step_cache hfind with ⟨m, harp, hip, hdst⟩ | ⟨⟨time', hold⟩, hother⟩
  · rw [harp]
    exact (if_pos hip).trans (congrArg some hdst)
  · rcases harp : l.iface.arp? op with _ | m
    · exact h.cache ip dst time' hold
    · exact (if_neg (hother m harp)).trans (h.cache ip dst time' hold)

/-- What the observer notes of a call, from what the call emits. -/
theorem emitted_of_sends {l : InterfaceLog} {op : Op} {frames : List EthernetFrame}
    {sent : List (UInt32 × IPv4Datagram)} (hsends : Sends l.iface op frames sent) :
    (l.emitted op).map (·.frame) = frames ∧
      List.Forall₂ Emission.Carries (l.emitted op) sent ∧
      ∀ e ∈ l.emitted op, e.frame ∈ frames ∧
        ∃ hop, l.iface.hop? op = some hop ∧ e.resolved = (l.called op).resolve hop := by
  have hnew : l.newFrames op = frames := by
    rw [newFrames, hsends.ipv4Frames, List.drop_left]
  have hcarries := hsends.carries
  unfold emitted
  rw [hnew]
  rcases hhop : l.iface.hop? op with _ | hop
  · -- a call that is not about a next hop emits nothing
    have hnone : frames = [] := by
      rcases hcarries with _ | ⟨⟨hhop', -⟩, -⟩
      · rfl
      · rw [hhop] at hhop'
        exact absurd hhop' (by simp)
    rw [hnone, List.forall₂_nil_left_iff] at hcarries
    rw [hnone, hcarries]
    exact ⟨rfl, List.Forall₂.nil, fun _ he => absurd he List.not_mem_nil⟩
  · refine ⟨by rw [List.map_map]; exact List.map_id _, ?_, ?_⟩
    · rw [List.forall₂_map_left_iff]
      exact hcarries.imp fun _ _ hg => ⟨Option.some.inj (hhop.symm.trans hg.1), hg.2⟩
    · intro e he
      obtain ⟨frame, hframe, rfl⟩ := List.mem_map.mp he
      exact ⟨hframe, hop, rfl, rfl⟩

/-- The step: one call. -/
theorem Conserved.observe {l : InterfaceLog} (h : l.Conserved) {op : Op}
    (hserial : op.Serializable) : (l.observe op).Conserved := by
  obtain ⟨frames, sent, hsends, hperm⟩ := step_conserves h.serializable hserial
  obtain ⟨hframes, hcarries, hresolved⟩ := emitted_of_sends hsends
  have haddressed : ∀ e ∈ l.emitted op, e.frame.header.src = l.iface.ethernetAddress ∧
      e.resolved = some e.frame.header.dst := by
    intro e he
    obtain ⟨hframe, hop, hhop, hlatest⟩ := hresolved e he
    obtain ⟨hsrc, hdst⟩ := hsends.addressed e.frame hframe
    obtain ⟨time, hfind⟩ := hdst hop hhop
    exact ⟨hsrc, hlatest.trans (h.called_cache op hfind)⟩
  obtain ⟨sentBefore, hbefore, hgiven⟩ := h.conserved
  refine ⟨?_, ⟨sentBefore ++ sent, ?_, ?_⟩, ?_, ?_, h.serializable.step hserial⟩
  · show (l.emissions ++ l.emitted op).map _ = (l.iface.step op).ipv4Frames
    rw [List.map_append, h.frames, hframes, hsends.ipv4Frames]
  · exact List.rel_append hbefore hcarries
  · show (l.given ++ op.given).Perm ((sentBefore ++ sent) ++ (l.iface.step op).queued)
    calc (l.given ++ op.given).Perm ((sentBefore ++ l.iface.queued) ++ op.given) :=
          hgiven.append_right _
      _ = sentBefore ++ (l.iface.queued ++ op.given) := List.append_assoc _ _ _
      List.Perm _ (sentBefore ++ (sent ++ (l.iface.step op).queued)) := hperm.append_left _
      _ = (sentBefore ++ sent) ++ (l.iface.step op).queued := (List.append_assoc _ _ _).symm
  · intro e he
    show _ = (l.iface.step op).ethernetAddress ∧ _
    rw [step_ethernetAddress]
    rcases List.mem_append.mp he with hold | hnew'
    · exact h.addressed e hold
    · exact haddressed e hnew'
  · exact fun ip dst time hfind => h.called_cache op hfind

/-- Every run. -/
theorem run_conserved (ethernetAddress : EthernetAddress) (ipAddress : UInt32) (ops : List Op)
    (hops : ∀ op ∈ ops, op.Serializable) :
    ((new ethernetAddress ipAddress).run ops).Conserved ∧
      ((new ethernetAddress ipAddress).run ops).iface.ethernetAddress = ethernetAddress := by
  suffices hrun : ∀ l : InterfaceLog, l.Conserved → l.iface.ethernetAddress = ethernetAddress →
      (l.run ops).Conserved ∧ (l.run ops).iface.ethernetAddress = ethernetAddress from
    hrun _ (Conserved.new ethernetAddress ipAddress) rfl
  induction ops with
  | nil => exact fun l hl haddress => ⟨hl, haddress⟩
  | cons op ops ih =>
      intro l hl haddress
      exact ih (fun o ho => hops o (List.mem_cons_of_mem _ ho)) (l.observe op)
        (hl.observe (hops op List.mem_cons_self))
        ((step_ethernetAddress l.iface op).trans haddress)

/-- **The interface neither loses nor duplicates datagrams.**  In every run that sends serializable
datagrams: the IPv4 frames emitted carry some list of datagrams, each for its next hop; those
together with the ones that still wait are, as a multiset, the datagrams that were given; and every
frame has our address as its source and, as its destination, the Ethernet address in the latest ARP
message from its next hop at the time of emission. -/
theorem datagrams_conserved (ethernetAddress : EthernetAddress) (ipAddress : UInt32)
    (ops : List Op) (hops : ∀ op ∈ ops, op.Serializable) :
    let l := (new ethernetAddress ipAddress).run ops
    l.iface = StepSystem.run step (NetworkInterface.new ethernetAddress ipAddress) ops ∧
      l.emissions.map (·.frame) = l.iface.ipv4Frames ∧
      (∃ sent, List.Forall₂ Emission.Carries l.emissions sent ∧
        l.given.Perm (sent ++ l.iface.queued)) ∧
      ∀ e ∈ l.emissions,
        e.frame.header.src = ethernetAddress ∧ e.resolved = some e.frame.header.dst := by
  obtain ⟨hconserved, haddress⟩ := run_conserved ethernetAddress ipAddress ops hops
  refine ⟨run_iface _ _, hconserved.frames, hconserved.conserved, fun e he => ?_⟩
  rw [← haddress]
  exact hconserved.addressed e he

/-- A datagram waits, is sent when the reply arrives, and the next one is sent at once. -/
theorem datagrams_conserved_resolution :
    let dgram := fun ttl => ({ header := { len := 20, ttl := ttl } } : IPv4Datagram)
    let reply : ARPMessage :=
      { opcode := 2, senderEthernetAddress := Vector.replicate 6 2, senderIpAddress := 10,
        targetEthernetAddress := Vector.replicate 6 1, targetIpAddress := 5 }
    let frame : EthernetFrame :=
      { header :=
          { dst := Vector.replicate 6 1, src := Vector.replicate 6 2,
            type := EthernetHeader.typeARP }
        payload := [reply.toBytes] }
    let l := (new (Vector.replicate 6 1) 5).run
      [.sendDatagram (dgram 64) 10, .recvFrame frame, .sendDatagram (dgram 32) 10]
    (∃ sent, List.Forall₂ Emission.Carries l.emissions sent ∧
      l.given.Perm (sent ++ l.iface.queued)) ∧
      l.iface.queued = [] ∧ l.emissions.length = 2 :=
  ⟨(datagrams_conserved (Vector.replicate 6 1) 5
      [.sendDatagram { header := { len := 20, ttl := 64 } } 10,
        .recvFrame
          { header :=
              { dst := Vector.replicate 6 1, src := Vector.replicate 6 2,
                type := EthernetHeader.typeARP }
            payload := [ARPMessage.toBytes
              { opcode := 2, senderEthernetAddress := Vector.replicate 6 2, senderIpAddress := 10,
                targetEthernetAddress := Vector.replicate 6 1, targetIpAddress := 5 }] },
        .sendDatagram { header := { len := 20, ttl := 32 } } 10]
      (by decide +kernel)).2.2.1,
    by decide +kernel, by decide +kernel⟩

end InterfaceLog

end CourseNet
