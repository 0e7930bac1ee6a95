import CourseNet.DatagramConservation

/-!
# Datagrams behind a known next hop

`recv_frame` learns a mapping from every ARP message, and sends what waits for the sender only if
the message is a reply.  So a request from a next hop with waiting datagrams leaves them waiting
behind a known address, and later datagrams overtake them.  A reply whose flush stops at a datagram
that cannot be serialized does the same.  Nothing else does (`step_noneWaits_iff`).
-/

namespace CourseNet

namespace NetworkInterface

/-- No next hop in the cache has datagrams waiting. -/
def NoneWaits (i : NetworkInterface) : Prop :=
  ∀ ip, i.arpCache.find? ip ≠ none → i.pending ip = []

/-- The call brings no ARP message from a next hop with waiting datagrams, or a reply, and all of
them can be serialized. -/
def Prompt (i : NetworkInterface) (op : Op) : Prop :=
  ∀ m, i.arp? op = some m → i.pending m.senderIpAddress = [] ∨
    (m.opcode = ARPMessage.opcodeReply ∧
      ∀ dgram ∈ i.pending m.senderIpAddress, dgram.serialize.isSome)

instance (i : NetworkInterface) (op : Op) : Decidable (i.Prompt op) :=
  decidable_of_iff
    (∀ m ∈ (i.arp? op).toList, i.pending m.senderIpAddress = [] ∨
      (m.opcode = ARPMessage.opcodeReply ∧
        ∀ dgram ∈ i.pending m.senderIpAddress, dgram.serialize.isSome))
    (by simp only [Option.mem_toList, Prompt])

variable {i : NetworkInterface} {op : Op}

theorem NoneWaits.new (ethernetAddress : EthernetAddress) (ipAddress : UInt32) :
    (NetworkInterface.new ethernetAddress ipAddress).NoneWaits := fun _ _ => rfl

/-- A state with the same queues and no more in the cache. -/
theorem NoneWaits.mono {i' : NetworkInterface} (h : i.NoneWaits)
    (hpending : i'.pendingDatagrams = i.pendingDatagrams)
    (hcache : ∀ ip, i'.arpCache.find? ip ≠ none → i.arpCache.find? ip ≠ none) : i'.NoneWaits := by
  intro ip hknown
  rw [pending, hpending]
  exact h ip (hcache ip hknown)

/-- A state that has learned from a message. -/
theorem noneWaits_of_learned {i' : NetworkInterface} {m : ARPMessage} (h : i.NoneWaits)
    (hcache : i'.arpCache = (i.learn m).arpCache)
    (hpending : ∀ ip, ip ≠ m.senderIpAddress → i'.pending ip = i.pending ip) :
    i'.NoneWaits ↔ i'.pending m.senderIpAddress = [] := by
  constructor
  · intro hnone
    apply hnone
    rw [hcache, learn_find?, if_pos rfl]
    simp
  · intro hsender ip hknown
    by_cases hip : ip = m.senderIpAddress
    · rw [hip]
      exact hsender
    · rw [hcache, learn_find?, if_neg hip] at hknown
      rw [hpending ip hip]
      exact h ip hknown

/-- A call without an ARP message is prompt. -/
theorem prompt_of_none (h : i.arp? op = none) : i.Prompt op := by
  intro m hm
  rw [h] at hm
  exact absurd hm (by simp)

theorem prompt_iff (op : Op) {m : ARPMessage} (h : i.arp? op = some m) :
    i.Prompt op ↔ i.pending m.senderIpAddress = [] ∨ (m.opcode = ARPMessage.opcodeReply ∧
      ∀ dgram ∈ i.pending m.senderIpAddress, dgram.serialize.isSome) := by
  constructor
  · intro hprompt
    exact hprompt m h
  · intro hm m' hm'
    rw [← Option.some.inj (h.symm.trans hm')]
    exact hm

/-- A reply leaves nothing waiting exactly if everything that waits for its sender can be
serialized. -/
theorem acceptReply_noneWaits_iff (h : i.NoneWaits) (m : ARPMessage) :
    (i.acceptReply m).NoneWaits ↔
      ∀ dgram ∈ i.pending m.senderIpAddress, dgram.serialize.isSome := by
  have hlearned := (i.acceptReply_frame m).1
  constructor
  · intro hnone
    by_contra hserial
    push Not at hserial
    obtain ⟨dgram, hmem, hthrows⟩ := hserial
    refine i.acceptReply_leaves ⟨dgram, hmem, by simpa using hthrows⟩
      (hnone m.senderIpAddress ?_)
    rw [hlearned, learn_find?, if_pos rfl]
    simp
  · intro hserial
    obtain ⟨-, -, -, hpending⟩ := i.acceptReply_sends hserial
    refine (noneWaits_of_learned h hlearned fun ip hip => ?_).mpr ?_
    · rw [pending, hpending, SortedMap.find?_erase, if_neg hip, pending]
    · rw [pending, hpending, SortedMap.find?_erase, if_pos rfl]
      rfl

/-- **Exactly the prompt calls** leave nothing waiting behind a known next hop. -/
theorem step_noneWaits_iff (h : i.NoneWaits) (op : Op) : (i.step op).NoneWaits ↔ i.Prompt op := by
  have heffect := i.step_effect op
  generalize i.step op = i' at heffect
  cases heffect with
  | immediate hcache hpayload => exact iff_of_true (h.mono rfl fun _ hk => hk) (prompt_of_none rfl)
  | refused hcache hthrows => exact iff_of_true h (prompt_of_none rfl)
  | @waits dgram hop hcache =>
      obtain ⟨-, hsame, hpending, -⟩ := (i.enqueue dgram hop).requestAddress_frame hop
      refine iff_of_true (fun ip hknown => ?_) (prompt_of_none rfl)
      rw [hsame] at hknown
      have hip : ip ≠ hop := by
        rintro rfl
        exact hknown hcache
      rw [pending, hpending, ← pending, pending_enqueue, if_neg hip]
      exact h ip hknown
  | ignored harp => exact iff_of_true h (prompt_of_none harp)
  | @request frame m harp hopcode =>
      obtain ⟨-, hlearned, hpending, -⟩ := i.answer_frame m
      have hsame : ∀ ip, (i.answer m).pending ip = i.pending ip := fun ip => by
        rw [pending, hpending, pending]
      rw [noneWaits_of_learned h hlearned fun ip _ => hsame ip, hsame, prompt_iff (.recvFrame frame) harp]
      exact (or_iff_left fun hreply => hopcode hreply.1).symm
  | @reply frame m harp hopcode =>
      rw [acceptReply_noneWaits_iff h m, prompt_iff (.recvFrame frame) harp, and_iff_right hopcode]
      refine (or_iff_right_of_imp fun hempty => ?_).symm
      rw [hempty]
      exact fun _ hd => absurd hd List.not_mem_nil
  | tick ms =>
      refine iff_of_true (h.mono rfl fun ip hknown => ?_) (prompt_of_none rfl)
      obtain ⟨⟨dst, time⟩, hfind⟩ := Option.ne_none_iff_exists'.mp hknown
      obtain ⟨time', hold⟩ := i.tick_find? hfind
      rw [hold]
      simp

/-! ### Order -/

/-- The datagrams for one next hop. -/
def toHop (hop : UInt32) (gs : List (UInt32 × IPv4Datagram)) : List IPv4Datagram :=
  (gs.filter fun g => g.1 == hop).map (·.2)

theorem toHop_append (hop : UInt32) (gs gs' : List (UInt32 × IPv4Datagram)) :
    toHop hop (gs ++ gs') = toHop hop gs ++ toHop hop gs' := by
  rw [toHop, List.filter_append, List.map_append]
  rfl

theorem toHop_map (hop ip : UInt32) (dgrams : List IPv4Datagram) :
    toHop hop (dgrams.map (ip, ·)) = if ip = hop then dgrams else [] := by
  unfold toHop
  rw [List.filter_map, List.map_map]
  by_cases hip : ip = hop
  · rw [if_pos hip, List.filter_eq_self.mpr fun _ _ => by simpa using hip]
    exact List.map_id _
  · rw [if_neg hip, List.filter_eq_nil_iff.mpr fun _ _ => by simpa using hip]
    rfl

/-- The datagrams for a next hop, in the order in which a prompt call emits them and leaves them
waiting. -/
theorem step_in_order (h : i.NoneWaits) (hprompt : i.Prompt op) :
    ∃ frames sent, Sends i op frames sent ∧ ∀ hop,
      (toHop hop sent ++ (i.step op).pending hop).Sublist
        (i.pending hop ++ toHop hop op.given) := by
  have heffect := i.step_effect op
  generalize hi' : i.step op = i' at heffect
  cases heffect with
  | @immediate dgram hop dst time payload hcache hpayload =>
      refine ⟨_, _, Sends.immediate hcache hpayload hi', fun ip => ?_⟩
      show (toHop ip ([dgram].map (hop, ·)) ++ i.pending ip).Sublist
        (i.pending ip ++ toHop ip ([dgram].map (hop, ·)))
      rw [toHop_map]
      by_cases hip : hop = ip
      · rw [← hip, h hop (by rw [hcache]; simp), List.append_nil, List.nil_append]
      · rw [if_neg hip, List.append_nil, List.nil_append]
  | refused hcache hthrows =>
      exact ⟨_, _, Sends.none (by rw [hi']), fun ip => List.sublist_append_left _ _⟩
  | @waits dgram hop hcache =>
      obtain ⟨hframes, -, hpending, -⟩ := (i.enqueue dgram hop).requestAddress_frame hop
      refine ⟨_, _, Sends.none (by rw [hi', hframes]; rfl), fun ip => ?_⟩
      show (((i.enqueue dgram hop).requestAddress hop).pending ip).Sublist
        (i.pending ip ++ toHop ip ([dgram].map (hop, ·)))
      rw [pending, hpending, ← pending, pending_enqueue, toHop_map]
      by_cases hip : ip = hop
      · rw [if_pos hip, if_pos hip.symm, hip]
      · rw [if_neg hip, if_neg (Ne.symm hip), List.append_nil]
  | ignored harp => exact ⟨_, _, Sends.none (by rw [hi']), fun ip => List.sublist_append_left _ _⟩
  | @request frame m harp hopcode =>
      obtain ⟨hframes, -, hpending, -⟩ := i.answer_frame m
      refine ⟨_, _, Sends.none (by rw [hi', hframes]), fun ip => ?_⟩
      rw [pending, hpending, ← pending]
      exact List.sublist_append_left _ _
  | @reply frame m harp hopcode =>
      have hserial : ∀ dgram ∈ i.pending m.senderIpAddress, dgram.serialize.isSome := by
        rcases (prompt_iff (.recvFrame frame) harp).mp hprompt with hempty | ⟨-, hall⟩
        · rw [hempty]
          exact fun _ hd => absurd hd List.not_mem_nil
        · exact hall
      obtain ⟨⟨frames, hsends⟩, hpending⟩ := Sends.reply harp hserial hi'
      refine ⟨frames, _, hsends, fun ip => ?_⟩
      show (toHop ip _ ++ ((i.acceptReply m).pendingDatagrams.find? ip).getD []).Sublist _
      rw [toHop_map, hpending, SortedMap.find?_erase]
      by_cases hip : ip = m.senderIpAddress
      · rw [if_pos hip.symm, if_pos hip, hip]
        exact List.Sublist.refl _
      · rw [if_neg (Ne.symm hip), if_neg hip]
        exact List.sublist_append_left _ _
  | tick ms => exact ⟨_, _, Sends.none (by rw [hi']; rfl), fun ip => List.sublist_append_left _ _⟩

end NetworkInterface

namespace InterfaceLog

open NetworkInterface

/-- The IPv4 frames carry, for each next hop, datagrams given for it in the order in which they were
given, and what still waits was given after those. -/
structure InOrder (l : InterfaceLog) : Prop where
  frames : l.emissions.map (·.frame) = l.iface.ipv4Frames
  ordered : ∃ sent, List.Forall₂ Emission.Carries l.emissions sent ∧ ∀ hop,
    (toHop hop sent ++ l.iface.pending hop).Sublist (toHop hop l.given)

theorem InOrder.new (ethernetAddress : EthernetAddress) (ipAddress : UInt32) :
    (InterfaceLog.new ethernetAddress ipAddress).InOrder :=
  ⟨rfl, [], List.Forall₂.nil, fun _ => List.Sublist.refl _⟩

theorem InOrder.observe {l : InterfaceLog} (h : l.InOrder) (hnone : l.iface.NoneWaits) {op : Op}
    (hprompt : l.iface.Prompt op) : (l.observe op).InOrder := by
  obtain ⟨frames, sent, hsends, hsublist⟩ := step_in_order hnone hprompt
  obtain ⟨hframes, hcarries, -⟩ := emitted_of_sends hsends
  obtain ⟨before, hbefore, hordered⟩ := h.ordered
  refine ⟨?_, before ++ sent, List.rel_append hbefore hcarries, fun hop => ?_⟩
  · show (l.emissions ++ l.emitted op).map _ = (l.iface.step op).ipv4Frames
    rw [List.map_append, h.frames, hframes, hsends.ipv4Frames]
  · show (toHop hop (before ++ sent) ++ (l.iface.step op).pending hop).Sublist
      (toHop hop (l.given ++ op.given))
    rw [toHop_append, toHop_append, List.append_assoc]
    refine ((hsublist hop).append_left _).trans ?_
    rw [← List.append_assoc]
    exact (hordered hop).append_right _

/-- **Exactly the prompt runs keep nothing waiting behind a known next hop.**  For every run of an
interface: at every time of it no next hop in the cache has datagrams waiting, and the IPv4 frames
for each next hop have left in the order in which its datagrams were given, if and only if every ARP
message came from a next hop without waiting datagrams, or was a reply and all of them could be
serialized. -/
theorem noneWaits_iff_prompt (ethernetAddress : EthernetAddress) (ipAddress : UInt32)
    (ops : List Op) :
    (∀ ops', ops' <+: ops →
      ((new ethernetAddress ipAddress).run ops').iface.NoneWaits ∧
        ((new ethernetAddress ipAddress).run ops').InOrder) ↔
      StepSystem.Guarded step Prompt (NetworkInterface.new ethernetAddress ipAddress) ops := by
  suffices hrun : ∀ l : InterfaceLog, l.iface.NoneWaits → l.InOrder →
      ((∀ ops', ops' <+: ops → (l.run ops').iface.NoneWaits ∧ (l.run ops').InOrder) ↔
        StepSystem.Guarded step Prompt l.iface ops) from
    hrun _ (NoneWaits.new ethernetAddress ipAddress) (InOrder.new ethernetAddress ipAddress)
  induction ops with
  | nil =>
      intro l hnone horder
      refine iff_of_true (fun ops' hpre => ?_) trivial
      rw [List.prefix_nil.mp hpre]
      exact ⟨hnone, horder⟩
  | cons op ops ih =>
      intro l hnone horder
      by_cases hprompt : l.iface.Prompt op
      · have hnext := ih (l.observe op) ((step_noneWaits_iff hnone op).mpr hprompt)
          (horder.observe hnone hprompt)
        rw [StepSystem.Guarded, and_iff_right hprompt]
        refine Iff.trans ?_ hnext
        constructor
        · intro h ops' hpre
          exact h (op :: ops') (List.cons_prefix_cons.mpr ⟨rfl, hpre⟩)
        · intro h ops' hpre
          rcases List.prefix_cons_iff.mp hpre with rfl | ⟨rest, rfl, hrest⟩
          · exact ⟨hnone, horder⟩
          · exact h rest hrest
      · refine iff_of_false (fun h => hprompt ?_) fun h => hprompt h.1
        have hone := h [op] (List.cons_prefix_cons.mpr ⟨rfl, List.nil_prefix⟩)
        exact (step_noneWaits_iff hnone op).mp hone.1

/-- A datagram waits for next hop 10; an ARP request from 10 arrives; the next datagram for 10
overtakes the first one, which stays behind the known address. -/
theorem request_leaves_waiting :
    let dgram := fun ttl => ({ header := { len := 20, ttl := ttl } } : IPv4Datagram)
    let request : ARPMessage := { opcode := 1, senderIpAddress := 10, targetIpAddress := 5 }
    let frame : EthernetFrame :=
      { header :=
          { dst := ethernetBroadcast, src := Vector.replicate 6 2, type := EthernetHeader.typeARP }
        payload := [request.toBytes] }
    let l := (new (Vector.replicate 6 1) 5).run
      [.sendDatagram (dgram 64) 10, .recvFrame frame, .sendDatagram (dgram 32) 10]
    ¬l.iface.NoneWaits ∧ l.given = [(10, dgram 64), (10, dgram 32)] ∧
      l.iface.pending 10 = [dgram 64] ∧
      l.emissions.map (fun e => some e.frame.payload) = [(dgram 32).serialize] := by
  refine ⟨fun h => ?_, by decide +kernel, by decide +kernel, by decide +kernel⟩
  exact absurd (h 10 (by decide +kernel)) (by decide +kernel)

end InterfaceLog

end CourseNet
