import CourseNet.NetworkInterface
import Mathlib.Data.List.Forall2

/-!
# What an interface was given and what it emitted

An observer watches the calls of an interface: the datagrams given to `send_datagram`, the ARP
messages that arrive, and the IPv4 frames that each call appends to `framesOut`, for the next hop
the call is about.  `Effect` lists what a call can do, and says of each case which IPv4 frames are
new and what happens to the cache and to the waiting datagrams.
-/

namespace CourseNet

namespace NetworkInterface

/-- The IPv4 frames emitted so far. -/
def ipv4Frames (i : NetworkInterface) : List EthernetFrame :=
  i.framesOut.filter fun frame => frame.header.type == EthernetHeader.typeIPv4

/-- Everything that waits, with its next hop. -/
def queued (i : NetworkInterface) : List (UInt32 × IPv4Datagram) :=
  i.pendingDatagrams.entries.flatMap fun e => e.2.map (e.1, ·)

/-- The ARP message that a call brings. -/
def arp? (i : NetworkInterface) : Op → Option ARPMessage
  | .sendDatagram _ _ => none
  | .recvFrame frame => i.arpMessage? frame
  | .tick _ => none

/-- The next hop a call is about: that of the datagram, or the sender of the ARP message. -/
def hop? (i : NetworkInterface) : Op → Option UInt32
  | .sendDatagram _ nextHop => some nextHop
  | .recvFrame frame => (i.arpMessage? frame).map (·.senderIpAddress)
  | .tick _ => none

/-- The datagrams a call gives to the interface. -/
def Op.given : Op → List (UInt32 × IPv4Datagram)
  | .sendDatagram dgram nextHop => [(nextHop, dgram)]
  | .recvFrame _ => []
  | .tick _ => []

end NetworkInterface

/-- An IPv4 frame, the next hop it was emitted for, and the Ethernet address that the latest ARP
message from that next hop carried when it was. -/
structure Emission where
  nextHop : UInt32
  frame : EthernetFrame
  resolved : Option EthernetAddress

/-- An interface and its history: the ARP messages have the latest first. -/
structure InterfaceLog where
  iface : NetworkInterface
  given : List (UInt32 × IPv4Datagram)
  arps : List ARPMessage
  emissions : List Emission

namespace InterfaceLog

open NetworkInterface

def new (ethernetAddress : EthernetAddress) (ipAddress : UInt32) : InterfaceLog :=
  ⟨NetworkInterface.new ethernetAddress ipAddress, [], [], []⟩

/-- The Ethernet address in the latest ARP message from `ip`. -/
def resolve (l : InterfaceLog) (ip : UInt32) : Option EthernetAddress :=
  (l.arps.find? fun m => m.senderIpAddress == ip).map (·.senderEthernetAddress)

/-- The IPv4 frames that a call adds. -/
def newFrames (l : InterfaceLog) (op : Op) : List EthernetFrame :=
  (l.iface.step op).ipv4Frames.drop l.iface.ipv4Frames.length

/-- The history before the emissions of a call are noted. -/
def called (l : InterfaceLog) (op : Op) : InterfaceLog :=
  { l with
      iface := l.iface.step op
      given := l.given ++ op.given
      arps := (l.iface.arp? op).toList ++ l.arps }

/-- What the observer notes of a call. -/
def emitted (l : InterfaceLog) (op : Op) : List Emission :=
  match l.iface.hop? op with
  | none => []
  | some hop => (l.newFrames op).map fun frame => ⟨hop, frame, (l.called op).resolve hop⟩

def observe (l : InterfaceLog) (op : Op) : InterfaceLog :=
  { l.called op with emissions := l.emissions ++ l.emitted op }

/-- The history of a run of calls. -/
abbrev run (l : InterfaceLog) (ops : List Op) : InterfaceLog := StepSystem.run observe l ops

/-- Watching changes nothing. -/
theorem run_iface (l : InterfaceLog) (ops : List Op) :
    (l.run ops).iface = StepSystem.run step l.iface ops := by
  induction ops generalizing l with
  | nil => rfl
  | cons op ops ih => exact ih (l.observe op)

end InterfaceLog

/-- The frame of an emission carries the datagram, for its next hop. -/
def Emission.Carries (e : Emission) (g : UInt32 × IPv4Datagram) : Prop :=
  e.nextHop = g.1 ∧ g.2.serialize = some e.frame.payload

namespace NetworkInterface

/-! ### What a call can do -/

/-- An ARP message that is not a reply: learn, and answer a request for our address. -/
def answer (i : NetworkInterface) (m : ARPMessage) : NetworkInterface :=
  if m.opcode == ARPMessage.opcodeRequest && m.targetIpAddress == i.ipAddress then
    (i.learn m).pushFrame (i.arpFrame m.senderEthernetAddress (i.arpReply m))
  else i.learn m

/-- An ARP reply: learn, and send what waits for its sender. -/
def acceptReply (i : NetworkInterface) (m : ARPMessage) : NetworkInterface :=
  ({ i.learn m with
      arpRequests := i.arpRequests.erase m.senderIpAddress }.flushPending
    m.senderIpAddress m.senderEthernetAddress).1

inductive Effect (i : NetworkInterface) : Op → NetworkInterface → Prop
  | immediate {dgram : IPv4Datagram} {hop : UInt32} {dst : EthernetAddress} {time : ℕ}
      {payload : BufferList} (hcache : i.arpCache.find? hop = some (dst, time))
      (hpayload : dgram.serialize = some payload) :
      Effect i (.sendDatagram dgram hop) (i.pushFrame (i.ipv4Frame dst payload))
  | refused {dgram : IPv4Datagram} {hop : UInt32} {dst : EthernetAddress} {time : ℕ}
      (hcache : i.arpCache.find? hop = some (dst, time)) (hthrows : dgram.serialize = none) :
      Effect i (.sendDatagram dgram hop) i
  | waits {dgram : IPv4Datagram} {hop : UInt32} (hcache : i.arpCache.find? hop = none) :
      Effect i (.sendDatagram dgram hop) ((i.enqueue dgram hop).requestAddress hop)
  | ignored {frame : EthernetFrame} (harp : i.arpMessage? frame = none) :
      Effect i (.recvFrame frame) i
  | request {frame : EthernetFrame} {m : ARPMessage} (harp : i.arpMessage? frame = some m)
      (hopcode : m.opcode ≠ ARPMessage.opcodeReply) : Effect i (.recvFrame frame) (i.answer m)
  | reply {frame : EthernetFrame} {m : ARPMessage} (harp : i.arpMessage? frame = some m)
      (hopcode : m.opcode = ARPMessage.opcodeReply) :
      Effect i (.recvFrame frame) (i.acceptReply m)
  | tick (ms : ℕ) : Effect i (.tick ms) (i.tick ms)

/-- A frame without an ARP message changes nothing, one with a message is handled by `recvArp`. -/
theorem recvFrame_state (i : NetworkInterface) (frame : EthernetFrame) :
    (i.recvFrame frame).1 =
      match i.arpMessage? frame with
      | none => i
      | some m => (i.recvArp m).1 := by
  unfold recvFrame arpMessage?
  by_cases hours : i.accepts frame = true
  · rw [if_neg (by simp [hours])]
    by_cases htype : (frame.header.type == EthernetHeader.typeIPv4) = true
    · have harp : (frame.header.type == EthernetHeader.typeARP) = false := by
        rw [beq_iff_eq.mp htype]
        decide
      rw [if_pos htype, if_neg (by simp [harp])]
      split
      · rfl
      · split <;> rfl
    · rw [if_neg htype]
      by_cases harp : (frame.header.type == EthernetHeader.typeARP) = true
      · rw [if_pos harp, if_pos (by simp [hours, harp])]
        split
        · rfl
        · split <;> rfl
      · rw [if_neg harp, if_neg (by simp [harp])]
  · rw [if_pos (by simp [hours]), if_neg (by simp [hours])]

theorem recvArp_state (i : NetworkInterface) (m : ARPMessage) :
    (i.recvArp m).1 =
      if m.opcode = ARPMessage.opcodeReply then i.acceptReply m else i.answer m := by
  unfold recvArp answer
  by_cases hreply : m.opcode = ARPMessage.opcodeReply
  · rw [if_pos hreply, hreply]
    rfl
  · rw [if_neg hreply]
    by_cases hours : (m.opcode == ARPMessage.opcodeRequest && m.targetIpAddress == i.ipAddress) =
        true
    · rw [if_pos hours]
      exact congrArg Prod.fst (if_pos hours)
    · rw [if_neg hours]
      exact congrArg Prod.fst ((if_neg hours).trans (if_neg (by simpa using hreply)))

theorem step_effect (i : NetworkInterface) (op : Op) : Effect i op (i.step op) := by
  cases op with
  | sendDatagram dgram hop =>
      show Effect i _ (i.sendDatagram dgram hop).1
      unfold sendDatagram
      split
      · rename_i dst time hcache
        split
        · rename_i payload hpayload
          exact Effect.immediate hcache hpayload
        · rename_i hthrows
          exact Effect.refused hcache hthrows
      · rename_i hcache
        exact Effect.waits hcache
  | recvFrame frame =>
      show Effect i _ (i.recvFrame frame).1
      rw [recvFrame_state]
      split
      · rename_i harp
        exact Effect.ignored harp
      · rename_i m harp
        rw [recvArp_state]
        by_cases hreply : m.opcode = ARPMessage.opcodeReply
        · rw [if_pos hreply]
          exact Effect.reply harp hreply
        · rw [if_neg hreply]
          exact Effect.request harp hreply
  | tick ms => exact Effect.tick ms

/-! ### Frames -/

section Frames

variable (i : NetworkInterface)

theorem ipv4Frames_append (frames : List EthernetFrame) :
    { i with framesOut := i.framesOut ++ frames }.ipv4Frames =
      i.ipv4Frames ++ frames.filter fun frame => frame.header.type == EthernetHeader.typeIPv4 :=
  List.filter_append _ _

theorem ipv4Frames_pushFrame_ipv4 (dst : EthernetAddress) (payload : BufferList) :
    (i.pushFrame (i.ipv4Frame dst payload)).ipv4Frames =
      i.ipv4Frames ++ [i.ipv4Frame dst payload] :=
  i.ipv4Frames_append [i.ipv4Frame dst payload]

theorem ipv4Frames_pushFrame_arp {frame : EthernetFrame}
    (h : frame.header.type = EthernetHeader.typeARP) :
    (i.pushFrame frame).ipv4Frames = i.ipv4Frames := by
  refine (i.ipv4Frames_append [frame]).trans ?_
  rw [List.filter_cons_of_neg (by rw [h]; decide), List.filter_nil, List.append_nil]

/-- A request changes neither the IPv4 frames nor the cache nor what waits. -/
theorem requestAddress_frame (ip : UInt32) :
    (i.requestAddress ip).ipv4Frames = i.ipv4Frames ∧
      (i.requestAddress ip).arpCache = i.arpCache ∧
      (i.requestAddress ip).pendingDatagrams = i.pendingDatagrams ∧
      (i.requestAddress ip).ethernetAddress = i.ethernetAddress := by
  unfold requestAddress
  split
  · exact ⟨rfl, rfl, rfl, rfl⟩
  · exact ⟨i.ipv4Frames_pushFrame_arp rfl, rfl, rfl, rfl⟩

/-- An answer changes the cache and nothing else that matters. -/
theorem answer_frame (m : ARPMessage) :
    (i.answer m).ipv4Frames = i.ipv4Frames ∧ (i.answer m).arpCache = (i.learn m).arpCache ∧
      (i.answer m).pendingDatagrams = i.pendingDatagrams ∧
      (i.answer m).ethernetAddress = i.ethernetAddress := by
  unfold answer
  split
  · exact ⟨(i.learn m).ipv4Frames_pushFrame_arp rfl, rfl, rfl, rfl⟩
  · exact ⟨rfl, rfl, rfl, rfl⟩

/-- Serializable datagrams are all sent. -/
theorem serializeQueue_of_serializable {queue : List IPv4Datagram}
    (h : ∀ dgram ∈ queue, dgram.serialize.isSome) :
    (serializeQueue queue).2 = [] ∧
      List.Forall₂ (fun payload dgram => IPv4Datagram.serialize dgram = some payload)
        (serializeQueue queue).1 queue := by
  induction queue with
  | nil => exact ⟨rfl, List.Forall₂.nil⟩
  | cons dgram rest ih =>
      obtain ⟨hleft, hsent⟩ := ih fun d hd => h d (List.mem_cons_of_mem _ hd)
      obtain ⟨payload, hpayload⟩ := Option.isSome_iff_exists.mp (h dgram List.mem_cons_self)
      rw [serializeQueue, hpayload]
      exact ⟨hleft, List.Forall₂.cons hpayload hsent⟩

/-- If something is left, it begins with a datagram that cannot be serialized. -/
theorem serializeQueue_left_ne_nil {queue : List IPv4Datagram}
    (h : ∃ dgram ∈ queue, dgram.serialize = none) : (serializeQueue queue).2 ≠ [] := by
  induction queue with
  | nil => exact absurd h (by simp)
  | cons dgram rest ih =>
      rw [serializeQueue]
      rcases hpayload : dgram.serialize with _ | payload
      · exact List.cons_ne_nil _ _
      · obtain ⟨d, hd, hnone⟩ := h
        rcases List.mem_cons.mp hd with rfl | hd
        · rw [hpayload] at hnone
          exact absurd hnone (by simp)
        · exact ih ⟨d, hd, hnone⟩

/-- A reply changes the cache as every message does. -/
theorem acceptReply_frame (m : ARPMessage) :
    (i.acceptReply m).arpCache = (i.learn m).arpCache ∧
      (i.acceptReply m).ethernetAddress = i.ethernetAddress := by
  unfold acceptReply flushPending
  split
  · exact ⟨rfl, rfl⟩
  · dsimp only
    split <;> exact ⟨rfl, rfl⟩

/-- A reply emits nothing but IPv4 frames. -/
theorem acceptReply_framesOut (m : ARPMessage) :
    ∃ payloads : List BufferList, (i.acceptReply m).framesOut =
      i.framesOut ++ payloads.map (i.ipv4Frame m.senderEthernetAddress) := by
  unfold acceptReply flushPending
  split
  · exact ⟨[], (List.append_nil _).symm⟩
  · dsimp only
    split <;> exact ⟨_, rfl⟩

/-- If what waits for the sender can be serialized, a reply sends all of it. -/
theorem acceptReply_sends {m : ARPMessage}
    (h : ∀ dgram ∈ i.pending m.senderIpAddress, dgram.serialize.isSome) :
    ∃ payloads,
      List.Forall₂ (fun payload dgram => IPv4Datagram.serialize dgram = some payload) payloads
        (i.pending m.senderIpAddress) ∧
      (i.acceptReply m).ipv4Frames =
        i.ipv4Frames ++ payloads.map (i.ipv4Frame m.senderEthernetAddress) ∧
      (i.acceptReply m).pendingDatagrams = i.pendingDatagrams.erase m.senderIpAddress := by
  unfold acceptReply flushPending
  dsimp only [learn]
  rcases hqueue : i.pendingDatagrams.find? m.senderIpAddress with _ | queue
  · have hnone : i.pending m.senderIpAddress = [] := by rw [pending, hqueue]; rfl
    rw [hnone]
    refine ⟨[], List.Forall₂.nil, (List.append_nil _).symm, ?_⟩
    exact (SortedMap.erase_eq_self hqueue).symm
  · have hsome : i.pending m.senderIpAddress = queue := by rw [pending, hqueue]; rfl
    rw [hsome] at h ⊢
    obtain ⟨hleft, hsent⟩ := serializeQueue_of_serializable h
    refine ⟨(serializeQueue queue).1, hsent, ?_, ?_⟩
    · dsimp only
      rw [hleft, if_pos List.isEmpty_nil]
      refine (i.ipv4Frames_append _).trans (congrArg _ (List.filter_eq_self.mpr ?_))
      intro frame hframe
      obtain ⟨payload, -, rfl⟩ := List.mem_map.mp hframe
      exact beq_self_eq_true _
    · dsimp only
      rw [hleft, if_pos List.isEmpty_nil]

/-- If something that waits for the sender cannot be serialized, something is left waiting. -/
theorem acceptReply_leaves {m : ARPMessage}
    (h : ∃ dgram ∈ i.pending m.senderIpAddress, dgram.serialize = none) :
    (i.acceptReply m).pending m.senderIpAddress ≠ [] := by
  unfold acceptReply flushPending
  dsimp only [learn]
  rcases hqueue : i.pendingDatagrams.find? m.senderIpAddress with _ | queue
  · rw [pending, hqueue] at h
    exact absurd h (by simp)
  · rw [pending, hqueue] at h
    have hleft := serializeQueue_left_ne_nil h
    dsimp only
    rw [if_neg (by simpa using hleft)]
    show ((i.pendingDatagrams.assign _ _).find? _).getD [] ≠ []
    rw [SortedMap.find?_assign, if_pos rfl]
    exact hleft

/-! ### The maps -/

theorem pending_enqueue (dgram : IPv4Datagram) (hop ip : UInt32) :
    (i.enqueue dgram hop).pending ip =
      if ip = hop then i.pending hop ++ [dgram] else i.pending ip := by
  show ((i.pendingDatagrams.assign _ _).find? ip).getD [] = _
  rw [SortedMap.find?_assign]
  split <;> rfl

theorem learn_find? (m : ARPMessage) (ip : UInt32) :
    (i.learn m).arpCache.find? ip =
      if ip = m.senderIpAddress then some (m.senderEthernetAddress, arpCacheTimeout)
      else i.arpCache.find? ip :=
  SortedMap.find?_assign _ _ _ _

/-- Every call but `tick` leaves the cache as it is, or learns from the message it brings. -/
theorem step_arpCache {op : Op} (htick : ∀ ms, op ≠ .tick ms) :
    (i.step op).arpCache = (i.arp? op).elim i.arpCache fun m => (i.learn m).arpCache := by
  have heffect := i.step_effect op
  generalize i.step op = i' at heffect
  cases heffect with
  | immediate | refused => rfl
  | @waits dgram hop hcache => exact ((i.enqueue dgram hop).requestAddress_frame hop).2.1
  | ignored harp => rw [arp?, harp, Option.elim_none]
  | @request frame m harp hopcode => rw [arp?, harp, Option.elim_some, (i.answer_frame m).2.1]
  | @reply frame m harp hopcode => rw [arp?, harp, Option.elim_some, (i.acceptReply_frame m).1]
  | tick ms => exact absurd rfl (htick ms)

/-- A timer with more than `ms` left is counted down, any other one is dropped. -/
theorem expire_find? {V : Type} (time : V → ℕ) (setTime : V → ℕ → V) (ms : ℕ)
    (timers : SortedMap UInt32 V) (ip : UInt32) :
    (expire time setTime ms timers).find? ip =
      (timers.find? ip).bind fun v =>
        if time v ≤ ms then none else some (setTime v (time v - ms)) := by
  rw [expire, SortedMap.find?_mapValues, SortedMap.find?_filter]
  cases timers.find? ip with
  | none => rfl
  | some v =>
      by_cases htime : time v ≤ ms
      · rw [Option.filter_some, if_neg (by simp [htime]), Option.bind_some, if_pos htime]
        rfl
      · rw [Option.filter_some, if_pos (by simp [htime]), Option.bind_some, if_neg htime]
        rfl

/-- The clock only removes mappings. -/
theorem tick_find? {ms : ℕ} {ip : UInt32} {dst : EthernetAddress} {time : ℕ}
    (h : (i.tick ms).arpCache.find? ip = some (dst, time)) :
    ∃ time', i.arpCache.find? ip = some (dst, time') := by
  rw [tick, expire_find?, Option.bind_eq_some_iff] at h
  obtain ⟨⟨dst', time'⟩, hfind, hv⟩ := h
  split at hv
  · cases hv
  · obtain ⟨rfl, -⟩ := Prod.mk.inj (Option.some.inj hv)
    exact ⟨time', hfind⟩

/-- The entries at one key, and the queue at that key. -/
theorem queued_of_find? {ip : UInt32} {queue : List IPv4Datagram}
    (h : i.pendingDatagrams.find? ip = some queue) :
    i.queued.Perm (queue.map (ip, ·) ++
      (i.pendingDatagrams.erase ip).entries.flatMap fun e => e.2.map (e.1, ·)) :=
  (SortedMap.perm_of_find? h).flatMap_right _

/-- What waits, apart from one next hop. -/
theorem queued_split (ip : UInt32) :
    i.queued.Perm ((i.pending ip).map (ip, ·) ++
      (i.pendingDatagrams.erase ip).entries.flatMap fun e => e.2.map (e.1, ·)) := by
  rcases hqueue : i.pendingDatagrams.find? ip with _ | queue
  · rw [pending, hqueue, SortedMap.erase_eq_self hqueue]
    exact List.Perm.refl _
  · rw [pending, hqueue]
    exact i.queued_of_find? hqueue

theorem queued_enqueue (dgram : IPv4Datagram) (hop : UInt32) :
    (i.enqueue dgram hop).queued.Perm (i.queued ++ [(hop, dgram)]) := by
  have hassign := (i.pendingDatagrams.assign_perm hop (i.pending hop ++ [dgram])).flatMap_right
    fun e => e.2.map (e.1, ·)
  refine hassign.trans ?_
  rw [List.flatMap_cons, List.map_append, List.map_singleton]
  refine List.Perm.trans ?_ ((i.queued_split hop).append_right _).symm
  rw [List.append_assoc, List.append_assoc]
  exact (List.perm_append_comm).append_left _

end Frames

end NetworkInterface

end CourseNet
