import CourseNet.InterfaceLog

/-!
# The timing of ARP

Two countdowns per IP address: a mapping is kept for thirty seconds after the latest ARP message
that carried it, and a request is not repeated for five seconds.  A reply drops the countdown of the
request, but it starts that of the mapping, which lasts longer and holds requests off just as well
(`HoldsOff`).  The observer adds up the ticks, so how the time is split does not matter.
-/

namespace CourseNet

/-- The IP address that a frame asks for, if it carries an ARP request. -/
def EthernetFrame.requested? (frame : EthernetFrame) : Option UInt32 :=
  if frame.header.type = EthernetHeader.typeARP then
    match BufferList.toBuffer frame.payload with
    | none => none
    | some buffer =>
        match ({} : ARPMessage).parse buffer with
        | (m, .noError) =>
            if m.opcode = ARPMessage.opcodeRequest then some m.targetIpAddress else none
        | _ => none
  else none

namespace NetworkInterface

/-- The time that a call lets pass. -/
def Op.elapsed : Op → ℕ
  | .tick ms => ms
  | _ => 0

/-- The IP address that a call broadcasts a request for. -/
def request? (i : NetworkInterface) : Op → Option UInt32
  | .sendDatagram _ hop =>
      if i.arpCache.find? hop = none ∧ i.arpRequests.find? hop = none then some hop else none
  | .recvFrame _ => none
  | .tick _ => none

/-! ### The frames of a call -/

variable {i : NetworkInterface} {ip : UInt32} {n : ℕ}

theorem requested?_ipv4Frame (dst : EthernetAddress) (payload : BufferList) :
    (i.ipv4Frame dst payload).requested? = none :=
  if_neg (show EthernetHeader.typeIPv4 ≠ EthernetHeader.typeARP from by decide)

theorem requested?_arpFrame (dst : EthernetAddress) {m : ARPMessage} (h : m.supported = true) :
    (i.arpFrame dst m).requested? =
      if m.opcode = ARPMessage.opcodeRequest then some m.targetIpAddress else none := by
  refine (if_pos rfl).trans ?_
  show (match ({} : ARPMessage).parse m.toBytes with
    | (m, .noError) =>
        if m.opcode = ARPMessage.opcodeRequest then some m.targetIpAddress else none
    | _ => none) = _
  rw [ARPMessage.parse_toBytes _ _ h]

/-- A request is broadcast for a next hop without a mapping and without a request under way. -/
theorem request?_eq_some {op : Op} :
    i.request? op = some ip ↔ ∃ dgram, op = .sendDatagram dgram ip ∧
      i.arpCache.find? ip = none ∧ i.arpRequests.find? ip = none := by
  cases op with
  | sendDatagram dgram hop =>
      show (if _ then some hop else none) = some ip ↔ _
      split
      · rename_i hnone
        constructor
        · rintro ⟨⟩
          exact ⟨dgram, rfl, hnone⟩
        · rintro ⟨_, ⟨⟩, -⟩
          rfl
      · rename_i hsome
        refine iff_of_false nofun ?_
        rintro ⟨_, ⟨⟩, hnone⟩
        exact hsome hnone
  | recvFrame frame => exact iff_of_false nofun (by rintro ⟨_, ⟨⟩, -⟩)
  | tick ms => exact iff_of_false nofun (by rintro ⟨_, ⟨⟩, -⟩)

/-- What a call appends to the queue of frames asks for the address that `request?` tells. -/
theorem step_requests (i : NetworkInterface) (op : Op) :
    ∃ frames, (i.step op).framesOut = i.framesOut ++ frames ∧
      frames.filterMap EthernetFrame.requested? = (i.request? op).toList := by
  have hquiet : i.request? op = none → ∃ frames, i.framesOut = i.framesOut ++ frames ∧
      frames.filterMap EthernetFrame.requested? = (i.request? op).toList := by
    intro hnone
    rw [hnone]
    exact ⟨[], (List.append_nil _).symm, rfl⟩
  have hframe : ∀ {frame : EthernetFrame}, frame.requested? = i.request? op →
      [frame].filterMap EthernetFrame.requested? = (i.request? op).toList := by
    intro frame hframe
    rw [List.filterMap_cons, hframe]
    cases i.request? op <;> rfl
  have hknown : ∀ {dgram : IPv4Datagram} {hop : UInt32} {v : EthernetAddress × ℕ},
      i.arpCache.find? hop = some v → i.request? (.sendDatagram dgram hop) = none := by
    intro dgram hop v hcache
    refine if_neg fun hnone => ?_
    rw [hcache] at hnone
    cases hnone.1
  have heffect := i.step_effect op
  generalize i.step op = i' at heffect
  cases heffect with
  | @immediate dgram hop dst time payload hcache hpayload =>
      exact ⟨[i.ipv4Frame dst payload], rfl,
        hframe ((requested?_ipv4Frame _ _).trans (hknown hcache).symm)⟩
  | refused hcache hthrows => exact hquiet (hknown hcache)
  | @waits dgram hop hcache =>
      unfold requestAddress
      rcases hrequest : (i.enqueue dgram hop).arpRequests.find? hop with _ | r
      · refine ⟨[i.arpFrame ethernetBroadcast (i.arpRequest hop)], rfl, hframe ?_⟩
        rw [request?_eq_some.mpr ⟨dgram, rfl, hcache, hrequest⟩]
        exact requested?_arpFrame _ rfl
      · refine hquiet (if_neg fun hnone => ?_)
        have hnone : (i.enqueue dgram hop).arpRequests.find? hop = none := hnone.2
        rw [hrequest] at hnone
        cases hnone
  | ignored harp => exact hquiet rfl
  | @request frame m harp hopcode =>
      unfold answer
      split
      · exact ⟨[(i.learn m).arpFrame _ _], rfl, hframe (requested?_arpFrame _ rfl)⟩
      · exact hquiet rfl
  | @reply frame m harp hopcode =>
      obtain ⟨payloads, hframes⟩ := i.acceptReply_framesOut m
      refine ⟨_, hframes, List.filterMap_eq_nil_iff.mpr fun frame' hmem => ?_⟩
      obtain ⟨payload, -, rfl⟩ := List.mem_map.mp hmem
      exact requested?_ipv4Frame _ _
  | tick ms => exact hquiet rfl

/-! ### The maps after a call -/

/-- How long a mapping lives after a call that is no `tick`. -/
theorem step_mapping (i : NetworkInterface) {op : Op} (htick : ∀ ms, op ≠ .tick ms) (ip : UInt32) :
    ((i.step op).arpCache.find? ip).map Prod.snd =
      if (i.arp? op).map (·.senderIpAddress) = some ip then some arpCacheTimeout
      else (i.arpCache.find? ip).map Prod.snd := by
  rw [i.step_arpCache htick]
  rcases i.arp? op with _ | m
  · rw [Option.elim_none, if_neg (by simp)]
  · rw [Option.elim_some, learn_find?, Option.map_some]
    by_cases hip : ip = m.senderIpAddress
    · rw [if_pos hip, if_pos (congrArg some hip.symm)]
      rfl
    · rw [if_neg hip, if_neg fun heq => hip (Option.some.inj heq).symm]

/-- The same for the requests: a record stays, unless a message from that address arrives. -/
theorem step_arpRequests (i : NetworkInterface) {op : Op} (htick : ∀ ms, op ≠ .tick ms) {r : ℕ}
    (h : i.arpRequests.find? ip = some r) (harp : (i.arp? op).map (·.senderIpAddress) ≠ some ip) :
    (i.step op).arpRequests.find? ip = some r := by
  have heffect := i.step_effect op
  generalize i.step op = i' at heffect
  cases heffect with
  | immediate | refused | ignored => exact h
  | @waits dgram hop hcache =>
      unfold requestAddress
      split
      · exact h
      · rename_i hnone
        refine (SortedMap.find?_assign _ _ _ _).trans ((if_neg fun hip => ?_).trans h)
        have hnone : i.arpRequests.find? hop = none := hnone
        rw [← hip, h] at hnone
        cases hnone
  | @request frame m harp' hopcode =>
      unfold answer
      split <;> exact h
  | @reply frame m harp' hopcode =>
      have hne : ip ≠ m.senderIpAddress := fun hip => harp (by rw [arp?, harp', hip]; rfl)
      have hrequests : (i.acceptReply m).arpRequests = i.arpRequests.erase m.senderIpAddress := by
        unfold acceptReply flushPending
        split
        · rfl
        · dsimp only
          split <;> rfl
      rw [hrequests, SortedMap.find?_erase, if_neg hne, h]
  | tick ms => exact absurd rfl (htick ms)

/-- The mapping of `ip` after some time. -/
theorem tick_arpCache (i : NetworkInterface) (ms : ℕ) (ip : UInt32) :
    ((i.tick ms).arpCache.find? ip).map Prod.snd =
      ((i.arpCache.find? ip).map Prod.snd).bind fun r =>
        if r ≤ ms then none else some (r - ms) := by
  refine (congrArg (Option.map Prod.snd) (expire_find? _ _ _ _ _)).trans ?_
  cases i.arpCache.find? ip with
  | none => rfl
  | some v =>
      rw [Option.bind_some, Option.map_some, Option.bind_some]
      split <;> rfl

/-! ### What holds a request off -/

/-- No request for `ip` goes out before `n` ms of tick time have passed: one is under way, or the
mapping is known, for at least that long. -/
def HoldsOff (i : NetworkInterface) (ip : UInt32) (n : ℕ) : Prop :=
  (∃ r, i.arpRequests.find? ip = some r ∧ n ≤ r) ∨
    ∃ r, (i.arpCache.find? ip).map Prod.snd = some r ∧ n ≤ r

theorem HoldsOff.not_requested (h : i.HoldsOff ip n) (op : Op) : i.request? op ≠ some ip := by
  intro hrequest
  obtain ⟨dgram, -, hcache, hnone⟩ := request?_eq_some.mp hrequest
  rcases h with ⟨r, hr, -⟩ | ⟨r, hr, -⟩
  · rw [hnone] at hr
    cases hr
  · rw [hcache] at hr
    cases hr

/-- A request starts its countdown. -/
theorem holdsOff_of_requested {op : Op} (h : i.request? op = some ip) :
    (i.step op).HoldsOff ip arpRequestTimeout := by
  obtain ⟨dgram, rfl, hcache, hnone⟩ := request?_eq_some.mp h
  refine Or.inl ⟨arpRequestTimeout, ?_, le_refl _⟩
  have hrequest : (i.enqueue dgram ip).arpRequests.find? ip = none := hnone
  show (i.sendDatagram dgram ip).1.arpRequests.find? ip = _
  rw [sendDatagram, hcache]
  dsimp only
  rw [requestAddress, hrequest]
  exact (SortedMap.find?_assign _ _ _ _).trans (if_pos rfl)

/-- A call uses up the time it lets pass; a message from `ip` starts the longer countdown. -/
theorem HoldsOff.step (h : i.HoldsOff ip n) (hn : n ≤ arpCacheTimeout) (op : Op)
    (hlt : op.elapsed < n) : (i.step op).HoldsOff ip (n - op.elapsed) := by
  have hcall : (∀ ms, op ≠ .tick ms) → (i.step op).HoldsOff ip n := by
    intro htick
    have hcache := i.step_mapping htick ip
    by_cases harp : (i.arp? op).map (·.senderIpAddress) = some ip
    · rw [if_pos harp] at hcache
      exact Or.inr ⟨arpCacheTimeout, hcache, hn⟩
    · rw [if_neg harp] at hcache
      rcases h with ⟨r, hr, hle⟩ | ⟨r, hr, hle⟩
      · exact Or.inl ⟨r, i.step_arpRequests htick hr harp, hle⟩
      · exact Or.inr ⟨r, hcache.trans hr, hle⟩
  cases op with
  | sendDatagram dgram hop => exact hcall nofun
  | recvFrame frame => exact hcall nofun
  | tick ms =>
      have hlt : ms < n := hlt
      rcases h with ⟨r, hr, hle⟩ | ⟨r, hr, hle⟩
      · refine Or.inl ⟨r - ms, ?_, Nat.sub_le_sub_right hle ms⟩
        refine (expire_find? _ _ _ _ _).trans ?_
        rw [hr]
        exact if_neg (not_le.mpr (hlt.trans_le hle))
      · refine Or.inr ⟨r - ms, ?_, Nat.sub_le_sub_right hle ms⟩
        refine (i.tick_arpCache ms ip).trans ?_
        rw [hr]
        exact if_neg (not_le.mpr (hlt.trans_le hle))

/-- The call puts an IPv4 frame with the datagram on the queue at once. -/
def SendsAtOnce (i : NetworkInterface) (dgram : IPv4Datagram) (hop : UInt32) : Prop :=
  ∃ dst payload, dgram.serialize = some payload ∧
    (i.step (.sendDatagram dgram hop)).ipv4Frames = i.ipv4Frames ++ [i.ipv4Frame dst payload]

/-- That is the case just if the mapping is known and the datagram can be serialized; otherwise the
call emits no IPv4 frame. -/
theorem sendsAtOnce_iff (i : NetworkInterface) (dgram : IPv4Datagram) (hop : UInt32) :
    (i.SendsAtOnce dgram hop ↔ dgram.serialize.isSome ∧ (i.arpCache.find? hop).isSome) ∧
      (¬i.SendsAtOnce dgram hop →
        (i.step (.sendDatagram dgram hop)).ipv4Frames = i.ipv4Frames) := by
  have hsilent : (i.step (.sendDatagram dgram hop)).ipv4Frames = i.ipv4Frames →
      ¬(dgram.serialize.isSome ∧ (i.arpCache.find? hop).isSome) →
      (i.SendsAtOnce dgram hop ↔ dgram.serialize.isSome ∧ (i.arpCache.find? hop).isSome) ∧
        (¬i.SendsAtOnce dgram hop →
          (i.step (.sendDatagram dgram hop)).ipv4Frames = i.ipv4Frames) := by
    intro hframes hnot
    refine ⟨iff_of_false ?_ hnot, fun _ => hframes⟩
    rintro ⟨dst, payload, -, hsends⟩
    rw [hframes] at hsends
    exact absurd (List.self_eq_append_right.mp hsends) (List.cons_ne_nil _ _)
  have hstep : i.step (.sendDatagram dgram hop) = (i.sendDatagram dgram hop).1 := rfl
  rw [sendDatagram] at hstep
  rcases hcache : i.arpCache.find? hop with _ | ⟨dst, time⟩
  · rw [hcache] at hstep hsilent
    refine hsilent ?_ (by simp)
    rw [hstep]
    exact ((i.enqueue dgram hop).requestAddress_frame hop).1
  · rw [hcache] at hstep hsilent
    rcases hserialize : dgram.serialize with _ | payload
    · rw [hserialize] at hstep hsilent
      exact hsilent (by rw [hstep]) (by simp)
    · have hsends : i.SendsAtOnce dgram hop := by
        refine ⟨dst, payload, hserialize, ?_⟩
        rw [hstep, hserialize]
        exact i.ipv4Frames_pushFrame_ipv4 dst payload
      exact ⟨iff_of_true hsends ⟨rfl, rfl⟩, fun hnot => absurd hsends hnot⟩

end NetworkInterface

/-- An interface, the tick time so far, when acceptable ARP messages arrived, the latest first, with
the IP address of the sender, and when ARP requests were emitted, in order, with the IP address
asked for. -/
structure ARPLog where
  iface : NetworkInterface
  now : ℕ
  heard : List (UInt32 × ℕ)
  requested : List (UInt32 × ℕ)

namespace ARPLog

open NetworkInterface

def new (ethernetAddress : EthernetAddress) (ipAddress : UInt32) : ARPLog :=
  ⟨NetworkInterface.new ethernetAddress ipAddress, 0, [], []⟩

/-- The frames that a call adds. -/
def newFrames (l : ARPLog) (op : Op) : List EthernetFrame :=
  (l.iface.step op).framesOut.drop l.iface.framesOut.length

def observe (l : ARPLog) (op : Op) : ARPLog where
  iface := l.iface.step op
  now := l.now + op.elapsed
  heard := ((l.iface.arp? op).map fun m => (m.senderIpAddress, l.now)).toList ++ l.heard
  requested :=
    l.requested ++ ((l.newFrames op).filterMap EthernetFrame.requested?).map fun ip => (ip, l.now)

/-- The history of a run of calls. -/
abbrev run (l : ARPLog) (ops : List Op) : ARPLog := StepSystem.run observe l ops

/-- When the latest acceptable ARP message from `ip` arrived. -/
def latest? (l : ARPLog) (ip : UInt32) : Option ℕ :=
  (l.heard.find? fun e => e.1 == ip).map Prod.snd

/-- An acceptable ARP message from `ip` was received, and the latest one is younger than
`ARP_CACHE_TIMEOUT`. -/
def Fresh (l : ARPLog) (ip : UInt32) : Prop :=
  ∃ t, l.latest? ip = some t ∧ l.now < t + arpCacheTimeout

/-- How long the mapping of `ip` has to live, by the history. -/
def remaining? (l : ARPLog) (ip : UInt32) : Option ℕ :=
  (l.latest? ip).bind fun t =>
    if l.now < t + arpCacheTimeout then some (t + arpCacheTimeout - l.now) else none

theorem fresh_iff {l : ARPLog} {ip : UInt32} : l.Fresh ip ↔ (l.remaining? ip).isSome := by
  unfold Fresh remaining?
  cases l.latest? ip with
  | none => exact iff_of_false (by rintro ⟨t, ⟨⟩, -⟩) (by simp)
  | some t =>
      rw [Option.bind_some]
      by_cases hfresh : l.now < t + arpCacheTimeout
      · rw [if_pos hfresh]
        exact iff_of_true ⟨t, rfl, hfresh⟩ rfl
      · rw [if_neg hfresh]
        exact iff_of_false (by rintro ⟨_, ⟨⟩, h⟩; exact hfresh h) (by simp)

theorem observe_latest? (l : ARPLog) (op : Op) (ip : UInt32) :
    (l.observe op).latest? ip =
      if (l.iface.arp? op).map (·.senderIpAddress) = some ip then some l.now else l.latest? ip := by
  unfold latest? observe
  cases l.iface.arp? op with
  | none => rfl
  | some m =>
      show (((m.senderIpAddress, l.now) :: l.heard).find? _).map _ = _
      rw [Option.map_some]
      by_cases hip : m.senderIpAddress = ip
      · rw [List.find?_cons_of_pos (by simpa using hip), if_pos (congrArg some hip)]
        rfl
      · rw [List.find?_cons_of_neg (by simpa using hip), if_neg (mt Option.some.inj hip)]

theorem observe_requested (l : ARPLog) (op : Op) :
    (l.observe op).requested =
      l.requested ++ (l.iface.request? op).toList.map fun ip => (ip, l.now) := by
  obtain ⟨frames, hframes, hrequests⟩ := l.iface.step_requests op
  have hnew : l.newFrames op = frames := by rw [newFrames, hframes, List.drop_left]
  show l.requested ++ ((l.newFrames op).filterMap EthernetFrame.requested?).map _ = _
  rw [hnew, hrequests]

/-- What ties the countdowns to the history. -/
structure Timed (l : ARPLog) : Prop where
  cache : ∀ ip, (l.iface.arpCache.find? ip).map Prod.snd = l.remaining? ip
  past : ∀ e ∈ l.requested, e.2 ≤ l.now
  quiet : ∀ e ∈ l.requested, l.now < e.2 + arpRequestTimeout →
    l.iface.HoldsOff e.1 (e.2 + arpRequestTimeout - l.now)
  separated : l.requested.Pairwise fun a b => a.1 = b.1 → a.2 + arpRequestTimeout ≤ b.2

theorem Timed.new (ethernetAddress : EthernetAddress) (ipAddress : UInt32) :
    (ARPLog.new ethernetAddress ipAddress).Timed :=
  ⟨fun _ => rfl, nofun, nofun, List.Pairwise.nil⟩

/-- The mappings count down with the tick time, however it is split. -/
theorem Timed.observe_cache {l : ARPLog} (h : l.Timed) (op : Op) (ip : UInt32) :
    ((l.observe op).iface.arpCache.find? ip).map Prod.snd = (l.observe op).remaining? ip := by
  have hcall : (∀ ms, op ≠ .tick ms) → op.elapsed = 0 →
      ((l.iface.step op).arpCache.find? ip).map Prod.snd = (l.observe op).remaining? ip := by
    intro htick helapsed
    have hnow : (l.observe op).now = l.now := congrArg (l.now + ·) helapsed
    rw [l.iface.step_mapping htick, remaining?, observe_latest?, hnow]
    split
    · rw [Option.bind_some, if_pos (Nat.lt_add_of_pos_right (by decide)), Nat.add_sub_cancel_left]
    · exact h.cache ip
  cases op with
  | sendDatagram dgram hop => exact hcall nofun rfl
  | recvFrame frame => exact hcall nofun rfl
  | tick ms =>
      show ((l.iface.tick ms).arpCache.find? ip).map Prod.snd = _
      have hlatest : (l.observe (.tick ms)).latest? ip = l.latest? ip := rfl
      have hnow : (l.observe (.tick ms)).now = l.now + ms := rfl
      rw [tick_arpCache, h.cache, remaining?, remaining?, hlatest, hnow]
      cases l.latest? ip with
      | none => rfl
      | some t =>
          rw [Option.bind_some, Option.bind_some]
          by_cases hfresh : l.now + ms < t + arpCacheTimeout
          · rw [if_pos (by omega), if_pos hfresh, Option.bind_some, if_neg (by omega),
              Nat.sub_sub]
          · rw [if_neg hfresh]
            split
            · rw [Option.bind_some, if_pos (by omega)]
            · rfl

/-- The step: one call. -/
theorem Timed.observe {l : ARPLog} (h : l.Timed) (op : Op) : (l.observe op).Timed := by
  have hrequested := l.observe_requested op
  have hmem : ∀ {e : UInt32 × ℕ}, e ∈ (l.observe op).requested →
      e ∈ l.requested ∨ (l.iface.request? op = some e.1 ∧ e.2 = l.now) := by
    intro e he
    rw [hrequested] at he
    rcases List.mem_append.mp he with he | he
    · exact Or.inl he
    · obtain ⟨ip, hip, rfl⟩ := List.mem_map.mp he
      exact Or.inr ⟨Option.mem_toList.mp hip, rfl⟩
  have hheld : ∀ e ∈ l.requested, e.2 + arpRequestTimeout - l.now ≤ arpCacheTimeout := by
    intro e he
    have hpast := h.past e he
    have hshorter : arpRequestTimeout ≤ arpCacheTimeout := by decide
    omega
  refine ⟨h.observe_cache op, fun e he => ?_, fun e he hlt => ?_, ?_⟩
  · show e.2 ≤ l.now + op.elapsed
    rcases hmem he with he | ⟨-, htime⟩
    · exact (h.past e he).trans (Nat.le_add_right _ _)
    · exact htime.le.trans (Nat.le_add_right _ _)
  · have hlt : l.now + op.elapsed < e.2 + arpRequestTimeout := hlt
    show (l.iface.step op).HoldsOff e.1 (e.2 + arpRequestTimeout - (l.now + op.elapsed))
    rcases hmem he with he | ⟨hrequest, htime⟩
    · rw [← Nat.sub_sub]
      exact (h.quiet e he (by omega)).step (hheld e he) op (by omega)
    · -- a new request has its whole countdown before it
      have helapsed : op.elapsed = 0 := by
        obtain ⟨dgram, rfl, -⟩ := request?_eq_some.mp hrequest
        rfl
      rw [htime, helapsed, Nat.add_zero, Nat.add_sub_cancel_left]
      exact holdsOff_of_requested hrequest
  · rw [hrequested, List.pairwise_append]
    refine ⟨h.separated, ?_, fun a ha b hb hip => ?_⟩
    · cases l.iface.request? op with
      | none => exact List.Pairwise.nil
      | some ip => exact List.pairwise_singleton _ _
    · obtain ⟨ip, hrequest, rfl⟩ := List.mem_map.mp hb
      by_contra hclose
      have hquiet := h.quiet a ha (not_le.mp hclose)
      rw [show a.1 = ip from hip] at hquiet
      exact hquiet.not_requested op (Option.mem_toList.mp hrequest)

theorem run_now (l : ARPLog) (ops : List Op) :
    (l.run ops).now = l.now + (ops.map Op.elapsed).sum := by
  induction ops generalizing l with
  | nil => rfl
  | cons op ops ih =>
      rw [List.map_cons, List.sum_cons, ← Nat.add_assoc]
      exact ih (l.observe op)

/-- **ARP timing.**  After any calls, with `now` the tick time so far: `send_datagram` emits the
IPv4 frame of a datagram at once if and only if the datagram has one (it can be serialized) and an
acceptable ARP message from the next hop was received with the latest one less than
`ARP_CACHE_TIMEOUT` ago, and otherwise it emits no IPv4 frame; and any two ARP requests for the same
IP address are at least `ARP_REQUEST_TIMEOUT` apart. -/
theorem arp_timing (ethernetAddress : EthernetAddress) (ipAddress : UInt32) (ops : List Op) :
    let l := (new ethernetAddress ipAddress).run ops
    l.now = (ops.map Op.elapsed).sum ∧
    (∀ dgram hop,
      (l.iface.SendsAtOnce dgram hop ↔ dgram.serialize.isSome ∧ l.Fresh hop) ∧
      (¬l.iface.SendsAtOnce dgram hop →
        (l.iface.step (.sendDatagram dgram hop)).ipv4Frames = l.iface.ipv4Frames)) ∧
    l.requested.Pairwise fun a b => a.1 = b.1 → a.2 + arpRequestTimeout ≤ b.2 := by
  intro l
  have htimed : l.Timed := StepSystem.run_invariant (P := Timed) (fun _ op h => h.observe op) ops
    (Timed.new ethernetAddress ipAddress)
  refine ⟨?_, fun dgram hop => ?_, htimed.separated⟩
  · exact (run_now _ ops).trans (Nat.zero_add _)
  · obtain ⟨hiff, hsilent⟩ := l.iface.sendsAtOnce_iff dgram hop
    rw [fresh_iff, ← htimed.cache hop, Option.isSome_map]
    exact ⟨hiff, hsilent⟩

/-- Requests at 0 and 5000 ms, and a mapping that is used until 30000 ms after the reply. -/
example :
    let dgram : IPv4Datagram := { header := { len := 20 } }
    let reply : ARPMessage := { opcode := 2, senderIpAddress := 10, targetIpAddress := 5 }
    let mac : EthernetAddress := Vector.replicate 6 1
    let frame : EthernetFrame :=
      { header := { dst := mac, src := mac, type := 0x806 }, payload := [reply.toBytes] }
    let asked := (new mac 5).run
      [.sendDatagram dgram 10, .tick 4999, .sendDatagram dgram 10, .tick 1, .sendDatagram dgram 10]
    let told := asked.run [.recvFrame frame, .tick 29999]
    asked.requested = [(10, 0), (10, 5000)] ∧ asked.iface.ipv4Frames.length = 0 ∧
      told.iface.ipv4Frames.length = 3 ∧
      (told.observe (.sendDatagram dgram 10)).iface.ipv4Frames.length = 4 ∧
      (told.run [.tick 1, .sendDatagram dgram 10]).iface.ipv4Frames.length = 3 := by
  decide +kernel

end ARPLog

end CourseNet
