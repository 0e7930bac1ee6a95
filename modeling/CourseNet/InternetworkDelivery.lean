import CourseNet.DatagramOrder
import CourseNet.InternetworkSafety
import Mathlib.Data.List.Nodup

/-!
# Nothing waits on a quiet segment

On segments that hand every frame to every other interface once, in any order and after any delay, an
interface that waits for an address is being answered: its request is on the way, or the reply is
(`Awaited`).  So when everything that two interfaces emitted has reached the other one, nothing waits,
and each datagram that one was given for the other has come up there exactly once.
-/

namespace CourseNet

namespace NetworkInterface

variable {i : NetworkInterface} {ip : UInt32}

/-- Datagrams wait for the address, or a request for it counts as under way. -/
def Waits (i : NetworkInterface) (ip : UInt32) : Prop :=
  i.pending ip ≠ [] ∨ i.arpRequests.find? ip ≠ none

theorem Waits.congr {i' : NetworkInterface} (hpending : i'.pendingDatagrams = i.pendingDatagrams)
    (hrequests : i'.arpRequests = i.arpRequests) (h : i'.Waits ip) : i.Waits ip := by
  unfold Waits pending at *
  rwa [← hpending, ← hrequests]

/-- A call that makes it wait for an address asks for the address. -/
theorem waits_sendDatagram {dgram : IPv4Datagram} {hop : UInt32}
    (h : (i.step (.sendDatagram dgram hop)).Waits ip) :
    i.Waits ip ∨ (ip = hop ∧ (i.step (.sendDatagram dgram hop)).framesOut =
      i.framesOut ++ [i.arpFrame ethernetBroadcast (i.arpRequest hop)]) := by
  have heffect := i.step_effect (.sendDatagram dgram hop)
  generalize i.step (.sendDatagram dgram hop) = i' at heffect h ⊢
  cases heffect with
  | immediate hcache hpayload => exact Or.inl h
  | refused hcache hthrows => exact Or.inl h
  | waits hcache =>
      have hpending := (i.enqueue dgram hop).requestAddress_frame hop
      rcases hrequest : i.arpRequests.find? hop with _ | r
      · have heq : (i.enqueue dgram hop).requestAddress hop =
            { (i.enqueue dgram hop).pushFrame
                (i.arpFrame ethernetBroadcast (i.arpRequest hop)) with
              arpRequests := i.arpRequests.assign hop arpRequestTimeout } := by
          unfold requestAddress
          rw [show (i.enqueue dgram hop).arpRequests.find? hop = none from hrequest]
          rfl
        rw [heq] at h ⊢
        by_cases hip : ip = hop
        · exact Or.inr ⟨hip, rfl⟩
        · left
          rcases h with h | h
          · left
            have h : (i.enqueue dgram hop).pending ip ≠ [] := h
            rwa [pending_enqueue, if_neg hip] at h
          · right
            have h : (i.arpRequests.assign hop arpRequestTimeout).find? ip ≠ none := h
            rwa [SortedMap.find?_assign, if_neg hip] at h
      · have heq : (i.enqueue dgram hop).requestAddress hop = i.enqueue dgram hop := by
          unfold requestAddress
          rw [show (i.enqueue dgram hop).arpRequests.find? hop = some r from hrequest]
        rw [heq] at h
        left
        by_cases hip : ip = hop
        · exact Or.inr (by rw [hip, hrequest]; simp)
        · rcases h with h | h
          · rw [pending_enqueue, if_neg hip] at h
            exact Or.inl h
          · exact Or.inr h

theorem waits_tick {ms : ℕ} (h : (i.step (.tick ms)).Waits ip) : i.Waits ip := by
  refine h.imp id fun hsome hnone => hsome ?_
  show (expire _ _ ms i.arpRequests).find? ip = none
  rw [expire_find?, hnone, Option.bind_none]

/-- A frame ends a wait or leaves it; a reply ends the wait for its sender. -/
theorem waits_recvFrame (hserial : i.Serializable) {frame : EthernetFrame}
    (h : (i.step (.recvFrame frame)).Waits ip) :
    i.Waits ip ∧ ∀ m, i.arpMessage? frame = some m → m.opcode = ARPMessage.opcodeReply →
      m.senderIpAddress ≠ ip := by
  have heffect := i.step_effect (.recvFrame frame)
  generalize i.step (.recvFrame frame) = i' at heffect h
  cases heffect with
  | ignored harp =>
      refine ⟨h, fun m hm => ?_⟩
      rw [harp] at hm
      cases hm
  | @request _ m harp hopcode =>
      refine ⟨h.congr (i.answer_frame m).2.2.1 ?_, fun m' hm' hreply => ?_⟩
      · unfold answer
        split <;> rfl
      · obtain rfl := Option.some.inj (harp.symm.trans hm')
        exact absurd hreply hopcode
  | @reply _ m harp hopcode =>
      obtain ⟨-, -, -, hpending⟩ := i.acceptReply_sends (hserial m.senderIpAddress)
      have hrequests : (i.acceptReply m).arpRequests = i.arpRequests.erase m.senderIpAddress := by
        unfold acceptReply flushPending
        split
        · rfl
        · dsimp only
          split <;> rfl
      unfold Waits pending at h
      rw [hpending, hrequests, SortedMap.find?_erase, SortedMap.find?_erase] at h
      by_cases hip : ip = m.senderIpAddress
      · rw [if_pos hip, if_pos hip] at h
        simp at h
      · rw [if_neg hip, if_neg hip] at h
        refine ⟨h, fun m' hm' _ => ?_⟩
        obtain rfl := Option.some.inj (harp.symm.trans hm')
        exact Ne.symm hip

/-- A request for our address is answered. -/
theorem framesOut_of_request {frame : EthernetFrame} {m : ARPMessage}
    (harp : i.arpMessage? frame = some m) (hopcode : m.opcode = ARPMessage.opcodeRequest)
    (htarget : m.targetIpAddress = i.ipAddress) :
    (i.step (.recvFrame frame)).framesOut =
      i.framesOut ++ [i.arpFrame m.senderEthernetAddress (i.arpReply m)] := by
  show (i.recvFrame frame).1.framesOut = _
  rw [recvFrame_state, harp]
  dsimp only
  rw [recvArp_state, if_neg (by rw [hopcode]; decide), answer,
    if_pos (by rw [hopcode, htarget]; simp)]
  rfl

end NetworkInterface

open AsyncNetworkInterface (handed?)

variable {ρ η : Type} [DecidableEq ρ] [DecidableEq η]

/-- Which frames of `p` were handed to `q`, in order. -/
def numbers (p q : Port ρ η) (deliveries : List (Port ρ η × ℕ × Port ρ η)) : List ℕ :=
  (deliveries.filter fun x => x.1 == p && x.2.2 == q).map (·.2.1)

/-- The datagrams from `p` that came up at `q`, in order. -/
def between (p q : Port ρ η) (arrivals : List (Port ρ η × Port ρ η × IPv4Datagram)) :
    List IPv4Datagram :=
  (arrivals.filter fun a => a.1 == p && a.2.1 == q).map (·.2.2)

theorem numbers_append (p q : Port ρ η) (l l' : List (Port ρ η × ℕ × Port ρ η)) :
    numbers p q (l ++ l') = numbers p q l ++ numbers p q l' := by
  rw [numbers, List.filter_append, List.map_append]
  rfl

theorem between_append (p q : Port ρ η) (l l' : List (Port ρ η × Port ρ η × IPv4Datagram)) :
    between p q (l ++ l') = between p q l ++ between p q l' := by
  rw [between, List.filter_append, List.map_append]
  rfl

theorem mem_numbers {p q : Port ρ η} {deliveries : List (Port ρ η × ℕ × Port ρ η)} {k : ℕ} :
    k ∈ numbers p q deliveries ↔ (p, k, q) ∈ deliveries := by
  unfold numbers
  rw [List.mem_map]
  constructor
  · rintro ⟨⟨p', k', q'⟩, hmem, rfl⟩
    obtain ⟨hmem, heq⟩ := List.mem_filter.mp hmem
    simp only [Bool.and_eq_true, beq_iff_eq] at heq
    rw [← heq.1, ← heq.2]
    exact hmem
  · exact fun hmem => ⟨(p, k, q), List.mem_filter.mpr ⟨hmem, by simp⟩, rfl⟩

/-- A frame of `p` that has not reached `q`. -/
def InFlight (logs : Port ρ η → InterfaceLog) (deliveries : List (Port ρ η × ℕ × Port ρ η))
    (p q : Port ρ η) (frame : EthernetFrame) : Prop :=
  ∃ k, (logs p).iface.framesOut[k]? = some frame ∧ (p, k, q) ∉ deliveries

/-- A request of `p` for the address of `q`. -/
structure Asks (t : Topology ρ η) (p q : Port ρ η) (frame : EthernetFrame) (m : ARPMessage) :
    Prop where
  message : frame.CarriesARP m
  dst : frame.header.dst = ethernetBroadcast
  opcode : m.opcode = ARPMessage.opcodeRequest
  sender : m.senderEthernetAddress = t.ethernetAddress p
  target : m.targetIpAddress = t.ipAddress q

/-- The reply of `q` to `p`. -/
structure Answers (t : Topology ρ η) (p q : Port ρ η) (frame : EthernetFrame) (m : ARPMessage) :
    Prop where
  message : frame.CarriesARP m
  dst : frame.header.dst = t.ethernetAddress p
  opcode : m.opcode = ARPMessage.opcodeReply
  sender : m.senderIpAddress = t.ipAddress q

/-- The address of `q` is on its way to `p`. -/
def Awaited (t : Topology ρ η) (logs : Port ρ η → InterfaceLog)
    (deliveries : List (Port ρ η × ℕ × Port ρ η)) (p q : Port ρ η) : Prop :=
  (∃ frame m, InFlight logs deliveries p q frame ∧ Asks t p q frame m) ∨
    ∃ frame m, InFlight logs deliveries q p frame ∧ Answers t p q frame m

/-- The book-keeping of segments that lose and double nothing. -/
structure Exact (t : Topology ρ η) (logs : Port ρ η → InterfaceLog)
    (deliveries : List (Port ρ η × ℕ × Port ρ η))
    (arrivals : List (Port ρ η × Port ρ η × IPv4Datagram)) : Prop where
  nodup : deliveries.Nodup
  emitted : ∀ p k q, (p, k, q) ∈ deliveries → k < (logs p).iface.framesOut.length
  arrived : ∀ p q, between p q arrivals = (numbers p q deliveries).filterMap fun k =>
    ((logs p).iface.framesOut[k]?).bind (handed? (t.ethernetAddress q))
  awaited : ∀ p q, t.Hears p q → (logs p).iface.Waits (t.ipAddress q) →
    Awaited t logs deliveries p q

namespace Exact

variable {t : Topology ρ η} {logs logs' : Port ρ η → InterfaceLog} {p q : Port ρ η}
  {deliveries : List (Port ρ η × ℕ × Port ρ η)}
  {arrivals : List (Port ρ η × Port ρ η × IPv4Datagram)} {frame : EthernetFrame}

theorem new (t : Topology ρ η) :
    Exact t (fun p => InterfaceLog.new (t.ethernetAddress p) (t.ipAddress p)) [] [] where
  nodup := List.nodup_nil
  emitted := fun _ _ _ h => absurd h List.not_mem_nil
  arrived := fun _ _ => rfl
  awaited := fun p q _ hwaits => by
    rcases hwaits with h | h
    · exact absurd rfl h
    · exact absurd rfl h

/-- A call of one interface only adds to the frames of that one. -/
theorem observed_framesOut (logs : Port ρ η → InterfaceLog) (p : Port ρ η)
    (op : NetworkInterface.Op) (q : Port ρ η) :
    (logs q).iface.framesOut <+: (observed logs p op q).iface.framesOut := by
  by_cases hq : q = p
  · subst hq
    rw [observed_self]
    obtain ⟨frames, heq, -⟩ := (logs q).iface.step_frames op
    exact ⟨frames, heq.symm⟩
  · rw [observed_of_ne hq]

omit [DecidableEq ρ] [DecidableEq η] in
theorem inFlight_mono (hgrows : (logs p).iface.framesOut <+: (logs' p).iface.framesOut)
    (h : InFlight logs deliveries p q frame) : InFlight logs' deliveries p q frame := by
  obtain ⟨k, hget, hnot⟩ := h
  obtain ⟨hk, -⟩ := List.getElem?_eq_some_iff.mp hget
  refine ⟨k, ?_, hnot⟩
  obtain ⟨frames, hframes⟩ := hgrows
  rw [← hframes, List.getElem?_append_left hk, hget]

omit [DecidableEq ρ] [DecidableEq η] in
theorem awaited_mono (hgrows : ∀ p, (logs p).iface.framesOut <+: (logs' p).iface.framesOut)
    (h : Awaited t logs deliveries p q) : Awaited t logs' deliveries p q := by
  rcases h with ⟨frame, m, hflight, hasks⟩ | ⟨frame, m, hflight, hanswers⟩
  · exact Or.inl ⟨frame, m, inFlight_mono (hgrows p) hflight, hasks⟩
  · exact Or.inr ⟨frame, m, inFlight_mono (hgrows q) hflight, hanswers⟩

/-- What was handed over is what it was. -/
theorem arrived_mono (h : Exact t logs deliveries arrivals)
    (hgrows : ∀ p, (logs p).iface.framesOut <+: (logs' p).iface.framesOut) (p q : Port ρ η) :
    between p q arrivals = (numbers p q deliveries).filterMap fun k =>
      ((logs' p).iface.framesOut[k]?).bind (handed? (t.ethernetAddress q)) := by
  rw [h.arrived p q]
  refine List.filterMap_congr fun k hk => ?_
  have hlt := h.emitted p k q (mem_numbers.mp hk)
  obtain ⟨frames, hframes⟩ := hgrows p
  rw [← hframes, List.getElem?_append_left hlt]

/-- The frame that a call has just added is in flight. -/
theorem inFlight_new (h : Exact t logs deliveries arrivals) {op : NetworkInterface.Op}
    (hframes : ((logs p).iface.step op).framesOut = (logs p).iface.framesOut ++ [frame])
    (q : Port ρ η) : InFlight (observed logs p op) deliveries p q frame := by
  refine ⟨(logs p).iface.framesOut.length, ?_, fun hmem => ?_⟩
  · rw [observed_self]
    show ((logs p).iface.step op).framesOut[_]? = _
    rw [hframes, List.getElem?_concat_length]
  · exact absurd (h.emitted _ _ _ hmem) (lt_irrefl _)

/-- A call of an owner: a datagram, or the clock. -/
theorem own (h : Exact t logs deliveries arrivals) (htruthful : Truthful t p (logs p))
    {op : NetworkInterface.Op} (hop : ∀ frame, op ≠ .recvFrame frame) :
    Exact t (observed logs p op) deliveries arrivals := by
  have hgrows := observed_framesOut logs p op
  refine ⟨h.nodup, fun p' k q' hmem => ?_, h.arrived_mono hgrows, fun p' q' hhears hwaits => ?_⟩
  · exact (h.emitted p' k q' hmem).trans_le (hgrows p').length_le
  · by_cases hp : p' = p
    · subst hp
      rw [observed_self] at hwaits
      cases op with
      | sendDatagram dgram hop' =>
          rcases NetworkInterface.waits_sendDatagram hwaits with hbefore | ⟨hip, hframes⟩
          · exact awaited_mono hgrows (h.awaited p' q' hhears hbefore)
          · refine Or.inl ⟨_, (logs p').iface.arpRequest hop', h.inFlight_new hframes q', ?_⟩
            exact ⟨NetworkInterface.carriesARP_arpFrame _ _ rfl, rfl, rfl, htruthful.ethernetAddress,
              hip.symm⟩
      | recvFrame frame => exact absurd rfl (hop frame)
      | tick ms =>
          exact awaited_mono hgrows (h.awaited p' q' hhears (NetworkInterface.waits_tick hwaits))
    · rw [observed_of_ne hp] at hwaits
      exact awaited_mono hgrows (h.awaited p' q' hhears hwaits)

omit [DecidableEq ρ] [DecidableEq η] in
/-- A frame that has not just been handed over is still in flight. -/
theorem inFlight_append {x : Port ρ η × ℕ × Port ρ η} {k : ℕ}
    (hget : (logs p).iface.framesOut[k]? = some frame) (hnot : (p, k, q) ∉ deliveries)
    (hne : (p, k, q) ≠ x) : InFlight logs (deliveries ++ [x]) p q frame :=
  ⟨k, hget, fun hmem => (List.mem_append.mp hmem).elim hnot fun hx =>
    hne (List.mem_singleton.mp hx)⟩

omit [DecidableEq ρ] [DecidableEq η] in
/-- What stays in flight when a frame is handed over. -/
theorem awaited_append (h : Awaited t logs deliveries p q) (x : Port ρ η × ℕ × Port ρ η)
    (hrequest : ∀ k frame m, (p, k, q) = x → (logs p).iface.framesOut[k]? = some frame →
      ¬Asks t p q frame m)
    (hreply : ∀ k frame m, (q, k, p) = x → (logs q).iface.framesOut[k]? = some frame →
      ¬Answers t p q frame m) : Awaited t logs (deliveries ++ [x]) p q := by
  rcases h with ⟨frame, m, ⟨k, hget, hnot⟩, hasks⟩ | ⟨frame, m, ⟨k, hget, hnot⟩, hanswers⟩
  · exact Or.inl ⟨frame, m, inFlight_append hget hnot fun heq =>
      hrequest k frame m heq hget hasks, hasks⟩
  · exact Or.inr ⟨frame, m, inFlight_append hget hnot fun heq =>
      hreply k frame m heq hget hanswers, hanswers⟩

/-- A frame is handed over, for the first time. -/
theorem deliver (h : Exact t logs deliveries arrivals) (htruthful : Truthful t q (logs q))
    (hhears : t.Hears p q) {k : ℕ} (hget : (logs p).iface.framesOut[k]? = some frame)
    (hfresh : (p, k, q) ∉ deliveries) :
    Exact t (observed logs q (.recvFrame frame.concatenated)) (deliveries ++ [(p, k, q)])
      (arrivals ++ (handed? (t.ethernetAddress q) frame).toList.map (p, q, ·)) := by
  have hgrows := observed_framesOut logs q (.recvFrame frame.concatenated)
  obtain ⟨hk, -⟩ := List.getElem?_eq_some_iff.mp hget
  refine ⟨?_, fun p' k' q' hmem => ?_, fun p' q' => ?_, fun p' q' hhears' hwaits => ?_⟩
  · exact List.nodup_append.mpr ⟨h.nodup, List.pairwise_singleton _ _, fun x hx y hy heq =>
      hfresh (by rwa [← List.mem_singleton.mp hy, ← heq])⟩
  · rcases List.mem_append.mp hmem with hold | hnew
    · exact (h.emitted p' k' q' hold).trans_le (hgrows p').length_le
    · obtain ⟨rfl, rfl, rfl⟩ : p' = p ∧ k' = k ∧ q' = q := by simpa using hnew
      exact hk.trans_le (hgrows p').length_le
  · rw [between_append, numbers_append, List.filterMap_append, ← h.arrived_mono hgrows]
    refine congrArg _ ?_
    by_cases hpq : p = p' ∧ q = q'
    · obtain ⟨rfl, rfl⟩ := hpq
      obtain ⟨frames, hframes⟩ := hgrows p
      have hget' : (observed logs q (.recvFrame frame.concatenated) p).iface.framesOut[k]? =
          some frame := by
        rw [← hframes, List.getElem?_append_left hk, hget]
      have hnumbers : numbers p q [(p, k, q)] = [k] := by
        unfold numbers
        rw [List.filter_cons_of_pos (by simp)]
        rfl
      rw [hnumbers, List.filterMap_cons, hget', Option.bind_some]
      cases handed? (t.ethernetAddress q) frame with
      | none => rfl
      | some d =>
          unfold between
          rw [Option.toList_some, List.map_singleton, List.filter_cons_of_pos (by simp)]
          rfl
    · have hnumbers : numbers p' q' [(p, k, q)] = [] := by
        unfold numbers
        rw [List.filter_cons_of_neg (by simpa using hpq)]
        rfl
      have hbetween : between p' q'
          ((handed? (t.ethernetAddress q) frame).toList.map (p, q, ·)) = [] := by
        unfold between
        rw [List.filter_eq_nil_iff.mpr fun a ha => ?_, List.map_nil]
        obtain ⟨d, -, rfl⟩ := List.mem_map.mp ha
        simpa using hpq
      rw [hnumbers, hbetween]
      rfl
  · by_cases hp : p' = q
    · -- the one that is handed the frame: a reply would have ended the wait
      subst hp
      rw [observed_self] at hwaits
      obtain ⟨hbefore, hnoReply⟩ :=
        NetworkInterface.waits_recvFrame htruthful.conserved.serializable hwaits
      refine awaited_mono hgrows (awaited_append (h.awaited p' q' hhears' hbefore) _ ?_ ?_)
      · intro k' frame' m heq _ _
        exact hhears.2 (congrArg (fun x : Port ρ η × ℕ × Port ρ η => x.1) heq).symm
      · intro k' frame' m heq hget' hanswers
        obtain ⟨rfl, rfl, -⟩ : q' = p ∧ k' = k ∧ p' = p' := by simpa using heq
        obtain rfl := Option.some.inj (hget.symm.trans hget')
        refine hnoReply m ?_ hanswers.opcode hanswers.sender
        rw [NetworkInterface.arpMessage?_of_carriesARP hanswers.message,
          if_pos ((htruthful.accepts_iff frame).mpr (Or.inl hanswers.dst))]
    · rw [observed_of_ne hp] at hwaits
      have hbefore := h.awaited p' q' hhears' hwaits
      by_cases hrequest : ∃ m, p' = p ∧ q' = q ∧ Asks t p q frame m
      · -- the request has arrived: the reply leaves
        obtain ⟨m, rfl, rfl, hasks⟩ := hrequest
        have harp : (logs q').iface.arpMessage? frame.concatenated = some m := by
          rw [NetworkInterface.arpMessage?_of_carriesARP hasks.message,
            if_pos ((htruthful.accepts_iff frame).mpr (Or.inr hasks.dst))]
        have hframes := NetworkInterface.framesOut_of_request harp hasks.opcode
          (hasks.target.trans htruthful.ipAddress.symm)
        obtain ⟨k', hget', hnot⟩ := h.inFlight_new hframes p'
        refine Or.inr ⟨_, (logs q').iface.arpReply m, inFlight_append hget' hnot fun heq => ?_, ?_⟩
        · exact hp (congrArg (fun x : Port ρ η × ℕ × Port ρ η => x.1) heq).symm
        · exact ⟨NetworkInterface.carriesARP_arpFrame _ _ rfl, hasks.sender, rfl,
            htruthful.ipAddress⟩
      · refine awaited_mono hgrows (awaited_append hbefore _ ?_ ?_)
        · intro k' frame' m heq hget' hasks
          obtain ⟨rfl, rfl, rfl⟩ : p' = p ∧ k' = k ∧ q' = q := by simpa using heq
          obtain rfl := Option.some.inj (hget.symm.trans hget')
          exact hrequest ⟨m, rfl, rfl, hasks⟩
        · intro k' frame' m heq _ _
          exact hp (congrArg (fun x : Port ρ η × ℕ × Port ρ η => x.2.2) heq)

end Exact

namespace Internetwork

variable {t : Topology ρ η} {n : Internetwork ρ η} {p q : Port ρ η}

/-- A frame that has not been handed over before. -/
def Fresh (n : Internetwork ρ η) : Op ρ η → Prop
  | .deliver p k q => (p, k, q) ∉ n.deliveries
  | _ => True

instance (n : Internetwork ρ η) (op : Op ρ η) : Decidable (n.Fresh op) :=
  match op with
  | .sendTo _ _ _ => isTrue trivial
  | .route _ => isTrue trivial
  | .deliver _ _ _ => inferInstanceAs (Decidable (_ ∉ _))
  | .tick _ _ => isTrue trivial

omit [DecidableEq ρ] [DecidableEq η] in
theorem Sound.getElem_framesOut (h : Sound t n) {k : ℕ} {frame : EthernetFrame}
    (hget : (n.framesOut p)[k]? = some frame) : (n.logs p).iface.framesOut[k]? = some frame := by
  unfold framesOut at hget
  rcases hp : n.port? p with _ | i
  · rw [hp] at hget
    cases hget
  · rw [hp] at hget
    rw [← h.mirrors p i hp]
    exact hget

/-- The decisions of a router give datagrams and nothing else. -/
theorem exact_decided {r : ρ} {ds : List Decision} {logs : Port ρ η → InterfaceLog}
    {deliveries : List (Port ρ η × ℕ × Port ρ η)}
    {arrivals : List (Port ρ η × Port ρ η × IPv4Datagram)} (hrecorded : Recorded t logs)
    (hds : ∀ d ∈ ds, Sends t logs r d) (h : Exact t logs deliveries arrivals) :
    Exact t (ds.foldl (decided r) logs) deliveries arrivals := by
  induction ds generalizing logs with
  | nil => exact h
  | cons d ds ih =>
      have hone := Follows.decided hrecorded (hds d List.mem_cons_self)
      refine ih hone.recorded (fun d' hd' num dgram nextHop heq =>
        hone.travels (hds d' (List.mem_cons_of_mem _ hd') num dgram nextHop heq)) ?_
      cases d with
      | discard => exact h
      | undefined => exact h
      | send num dgram nextHop => exact h.own (hrecorded.truthful _) nofun

omit [DecidableEq ρ] [DecidableEq η] in
/-- What one call of `deliver` queues. -/
theorem Sound.recvFrame_queue (h : Sound t n) {i : AsyncNetworkInterface}
    (hq : n.port? q = some i) (frame : EthernetFrame) :
    (i.recvFrame frame.concatenated).1.datagramsOut =
      i.datagramsOut ++ (handed? (t.ethernetAddress q) frame).toList := by
  have hmirror := h.mirrors q i hq
  have htruthful := h.recorded.truthful q
  have hserial : i.Serializable := by
    rw [hmirror]
    exact htruthful.conserved.serializable
  obtain ⟨hqueue, -⟩ := AsyncNetworkInterface.recvFrame_concatenated hserial frame
  rwa [hmirror, htruthful.ethernetAddress] at hqueue

theorem exact_step (hsound : Sound t n) (h : Exact t n.logs n.deliveries n.arrivals)
    {op : Op ρ η} (hop : n.Allowed t op) (hfresh : n.Fresh op) :
    Exact t (n.step op).logs (n.step op).deliveries (n.step op).arrivals := by
  cases op with
  | sendTo host dgram nextHop => exact h.own (hsound.recorded.truthful _) nofun
  | route r =>
      have hnext := (hsound.route r).2
      show Exact t ((n.routers r).route.2.1.foldl (watchDecision r) _).logs
        ((n.routers r).route.2.1.foldl (watchDecision r) _).deliveries
        ((n.routers r).route.2.1.foldl (watchDecision r) _).arrivals
      rw [foldl_watchDecision]
      refine exact_decided hsound.recorded (fun d hd => ?_) h
      rw [(Router.route_spec hnext).2.1, hsound.table] at hd
      obtain ⟨d', hd', rfl⟩ := List.mem_map.mp hd
      exact (hsound.decision r hd').2.2
  | deliver p k q =>
      unfold step
      rcases hframe : (n.framesOut p)[k]? with _ | frame
      · rwa [call_deliver_none (Or.inl hframe)]
      rcases hq : n.port? q with _ | i
      · rwa [call_deliver_none (Or.inr hq)]
      · rw [call_deliver hframe hq, hsound.recvFrame_queue hq, List.drop_left]
        show Exact t (observed (n.setPort q _).logs q _) _ _
        rw [(n.setPort_frame q _).1]
        exact h.deliver (hsound.recorded.truthful q) hop.1 (hsound.getElem_framesOut hframe) hfresh
  | tick p ms =>
      unfold step
      rcases hp : n.port? p with _ | i
      · rwa [call_tick_none hp]
      · obtain ⟨hlogs, hdeliveries, harrivals, -⟩ :=
          n.setPort_frame p { i with toNetworkInterface := i.toNetworkInterface.tick ms }
        rw [call_tick hp]
        show Exact t (observed (n.setPort p _).logs p (.tick ms)) (n.setPort p _).deliveries
          (n.setPort p _).arrivals
        rw [hlogs, hdeliveries, harrivals]
        exact h.own (hsound.recorded.truthful p) nofun

/-- What has come up at a host is what its interface has queued. -/
theorem host_arrivals {is : List (Op ρ η)}
    (h : StepSystem.Guarded step (Allowed t) (new t) is) (host : η) :
    let n := StepSystem.run step (new t) is
    (n.hosts host).datagramsOut =
      (n.arrivals.filter fun a => a.2.1 == .host host).map (·.2.2) := by
  suffices hrun : Sound t (StepSystem.run step (new t) is) ∧
      ((StepSystem.run step (new t) is).hosts host).datagramsOut =
        ((StepSystem.run step (new t) is).arrivals.filter fun a => a.2.1 == .host host).map
          (·.2.2) from hrun.2
  refine h.invariant (P := fun n => Sound t n ∧ (n.hosts host).datagramsOut =
    (n.arrivals.filter fun a => a.2.1 == .host host).map (·.2.2)) ?_ ⟨Sound.new t, rfl⟩
  intro n op hop hn
  obtain ⟨hsound, hqueue⟩ := hn
  refine ⟨(hsound.call hop).1, ?_⟩
  have hcalled : ∀ {p : Port ρ η} {i : AsyncNetworkInterface} (i' : AsyncNetworkInterface)
      {more : List IPv4Datagram}, n.port? p = some i → i'.datagramsOut = i.datagramsOut ++ more →
      ((n.setPort p i').hosts host).datagramsOut =
        (n.hosts host).datagramsOut ++ if p = .host host then more else [] := by
    intro p i i' more hp heq
    have hhost := port?_setPort hp i' (.host host)
    by_cases hh : p = .host host
    · subst hh
      rw [if_pos rfl] at hhost
      rw [show (n.setPort (.host host) i').hosts host = i' from Option.some.inj hhost, heq,
        if_pos rfl, ← Option.some.inj hp]
    · rw [if_neg (Ne.symm hh)] at hhost
      rw [if_neg hh, List.append_nil]
      exact congrArg _ (Option.some.inj hhost)
  cases op with
  | sendTo host' dgram nextHop =>
      have hp : n.port? (.host host') = some (n.hosts host') := rfl
      refine (hcalled ((n.hosts host').sendDatagram dgram nextHop).1 hp
        (List.append_nil _).symm).trans ?_
      rw [ite_self, List.append_nil]
      exact hqueue
  | route r =>
      show ((((n.routers r).route.2.1.foldl (watchDecision r) _).hosts host).datagramsOut) = _
      rw [foldl_watchDecision]
      refine hqueue.trans ?_
      show _ = (((n.routers r).route.2.1.foldl (watchDecision r) _).arrivals.filter _).map _
      rw [foldl_watchDecision]
  | deliver p k q =>
      unfold step
      rcases hframe : (n.framesOut p)[k]? with _ | frame
      · rwa [call_deliver_none (Or.inl hframe)]
      rcases hq : n.port? q with _ | i
      · rwa [call_deliver_none (Or.inr hq)]
      · have hrecv := hsound.recvFrame_queue hq frame
        rw [call_deliver hframe hq, hrecv, List.drop_left]
        refine (hcalled _ hq hrecv).trans ?_
        rw [hqueue, List.filter_append, List.map_append]
        refine congrArg _ ?_
        generalize (handed? (t.ethernetAddress q) frame).toList = more
        by_cases hh : q = .host host
        · rw [if_pos hh, List.filter_eq_self.mpr fun a ha => ?_, List.map_map]
          · exact (List.map_id _).symm
          · obtain ⟨d, -, rfl⟩ := List.mem_map.mp ha
            simpa using hh
        · rw [if_neg hh, List.filter_eq_nil_iff.mpr fun a ha => ?_, List.map_nil]
          obtain ⟨d, -, rfl⟩ := List.mem_map.mp ha
          simpa using hh
  | tick p ms =>
      unfold step
      rcases hp : n.port? p with _ | i
      · rwa [call_tick_none hp]
      · rw [call_tick hp]
        refine (hcalled { i with toNetworkInterface := i.toNetworkInterface.tick ms } hp
          (List.append_nil _).symm).trans ?_
        rw [ite_self, List.append_nil, hqueue]
        show _ = ((n.setPort p _).arrivals.filter _).map _
        rw [(n.setPort_frame p _).2.2.1]

/-! ### Everything has been handed over -/

/-- All that `p` emitted has been handed to `q`. -/
def HandedOver (n : Internetwork ρ η) (p q : Port ρ η) : Prop :=
  ∀ k < (n.framesOut p).length, (p, k, q) ∈ n.deliveries

instance (n : Internetwork ρ η) (p q : Port ρ η) : Decidable (n.HandedOver p q) :=
  inferInstanceAs (Decidable (∀ k < (n.framesOut p).length, (p, k, q) ∈ n.deliveries))

/-- Nothing is on its way between two interfaces. -/
def Quiet (n : Internetwork ρ η) (p q : Port ρ η) : Prop :=
  (n.port? p).isSome ∧ (n.port? q).isSome ∧ n.HandedOver p q ∧ n.HandedOver q p

instance (n : Internetwork ρ η) (p q : Port ρ η) : Decidable (n.Quiet p q) :=
  inferInstanceAs (Decidable (_ ∧ _))

/-- Then everything that came up is what the frames carry, in some order. -/
theorem between_perm {logs : Port ρ η → InterfaceLog}
    {deliveries : List (Port ρ η × ℕ × Port ρ η)}
    {arrivals : List (Port ρ η × Port ρ η × IPv4Datagram)}
    (h : Exact t logs deliveries arrivals)
    (hall : ∀ k < (logs p).iface.framesOut.length, (p, k, q) ∈ deliveries) :
    (between p q arrivals).Perm
      ((logs p).iface.framesOut.filterMap (handed? (t.ethernetAddress q))) := by
  have hnodup : (numbers p q deliveries).Nodup := by
    refine List.Nodup.map_on (fun x hx y hy heq => ?_) (h.nodup.filter _)
    obtain ⟨-, hx⟩ := List.mem_filter.mp hx
    obtain ⟨-, hy⟩ := List.mem_filter.mp hy
    simp only [Bool.and_eq_true, beq_iff_eq] at hx hy
    exact Prod.ext (hx.1.trans hy.1.symm) (Prod.ext heq (hx.2.trans hy.2.symm))
  have hperm : (numbers p q deliveries).Perm (List.range (logs p).iface.framesOut.length) := by
    refine (List.perm_ext_iff_of_nodup hnodup List.nodup_range).mpr fun k => ?_
    rw [mem_numbers, List.mem_range]
    exact ⟨h.emitted p k q, hall k⟩
  rw [h.arrived p q]
  refine (hperm.filterMap _).trans (List.Perm.of_eq ?_)
  generalize (logs p).iface.framesOut = frames
  induction frames using List.reverseRecOn with
  | nil => rfl
  | append_singleton frames frame ih =>
      rw [List.length_append, List.length_singleton, List.range_succ, List.filterMap_append,
        List.filterMap_append]
      refine congrArg₂ _ (Eq.trans (List.filterMap_congr fun k hk => ?_) ih) ?_
      · rw [List.getElem?_append_left (List.mem_range.mp hk)]
      · rw [List.filterMap_cons, List.getElem?_concat_length, Option.bind_some]
        rfl

/-- The datagrams in the frames for `q` are those sent to its IP address. -/
theorem handed_emissions (hunique : ∀ p q, t.segment p = t.segment q →
      t.ipAddress p = t.ipAddress q → p = q) (hhears : t.Hears p q) {es : List Emission}
    {sent : List (UInt32 × IPv4Datagram)} (hcarries : List.Forall₂ Emission.Carries es sent)
    (hes : ∀ e ∈ es, t.Neighbour p e.nextHop e.frame.header.dst ∧
      e.frame.header.type = EthernetHeader.typeIPv4)
    (hsent : ∀ g ∈ sent, g.2.Sendable) :
    List.Forall₂ IPv4Datagram.Copy (NetworkInterface.toHop (t.ipAddress q) sent)
      ((es.map (·.frame)).filterMap (handed? (t.ethernetAddress q))) := by
  induction hcarries with
  | nil => exact List.Forall₂.nil
  | @cons e g es sent hcarried _ ih =>
      have hrest := ih (fun e he => hes e (List.mem_cons_of_mem _ he))
        fun g hg => hsent g (List.mem_cons_of_mem _ hg)
      obtain ⟨⟨q', hneighbour, hip, haddress⟩, htype⟩ := hes e List.mem_cons_self
      obtain ⟨hhop, hserialize⟩ := hcarried
      have hsegment : t.segment q' = t.segment q := hneighbour.1.trans hhears.1
      show List.Forall₂ _ (((g :: sent).filter _).map _) ((e.frame :: es.map (·.frame)).filterMap _)
      by_cases hq : q' = q
      · subst hq
        obtain ⟨bufs, d, hbufs, hcopy, hparse⟩ := (hsent g List.mem_cons_self).read
        obtain rfl := Option.some.inj (hbufs.symm.trans hserialize)
        have hhanded : handed? (t.ethernetAddress q') e.frame = some d := by
          refine (if_pos ?_).trans (EthernetFrame.datagram?_concatenated htype hparse)
          rw [haddress, beq_self_eq_true, Bool.true_or]
        rw [List.filter_cons_of_pos (by rw [← hhop, hip, beq_self_eq_true]),
          List.filterMap_cons_some hhanded]
        exact List.Forall₂.cons hcopy hrest
      · have hne : t.ipAddress q' ≠ t.ipAddress q := fun heq => hq (hunique q' q hsegment heq)
        have hhanded : handed? (t.ethernetAddress q) e.frame = none := by
          refine if_neg ?_
          rw [Bool.or_eq_true, beq_iff_eq, beq_iff_eq, haddress]
          rintro (heq | heq)
          · exact hq (t.distinct q' q hsegment heq)
          · exact t.not_broadcast q' heq
        rw [List.filter_cons_of_neg (by rw [← hhop, hip]; simpa using hne),
          List.filterMap_cons_none hhanded]
        exact hrest

/-- Nothing waits for a next hop for which nothing is queued. -/
theorem toHop_queued {i : NetworkInterface} {ip : UInt32} (h : i.pending ip = []) :
    NetworkInterface.toHop ip i.queued = [] := by
  refine List.map_eq_nil_iff.mpr (List.filter_eq_nil_iff.mpr fun g hg hip => ?_)
  have hmem := (i.queued_split ip).mem_iff.mp hg
  rw [h, List.map_nil, List.nil_append] at hmem
  obtain ⟨e, he, hg'⟩ := List.mem_flatMap.mp hmem
  obtain ⟨d, -, rfl⟩ := List.mem_map.mp hg'
  exact (SortedMap.mem_erase.mp he).2 (beq_iff_eq.mp hip)

omit [DecidableEq ρ] [DecidableEq η] in
/-- The frames of an interface that exists are those of its history. -/
theorem Sound.framesOut_eq (h : Sound t n) (hp : (n.port? p).isSome) :
    n.framesOut p = (n.logs p).iface.framesOut := by
  obtain ⟨i, hi⟩ := Option.isSome_iff_exists.mp hp
  rw [framesOut, hi, ← h.mirrors p i hi]
  rfl

/-- **Nothing waits on a quiet segment, and nothing is lost or doubled.**  On segments whose IP
addresses are unique, in every run that hands no frame to the same interface twice, whatever the
order of the deliveries, the calls of the routers and hosts and the ticks: if all that each of two
interfaces emitted has been handed to the other, no datagram waits for the address of the other, and
the datagrams that came up there are, up to order, copies of those given for that address, each
once.  (Those given to a host are those it sent, and those that came up at a host are its queue.) -/
theorem quiet_exact (t : Topology ρ η)
    (hunique : ∀ p q, t.segment p = t.segment q → t.ipAddress p = t.ipAddress q → p = q)
    (is : List (Op ρ η))
    (h : StepSystem.Guarded step (fun n op => n.Allowed t op ∧ n.Fresh op) (new t) is)
    (p q : Port ρ η) (hhears : t.Hears p q) (hquiet : (StepSystem.run step (new t) is).Quiet p q) :
    let n := StepSystem.run step (new t) is
    (∀ i, n.port? p = some i → i.pending (t.ipAddress q) = []) ∧
      (∃ copies, List.Forall₂ IPv4Datagram.Copy
          (NetworkInterface.toHop (t.ipAddress q) (n.logs p).given) copies ∧
        (between p q n.arrivals).Perm copies) ∧
      ∀ host, (n.logs (.host host)).given = sentBy is host ∧
        (n.hosts host).datagramsOut =
          (n.arrivals.filter fun a => a.2.1 == .host host).map (·.2.2) := by
  intro n
  have hallowed : StepSystem.Guarded step (Allowed t) (new t) is := h.mono fun _ _ hop => hop.1
  obtain ⟨hsound, hexact⟩ : Sound t n ∧ Exact t n.logs n.deliveries n.arrivals :=
    h.invariant (P := fun n => Sound t n ∧ Exact t n.logs n.deliveries n.arrivals)
      (fun n op hop hn => ⟨(hn.1.call hop.1).1, exact_step hn.1 hn.2 hop.1 hop.2⟩)
      ⟨Sound.new t, Exact.new t⟩
  obtain ⟨hp, hq, hpq, hqp⟩ := hquiet
  have hpq : ∀ k < (n.logs p).iface.framesOut.length, (p, k, q) ∈ n.deliveries := by
    rw [← hsound.framesOut_eq hp]
    exact hpq
  have hqp : ∀ k < (n.logs q).iface.framesOut.length, (q, k, p) ∈ n.deliveries := by
    rw [← hsound.framesOut_eq hq]
    exact hqp
  have hnone : (n.logs p).iface.pending (t.ipAddress q) = [] := by
    by_contra hwaits
    rcases hexact.awaited p q hhears (Or.inl hwaits) with
      ⟨frame, m, ⟨k, hget, hnot⟩, -⟩ | ⟨frame, m, ⟨k, hget, hnot⟩, -⟩
    · exact hnot (hpq k (List.getElem?_eq_some_iff.mp hget).1)
    · exact hnot (hqp k (List.getElem?_eq_some_iff.mp hget).1)
  refine ⟨fun i hi => by rw [hsound.mirrors p i hi]; exact hnone, ?_, fun host =>
    ⟨congrFun (givenBy_run t is) host, host_arrivals hallowed host⟩⟩
  have htruthful := hsound.recorded.truthful p
  obtain ⟨sent, hcarries, hgiven⟩ := htruthful.conserved.conserved
  have hsent : (NetworkInterface.toHop (t.ipAddress q) (n.logs p).given).Perm
      (NetworkInterface.toHop (t.ipAddress q) sent) := by
    refine ((hgiven.filter _).map _).trans (List.Perm.of_eq ?_)
    show NetworkInterface.toHop _ (sent ++ _) = _
    rw [NetworkInterface.toHop_append, toHop_queued hnone, List.append_nil]
  have hcopies := handed_emissions hunique hhears hcarries
    (fun e he => ⟨htruthful.emissions e he, by
      have hmem : e.frame ∈ (n.logs p).iface.ipv4Frames := by
        rw [← htruthful.conserved.frames]
        exact List.mem_map_of_mem he
      exact beq_iff_eq.mp (List.mem_filter.mp hmem).2⟩)
    fun g hg => (hsound.recorded.given p g
      (hgiven.mem_iff.mpr (List.mem_append_left _ hg))).1
  rw [htruthful.conserved.frames] at hcopies
  have hframes : ((n.logs p).iface.ipv4Frames).filterMap (handed? (t.ethernetAddress q)) =
      (n.logs p).iface.framesOut.filterMap (handed? (t.ethernetAddress q)) := by
    rw [NetworkInterface.ipv4Frames, List.filterMap_filter]
    refine List.filterMap_congr fun frame _ => ?_
    split
    · rfl
    · rename_i htype
      cases hd : handed? (t.ethernetAddress q) frame with
      | none => rfl
      | some d =>
          unfold AsyncNetworkInterface.handed? at hd
          split at hd
          · exact absurd (beq_iff_eq.mpr (EthernetFrame.type_of_datagram? hd)) htype
          · cases hd
  rw [hframes] at hcopies
  obtain ⟨copies, hcopied, hperm⟩ := List.perm_comp_forall₂ hsent hcopies
  exact ⟨copies, hcopied, (between_perm hexact hpq).trans hperm.symm⟩

theorem crossing_unique (p q : Port Unit Bool) (hsegment : crossing.segment p = crossing.segment q)
    (hip : crossing.ipAddress p = crossing.ipAddress q) : p = q := by
  have hrouter : ∀ num h, crossing.ipAddress (.router () num) ≠ crossing.ipAddress (.host h) := by
    intro num h
    show (if num = 0 then 0x0a000001 else 0xc0a80001) ≠ if h then 0xc0a80002 else 0x0a000002
    split <;> cases h <;> decide
  rcases p with ⟨_, num⟩ | h <;> rcases q with ⟨_, num'⟩ | h'
  · exact congrArg (Port.router ()) hsegment
  · exact absurd hip (hrouter num h')
  · exact absurd hip.symm (hrouter num' h)
  · exact congrArg Port.host (by cases h <;> cases h' <;> first | rfl | cases hsegment)

theorem quiet_exact_crossing :
    let n := StepSystem.run step (new crossing) crossingRun
    (n.logs (.host false)).given.length = 1 ∧
      ∃ copies, List.Forall₂ IPv4Datagram.Copy
          (NetworkInterface.toHop 0x0a000001 (n.logs (.host false)).given) copies ∧
        (between (.host false) (.router () 0) n.arrivals).Perm copies :=
  ⟨by decide +kernel,
    (quiet_exact crossing crossing_unique crossingRun (by decide +kernel) (.host false)
      (.router () 0) (by decide) (by decide +kernel)).2.1⟩

end Internetwork

end CourseNet
