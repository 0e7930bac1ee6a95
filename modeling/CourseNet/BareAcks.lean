import CourseNet.Network
import CourseNet.Replies
import CourseNet.StateProgress

/-!
# Bare ACKs between two endpoints

A bare ACK stands at the `_next_seqno` of its sender, and no receiver acknowledges more than the other
side has sent.  So a bare ACK is taken for a keep-alive only after its sender has used further sequence
numbers, and a volley, in which each bare ACK answers the one before, ends with the numbers that the two
sides have to use.
-/

namespace CourseNet

/-- An empty segment without RST: a pure ACK, once its sender has the other side's SYN. -/
def TCPSegment.Bare (seg : TCPSegment) : Prop :=
  seg.lengthInSequenceSpace = 0 ∧ seg.header.rst = false

instance : DecidablePred TCPSegment.Bare := fun _ => inferInstanceAs (Decidable (_ ∧ _))

/-- Only a SYN makes the initial sequence number known. -/
theorem TCPReceiver.isn_of_segmentReceived {r : TCPReceiver} {seg : TCPSegment}
    (h : (r.segmentReceived seg).1.isn.isSome = true) :
    r.isn.isSome = true ∨ seg.header.syn = true := by
  by_contra hno
  obtain ⟨hisn, hsyn⟩ := not_or.mp hno
  have hnone : r.isn = none := Option.not_isSome_iff_eq_none.mp hisn
  rw [segmentReceived, hnone] at h
  dsimp only at h
  rw [if_neg hsyn, hnone] at h
  exact absurd h (by simp)

/-! ### One direction -/

/-- The part of the stream that the sender has sent. -/
def Endpoint.sent (x : Endpoint) : Bytes := x.accepted.take (x.conn.sender.nextSeqno - 1)

theorem Endpoint.length_sent (x : Endpoint) :
    x.sent.length = min (x.conn.sender.nextSeqno - 1) x.accepted.length := List.length_take

/-- With the FIN everything is sent. -/
theorem Link.sent_of_finSent {x y : Endpoint} (h : Link x y)
    (hfin : x.conn.sender.finSent = true) : x.sent = x.accepted := by
  rw [Endpoint.sent, h.carries.next_of_finSent hfin]
  exact List.take_of_length_le (by omega)

/-- `y` has seen only what `x` has sent. -/
structure Trails (x y : Endpoint) : Prop where
  link : Link x y
  placed : ∀ seg ∈ x.conn.segmentsOut, seg.header.rst = false → x.conn.sender.Placed seg
  follows : y.conn.receiver.Follows x.sent (x.conn.sender.finSent = true) x.conn.sender.isn
    y.popped
  begun : y.conn.receiver.isn.isSome = true → 1 ≤ x.conn.sender.nextSeqno
  drained : x.conn.Drained

namespace Trails

variable {x y : Endpoint}

theorem new (cfgX cfgY : TCPConfig) (randomX randomY : UInt32) :
    Trails (Endpoint.new cfgX randomX) (Endpoint.new cfgY randomY) :=
  ⟨Link.new _ _ _ _, fun _ h => absurd h List.not_mem_nil, TCPReceiver.Follows.new _ _ _ _,
    fun h => absurd h (by simp [Endpoint.new, TCPConnection.new, TCPReceiver.new]), fun _ => rfl⟩

theorem next_le (h : Trails x y) : x.conn.sender.nextSeqno ≤ x.accepted.length + 2 :=
  h.link.carries.next_le

/-- A segment of the log is genuine already with what has been sent. -/
theorem genuine (h : Trails x y) (hsmall : x.accepted.length < 2 ^ 31 - 2) {seg : TCPSegment}
    (hseg : seg ∈ x.conn.segmentsOut) (hrst : seg.header.rst = false) :
    Genuine x.sent (x.conn.sender.finSent = true) x.conn.sender.isn seg := by
  obtain ⟨n, hn, hle⟩ := h.placed seg hseg hrst
  have hnext := h.next_le
  cases h.link.emitted seg hseg hrst with
  | syn hsyn hfin hempty hseqno => exact Genuine.syn hsyn hfin hempty hseqno
  | empty hsyn hfin hempty => exact Genuine.empty hsyn hfin hempty
  | stream start hsyn hstart hend hseqno hdata hfin =>
      have hsame : n = start := wrap_inj (by omega) (by omega) (hn.symm.trans hseqno)
      subst hsame
      have hpayload : n + seg.payload.length ≤ x.conn.sender.nextSeqno := by
        unfold TCPSegment.lengthInSequenceSpace at hle
        omega
      have hlen := x.length_sent
      refine Genuine.stream n hsyn hstart (by omega) hseqno ?_ fun hf => ?_
      · rw [Excerpt, Endpoint.sent, List.drop_take]
        exact List.prefix_take_iff.mpr ⟨hdata, by omega⟩
      · obtain ⟨hE, hlast⟩ := hfin hf
        exact ⟨hE, by rw [h.link.sent_of_finSent hE]; exact hlast⟩

/-- The acknowledgment number does not pass what was sent. -/
theorem acknowledged_le (h : Trails x y) :
    y.conn.receiver.acknowledged ≤ x.conn.sender.nextSeqno := by
  unfold TCPReceiver.acknowledged
  split
  · rename_i hsome
    have hbegun := h.begun hsome
    have hwritten := h.follows.written_le
    have hlen := x.length_sent
    have hbounds := y.conn.receiver.absoluteAckno_bounds
    rcases Bool.eq_false_or_eq_true y.conn.receiver.finReceived with hfin | hfin
    · have hnext := h.link.carries.next_of_finSent (h.follows.fin hfin)
      omega
    · have hackno := y.conn.receiver.absoluteAckno_eq
      rw [hfin, Bool.false_and, Bool.toNat_false] at hackno
      omega
  · exact Nat.zero_le _

/-- A step of the sending side. -/
theorem send (h : Trails x y) (op : TCPConnection.Op) : Trails (x.step op) y := by
  obtain ⟨s, hs, hemits, -, -⟩ := h.link.sender_step op
  have hisn : (x.step op).conn.sender.isn = x.conn.sender.isn := x.conn.step_isn op
  have hnext : x.conn.sender.nextSeqno ≤ (x.step op).conn.sender.nextSeqno :=
    (TCPConnection.step_onward h.link.carries.toSound op).next
  have hfin : x.conn.sender.finSent = true → (x.step op).conn.sender.finSent = true :=
    fun hf => TCPConnection.step_finSent hf op
  refine ⟨h.link.send op, fun seg hseg hrst => ?_, ?_, fun hsome => (h.begun hsome).trans hnext,
    TCPConnection.step_drained h.drained op⟩
  · rcases hemits.segments seg hseg with hold | ⟨hreset, -⟩ | ⟨q, hq, rfl⟩
    · exact (h.placed seg hold hrst).mono hisn hnext
    · exact absurd hreset (by simp [hrst])
    · -- stamping moves no segment
      have hplaced := (hs.queued q hq).placed.mono hemits.isn hemits.nextSeqno.ge
      exact hplaced
  · rw [hisn]
    refine h.follows.extend ?_ (fun hf => ?_) hfin
    · exact ((x.accepted_prefix_step op).take _).trans (List.take_prefix_take_left (by omega))
    · rw [(h.link.send op).sent_of_finSent (hfin hf), h.link.sent_of_finSent hf,
        h.link.accepted_step_of_finSent hf op]

/-- A step of the receiving side. -/
theorem receive (h : Trails y x) {op : TCPConnection.Op} (hop : y.Authentic op)
    (hsmall : y.accepted.length < 2 ^ 31 - 2) : Trails y (x.step op) := by
  have hlen := y.length_sent
  refine ⟨h.link.receive hop hsmall, h.placed, ?_, fun hsome => ?_, h.drained⟩
  · refine Endpoint.step_follows h.follows (by omega) fun seg hseg hrst => ?_
    exact h.genuine hsmall (hseg ▸ hop : y.Authentic (.segmentReceived seg)) hrst
  · -- the first SYN to arrive is one that `y` has sent
    have hsome : (x.conn.step op).receiver.isn.isSome = true := hsome
    rcases x.conn.step_receiver op with ⟨len, -, hr⟩ | ⟨-, hr | hr | ⟨seg, rfl, hrst, -, hr⟩⟩
    · rw [hr] at hsome
      exact h.begun hsome
    · rw [hr] at hsome
      exact h.begun hsome
    · rw [hr] at hsome
      exact h.begun hsome
    · rw [hr] at hsome
      rcases TCPReceiver.isn_of_segmentReceived hsome with hbefore | hsyn
      · exact h.begun hbefore
      · obtain ⟨n, -, hle⟩ := h.placed seg hop hrst
        unfold TCPSegment.lengthInSequenceSpace at hle
        rw [if_pos hsyn] at hle
        omega

/-- An empty segment that provokes one: its sender has used the number at which it stands. -/
theorem used_of_answer (hxy : Trails x y) (hyx : Trails y x)
    (hsmall : x.accepted.length < 2 ^ 31 - 2) {seg reply : TCPSegment}
    (hseg : seg ∈ x.conn.segmentsOut) (hempty : seg.lengthInSequenceSpace = 0) {m : ℕ}
    (hm : seg.header.seqno = wrap m x.conn.sender.isn) (hle : m ≤ x.conn.sender.nextSeqno)
    (hreply : reply ∈ y.conn.emittedSince (y.conn.segmentReceived seg))
    (hlen : reply.lengthInSequenceSpace = 0) : m < x.conn.sender.nextSeqno := by
  obtain ⟨ackno, hackno, hkeep⟩ := TCPConnection.keepAlive_of_emitted_empty
    hyx.link.carries.toSound hyx.drained hempty hreply hlen
  obtain ⟨isn, hisn, rfl⟩ := Option.map_eq_some_iff.mp hackno
  have hafter : Trails x (y.step (.segmentReceived seg)) := hxy.receive hseg hsmall
  have hacked : (y.conn.segmentReceived seg).receiver.acknowledged ≤ x.conn.sender.nextSeqno :=
    hafter.acknowledged_le
  rw [TCPReceiver.acknowledged, hisn, Option.isSome_some, if_pos rfl] at hacked
  rw [hafter.follows.isn_eq isn hisn, hm] at hkeep
  have hnext := hxy.next_le
  have hone := wrap_eq_sub_one (by omega) (by omega) hkeep
  exact hone.trans_le hacked

end Trails

/-! ### Both directions -/

namespace Network

variable {n : Network} {side : Side}

theorem endpoint_step (n : Network) (side : Side) (op : TCPConnection.Op) :
    (n.step (side, op)).endpoint side = (n.endpoint side).step op ∧
      (n.step (side, op)).endpoint side.other = n.endpoint side.other := by
  cases side <;> exact ⟨rfl, rfl⟩

/-- A step leaves an endpoint as it is, or is a call of it. -/
theorem endpoint_cases (n : Network) (i : Side × TCPConnection.Op) (side : Side) :
    (n.step i).endpoint side = n.endpoint side ∨
      ∃ op, (n.step i).endpoint side = (n.endpoint side).step op := by
  obtain ⟨acting, op⟩ := i
  cases acting <;> cases side
  · exact Or.inr ⟨op, rfl⟩
  · exact Or.inl rfl
  · exact Or.inl rfl
  · exact Or.inr ⟨op, rfl⟩

/-- No step takes anything out of a log. -/
theorem segmentsOut_grows (n : Network) (i : Side × TCPConnection.Op) (side : Side) :
    (n.endpoint side).conn.segmentsOut <+: ((n.step i).endpoint side).conn.segmentsOut := by
  rcases n.endpoint_cases i side with heq | ⟨op, heq⟩
  · rw [heq]
  · rw [heq]
    exact (n.endpoint side).conn.step_segmentsOut_grows op

theorem isn_step (n : Network) (i : Side × TCPConnection.Op) (side : Side) :
    ((n.step i).endpoint side).conn.sender.isn = (n.endpoint side).conn.sender.isn := by
  rcases n.endpoint_cases i side with heq | ⟨op, heq⟩
  · rw [heq]
  · rw [heq]
    exact (n.endpoint side).conn.step_isn op

/-- A segment of one log may arrive at the other side. -/
theorem allowed_of_mem {seg : TCPSegment} (h : seg ∈ (n.endpoint side).conn.segmentsOut) :
    n.Allowed (side.other, .segmentReceived seg) := by
  cases side <;> exact h

/-- Both directions trail. -/
def Trailing (n : Network) : Prop :=
  ∀ side, Trails (n.endpoint side) (n.endpoint side.other)

theorem trailing {cfgA cfgB : TCPConfig} {randomA randomB : UInt32}
    {is : List (Side × TCPConnection.Op)}
    (h : StepSystem.Guarded step Allowed (new cfgA cfgB randomA randomB) is)
    (hsmall : (StepSystem.run step (new cfgA cfgB randomA randomB) is).Small) :
    (StepSystem.run step (new cfgA cfgB randomA randomB) is).Trailing := by
  obtain ⟨hab, hba⟩ := run_joined (J := fun x y => Trails x y ∧ Trails y x)
    (fun _ _ hj => ⟨hj.2, hj.1⟩) (fun _ _ _ hj hop _ hy => ⟨hj.1.send _, hj.2.receive hop hy⟩)
    ⟨Trails.new _ _ _ _, Trails.new _ _ _ _⟩ h hsmall
  intro side
  cases side with
  | a => exact hab
  | b => exact hba

theorem Trailing.peer (h : n.Trailing) (side : Side) :
    Trails (n.endpoint side.other) (n.endpoint side) := by
  have hpeer := h side.other
  rwa [Side.other_other] at hpeer

theorem Trailing.next_le (h : n.Trailing) (i : Side × TCPConnection.Op) (side : Side) :
    (n.endpoint side).conn.sender.nextSeqno ≤
      ((n.step i).endpoint side).conn.sender.nextSeqno := by
  rcases n.endpoint_cases i side with heq | ⟨op, heq⟩
  · rw [heq]
  · rw [heq]
    exact (TCPConnection.step_onward (h side).link.carries.toSound op).next

theorem Small.endpoint (h : n.Small) (side : Side) :
    (n.endpoint side).accepted.length < 2 ^ 31 - 2 := by
  cases side with
  | a => exact h.1
  | b => exact h.2

/-- What `side` emits on the arrival of `seg`. -/
def repliesOf (n : Network) (side : Side) (seg : TCPSegment) : List TCPSegment :=
  (n.endpoint side).conn.emittedSince ((n.endpoint side).conn.segmentReceived seg)

/-- A volley of bare ACKs in a run from `init`: `side` has emitted `seg`, the last of `k` bare ACKs
each of which was emitted on the arrival of the one before.  In between anything may happen. -/
inductive Volley (init : Network) : Network → Side → TCPSegment → ℕ → Prop
  | serve {is : List (Side × TCPConnection.Op)} {side : Side} {seg : TCPSegment}
      (h : StepSystem.Guarded step Allowed init is)
      (hseg : seg ∈ ((StepSystem.run step init is).endpoint side).conn.segmentsOut)
      (hbare : seg.Bare) : Volley init (StepSystem.run step init is) side seg 0
  | wait {n : Network} {side : Side} {seg : TCPSegment} {k : ℕ} {i : Side × TCPConnection.Op}
      (h : Volley init n side seg k) (hi : n.Allowed i) : Volley init (n.step i) side seg k
  | answer {n : Network} {side : Side} {seg reply : TCPSegment} {k : ℕ}
      (h : Volley init n side seg k) (hreply : reply ∈ n.repliesOf side.other seg)
      (hbare : reply.Bare) :
      Volley init (n.step (side.other, .segmentReceived seg)) side.other reply (k + 1)

/-- The network of a volley is that of a run, and the last segment is in its log. -/
theorem Volley.run {init : Network} {seg : TCPSegment} {k : ℕ} (h : Volley init n side seg k) :
    (∃ is, StepSystem.Guarded step Allowed init is ∧ n = StepSystem.run step init is) ∧
      seg ∈ (n.endpoint side).conn.segmentsOut ∧ seg.Bare := by
  induction h with
  | serve h hseg hbare => exact ⟨⟨_, h, rfl⟩, hseg, hbare⟩
  | @wait n side seg k i h hi ih =>
      obtain ⟨⟨is, his, hrun⟩, hseg, hbare⟩ := ih
      refine ⟨⟨is ++ [i], StepSystem.Guarded.snoc_iff.mpr ⟨his, hrun ▸ hi⟩, ?_⟩, ?_, hbare⟩
      · rw [StepSystem.run_snoc, hrun]
      · exact (n.segmentsOut_grows i side).subset hseg
  | @answer n side seg reply k h hreply hbare ih =>
      obtain ⟨⟨is, his, hrun⟩, hseg, -⟩ := ih
      refine ⟨⟨is ++ [(side.other, .segmentReceived seg)],
        StepSystem.Guarded.snoc_iff.mpr ⟨his, ?_⟩, ?_⟩, ?_, hbare⟩
      · rw [← hrun]
        exact allowed_of_mem hseg
      · rw [StepSystem.run_snoc, hrun]
      · rw [(n.endpoint_step side.other _).1]
        exact List.mem_of_mem_drop hreply

theorem Volley.trailing {cfgA cfgB : TCPConfig} {randomA randomB : UInt32} {seg : TCPSegment} {k : ℕ}
    (h : Volley (new cfgA cfgB randomA randomB) n side seg k) (hsmall : n.Small) : n.Trailing := by
  obtain ⟨⟨is, his, rfl⟩, -⟩ := h.run
  exact Network.trailing his hsmall

/-- The last segment of a volley stands at a number `m`, and every two answers have used up a number on
either side. -/
theorem Volley.bounded {cfgA cfgB : TCPConfig} {randomA randomB : UInt32} {seg : TCPSegment} {k : ℕ}
    (h : Volley (new cfgA cfgB randomA randomB) n side seg k) (hsmall : n.Small) :
    ∃ m, seg.header.seqno = wrap m (n.endpoint side).conn.sender.isn ∧
      m ≤ (n.endpoint side).conn.sender.nextSeqno ∧ k ≤ 2 * m + 1 ∧
      k ≤ 2 * (n.endpoint side.other).conn.sender.nextSeqno := by
  induction h with
  | serve h hseg hbare =>
      obtain ⟨m, hm, hle⟩ := (Network.trailing h hsmall _).placed _ hseg hbare.2
      exact ⟨m, hm, by omega, Nat.zero_le _, Nat.zero_le _⟩
  | @wait n side seg k i h hi ih =>
      have hbefore := small_of_step hsmall
      obtain ⟨m, hm, hle, hk, hother⟩ := ih hbefore
      have htrailing := h.trailing hbefore
      have hnext := htrailing.next_le i side
      have hnext' := htrailing.next_le i side.other
      exact ⟨m, by rw [n.isn_step i side, hm], by omega, hk, by omega⟩
  | @answer n side seg reply k h hreply hbare ih =>
      have hbefore := small_of_step hsmall
      obtain ⟨m, hm, hle, hk, hother⟩ := ih hbefore
      have htrailing := h.trailing hbefore
      obtain ⟨-, hseg, hempty, -⟩ := h.run
      have hpeer := htrailing.peer side
      have hused := (htrailing side).used_of_answer hpeer (hbefore.endpoint side) hseg hempty hm hle
        hreply hbare.1
      have hnext := htrailing.next_le (side.other, .segmentReceived seg) side.other
      have hstands := TCPConnection.emitted_empty_seqno hpeer.link.carries.toSound hpeer.drained
        hreply hbare.1
      obtain ⟨hmoved, hsame⟩ := n.endpoint_step side.other (.segmentReceived seg)
      rw [Side.other_other] at hsame
      rw [Side.other_other, hsame]
      rw [hmoved] at hnext ⊢
      exact ⟨((n.endpoint side.other).step (.segmentReceived seg)).conn.sender.nextSeqno, hstands,
        le_refl _, by omega, by omega⟩

/-- **Replies.**  In every active state of a run of representable segments in which fewer than `2 ^ 63`
bytes were received, a segment without RST that arrives with or after the SYN is answered by a segment
with ACK, the acknowledgment number and the window of the receiver after it, if it occupies sequence
space; if it is empty and no keep-alive, every segment it provokes occupies sequence space; and an empty
segment that it provokes stands at `_next_seqno`.

So between two endpoints with fewer than `2 ^ 31 - 2` bytes in each direction, a bare ACK that stands at
the `_next_seqno` of its sender provokes no bare ACK, whichever one arrives and when, and in a volley of
bare ACKs the number of answers is at most twice the sequence numbers of a side. -/
theorem acks_settle :
    (∀ (cfg : TCPConfig) (random : UInt32), cfg.recvCapacity < 2 ^ 64 →
      ∀ ops : List TCPConnection.Op, StepSystem.Guarded TCPConnection.step
        (fun c op => op.Representable c) (TCPConnection.new cfg random) ops →
      let c := StepSystem.run TCPConnection.step (TCPConnection.new cfg random) ops
      c.isActive = true → ∀ seg : TCPSegment,
        (TCPConnection.Op.segmentReceived seg).Representable c →
        c.inboundStream.bytesWritten < 2 ^ 63 → seg.header.rst = false →
        (c.receiver.isn.isSome = true ∨ seg.header.syn = true) →
        let c' := c.segmentReceived seg
        (0 < seg.lengthInSequenceSpace → ∃ reply ∈ c.emittedSince c', reply.header.ack = true ∧
          c'.receiver.ackno = some reply.header.ackno ∧
          reply.header.win.toNat = min c'.receiver.windowSize 65535) ∧
        (seg.lengthInSequenceSpace = 0 →
          (∀ ackno, c'.receiver.ackno = some ackno → seg.header.seqno ≠ ackno.sub 1) →
          ∀ reply ∈ c.emittedSince c', 0 < reply.lengthInSequenceSpace) ∧
        ∀ reply ∈ c.emittedSince c', reply.lengthInSequenceSpace = 0 →
          reply.header.seqno = wrap c'.sender.nextSeqno c'.sender.isn) ∧
    ∀ (cfgA cfgB : TCPConfig) (randomA randomB : UInt32),
      (∀ is : List (Side × TCPConnection.Op),
        StepSystem.Guarded step Allowed (new cfgA cfgB randomA randomB) is →
        let n := StepSystem.run step (new cfgA cfgB randomA randomB) is
        n.Small → ∀ side, ∀ seg ∈ (n.endpoint side).conn.segmentsOut, seg.Bare →
          seg.header.seqno = wrap (n.endpoint side).conn.sender.nextSeqno
            (n.endpoint side).conn.sender.isn →
          ∀ reply ∈ n.repliesOf side.other seg, 0 < reply.lengthInSequenceSpace) ∧
      ∀ n side seg k, Volley (new cfgA cfgB randomA randomB) n side seg k → n.Small →
        k ≤ 2 * ((n.endpoint side.other).accepted.length + 2) := by
  refine ⟨?_, fun cfgA cfgB randomA randomB => ⟨?_, ?_⟩⟩
  · intro cfg random hcap ops hops c hactive seg hrep hsmall hrst hsyn
    have hreach : c.Reachable := ⟨cfg, random, ops, rfl⟩
    obtain ⟨hanswered, hsilent⟩ := TCPConnection.segmentReceived_replies cfg random hcap ops hops c rfl
      hactive seg hrep hsmall hrst hsyn
    exact ⟨hanswered, hsilent, fun reply hreply hlen =>
      TCPConnection.emitted_empty_seqno hreach.sound hreach.drained hreply hlen⟩
  · intro is his n hsmall side seg hseg hbare hseqno reply hreply
    have htrailing : n.Trailing := trailing his hsmall
    by_contra hzero
    exact absurd ((htrailing side).used_of_answer (htrailing.peer side) (hsmall.endpoint side) hseg
      hbare.1 hseqno (le_refl _) hreply (by omega)) (lt_irrefl _)
  · intro n side seg k hvolley hsmall
    obtain ⟨m, -, -, -, hk⟩ := hvolley.bounded hsmall
    have hnext := (hvolley.trailing hsmall side.other).next_le
    omega

/-- `a` connects, and the bare ACK that ends the handshake is on its way. -/
def handshake : List (Side × TCPConnection.Op) :=
  [(.a, .connect),
    (.b, .segmentReceived { header := { seqno := ⟨0⟩, syn := true, win := 64000 } }),
    (.a, .segmentReceived
      { header := { seqno := ⟨100⟩, ackno := ⟨1⟩, syn := true, ack := true, win := 64000 } })]

/-- A byte is acknowledged.  The bare ACK of the handshake is not answered; but after a byte that was
sent later and has arrived before, it is taken for a keep-alive, and the volley has one answer. -/
theorem acks_settle_handshake :
    let syn : TCPSegment := { header := { syn := true, win := 1000 } }
    let byte : TCPSegment := { header := { seqno := ⟨1⟩, ackno := ⟨101⟩, ack := true, win := 64000 }
                               payload := [7] }
    let bare : TCPSegment := { header := { seqno := ⟨1⟩, ackno := ⟨101⟩, ack := true, win := 64000 } }
    let answer : TCPSegment :=
      { header := { seqno := ⟨101⟩, ackno := ⟨2⟩, ack := true, win := 63999 } }
    let c := StepSystem.run TCPConnection.step (TCPConnection.new { fixedIsn := some ⟨100⟩ } 0)
      [.segmentReceived syn]
    let init := new { fixedIsn := some ⟨0⟩ } { fixedIsn := some ⟨100⟩ } 0 0
    let n := StepSystem.run step init
      (handshake ++ [(.a, .write [7]), (.b, .segmentReceived byte)])
    (∃ reply ∈ c.emittedSince (c.segmentReceived byte), reply.header.ack = true ∧
      (c.segmentReceived byte).receiver.ackno = some reply.header.ackno ∧
      reply.header.win.toNat = min (c.segmentReceived byte).receiver.windowSize 65535) ∧
    (∀ reply ∈ (StepSystem.run step init handshake).repliesOf .b bare,
      0 < reply.lengthInSequenceSpace) ∧
    Volley init (n.step (.b, .segmentReceived bare)) .b answer 1 ∧
      1 ≤ 2 * (((n.step (.b, .segmentReceived bare)).endpoint Side.b.other).accepted.length + 2) := by
  intro syn byte bare answer c init n
  have hserve : Volley init n .a bare 0 :=
    Volley.serve (by decide +kernel) (by decide +kernel) (by decide)
  have hvolley : Volley init (n.step (.b, .segmentReceived bare)) .b answer 1 :=
    hserve.answer (by decide +kernel) (by decide)
  exact ⟨(acks_settle.1 { fixedIsn := some ⟨100⟩ } 0 (by decide) [.segmentReceived syn]
      (by decide +kernel) (by decide +kernel) byte (by decide +kernel) (by decide +kernel) rfl
      (by decide +kernel)).1 (by decide),
    (acks_settle.2 { fixedIsn := some ⟨0⟩ } { fixedIsn := some ⟨100⟩ } 0 0).1 handshake
      (by decide +kernel) ⟨by decide +kernel, by decide +kernel⟩ .a bare (by decide +kernel)
      (by decide) (by decide +kernel),
    hvolley, (acks_settle.2 { fixedIsn := some ⟨0⟩ } { fixedIsn := some ⟨100⟩ } 0 0).2
      (n.step (.b, .segmentReceived bare)) .b answer 1 hvolley ⟨by decide +kernel, by decide +kernel⟩⟩

end Network

end CourseNet
