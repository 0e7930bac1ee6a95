import CourseNet.ConnectionLog
import CourseNet.ReceiverStream

/-!
# Two endpoints and a network

Each endpoint is a connection together with what its application did: the bytes that its writes
accepted, whether it ended its input, and the bytes it read.  A step is a call at one side, and
the network may hand a connection any segment the other side has ever emitted: whatever was lost,
duplicated, delayed or reordered, that is all the network can do without altering or forging
segments.
-/

namespace CourseNet

/-- A connection and its application. -/
structure Endpoint where
  conn : TCPConnection
  accepted : Bytes
  ended : Bool
  popped : Bytes

namespace Endpoint

def new (cfg : TCPConfig) (random : UInt32) : Endpoint :=
  ⟨TCPConnection.new cfg random, [], false, []⟩

/-- The bytes ever written into the inbound stream. -/
def delivered (e : Endpoint) : Bytes := e.popped ++ e.conn.inboundStream.buffer

def step (e : Endpoint) (op : TCPConnection.Op) : Endpoint where
  conn := e.conn.step op
  accepted :=
    match op with
    | .write data => e.accepted ++ data.take (e.conn.write data).2
    | _ => e.accepted
  ended :=
    match op with
    | .endInputStream => true
    | _ => e.ended
  popped :=
    match op with
    | .readInbound len => e.popped ++ (e.conn.readInbound len).1
    | _ => e.popped

/-- The network hands `e` only segments that its peer has emitted. -/
def Authentic (peer : Endpoint) : TCPConnection.Op → Prop
  | .segmentReceived seg => seg ∈ peer.conn.segmentsOut
  | _ => True

instance (peer : Endpoint) : DecidablePred peer.Authentic
  | .segmentReceived _ => inferInstanceAs (Decidable (_ ∈ _))
  | .connect | .write _ | .endInputStream | .tick _ | .readInbound _ => isTrue trivial

/-- A receiver goes on following a stream of which only genuine segments arrive. -/
theorem step_follows {S : Bytes} {E : Prop} {isn : WrappingInt32} {e : Endpoint}
    (h : e.conn.receiver.Follows S E isn e.popped) (hS : S.length < 2 ^ 31 - 2)
    {op : TCPConnection.Op} (hop : ∀ seg, op = .segmentReceived seg → seg.header.rst = false →
      Genuine S E isn seg) :
    (e.step op).conn.receiver.Follows S E isn (e.step op).popped := by
  rcases e.conn.step_receiver op with ⟨len, rfl, hr⟩ | ⟨hread, hr⟩
  · show (e.conn.step (.readInbound len)).receiver.Follows _ _ _ _
    rw [hr]
    exact h.read len
  · have hpopped : (e.step op).popped = e.popped := by
      cases op with
      | readInbound len => exact absurd rfl (hread len)
      | connect | write | endInputStream | segmentReceived | tick => rfl
    rw [hpopped]
    show (e.conn.step op).receiver.Follows _ _ _ _
    rcases hr with hsame | herror | ⟨seg, hseg, hrst, -, hr⟩
    · rw [hsame]
      exact h
    · rw [herror]
      exact h.setError
    · rw [hr]
      exact h.segmentReceived hS (hop seg hseg hrst)

theorem accepted_prefix_step (e : Endpoint) (op : TCPConnection.Op) :
    e.accepted <+: (e.step op).accepted := by
  cases op with
  | write data => exact List.prefix_append _ _
  | connect | endInputStream | segmentReceived | tick | readInbound => exact List.prefix_refl _

end Endpoint

/-- The two sides. -/
inductive Side
  | a
  | b
deriving DecidableEq

def Side.other : Side → Side
  | .a => .b
  | .b => .a

@[simp] theorem Side.other_other (side : Side) : side.other.other = side := by cases side <;> rfl

structure Network where
  a : Endpoint
  b : Endpoint

namespace Network

def new (cfgA cfgB : TCPConfig) (randomA randomB : UInt32) : Network :=
  ⟨Endpoint.new cfgA randomA, Endpoint.new cfgB randomB⟩

/-- The endpoint of a side. -/
def endpoint (n : Network) : Side → Endpoint
  | .a => n.a
  | .b => n.b

/-- A call at one side. -/
def step (n : Network) : Side × TCPConnection.Op → Network
  | (.a, op) => { n with a := n.a.step op }
  | (.b, op) => { n with b := n.b.step op }

/-- A step without forgery. -/
def Allowed (n : Network) : Side × TCPConnection.Op → Prop
  | (.a, op) => n.b.Authentic op
  | (.b, op) => n.a.Authentic op

instance (n : Network) : DecidablePred n.Allowed
  | (.a, op) => inferInstanceAs (Decidable (n.b.Authentic op))
  | (.b, op) => inferInstanceAs (Decidable (n.a.Authentic op))

/-- So few bytes that old duplicates stay within half of the sequence space. -/
def Small (n : Network) : Prop :=
  n.a.accepted.length < 2 ^ 31 - 2 ∧ n.b.accepted.length < 2 ^ 31 - 2

theorem small_of_step {n : Network} {i : Side × TCPConnection.Op} (h : (n.step i).Small) :
    n.Small := by
  obtain ⟨side, op⟩ := i
  obtain ⟨ha, hb⟩ := h
  cases side with
  | a => exact ⟨(n.a.accepted_prefix_step op).length_le.trans_lt ha, hb⟩
  | b => exact ⟨ha, (n.b.accepted_prefix_step op).length_le.trans_lt hb⟩

theorem small_of_run {n : Network} {is : List (Side × TCPConnection.Op)}
    (h : (StepSystem.run step n is).Small) : n.Small := by
  induction is generalizing n with
  | nil => exact h
  | cons i is ih => exact small_of_step (ih h)

/-- A symmetric relation of the endpoints that a step of one side keeps holds after every run. -/
theorem run_joined {J : Endpoint → Endpoint → Prop} (hsymm : ∀ x y, J x y → J y x)
    (hstep : ∀ x y op, J x y → y.Authentic op → (x.step op).accepted.length < 2 ^ 31 - 2 →
      y.accepted.length < 2 ^ 31 - 2 → J (x.step op) y)
    {n : Network} (hn : J n.a n.b) {is : List (Side × TCPConnection.Op)}
    (h : StepSystem.Guarded step Allowed n is) (hsmall : (StepSystem.run step n is).Small) :
    J (StepSystem.run step n is).a (StepSystem.run step n is).b := by
  refine h.invariant (P := fun n => n.Small → J n.a n.b) ?_ (fun _ => hn) hsmall
  intro n i hallowed hbefore hafter
  have hj := hbefore (small_of_step hafter)
  obtain ⟨side, op⟩ := i
  cases side with
  | a => exact hstep _ _ op hj hallowed hafter.1 hafter.2
  | b => exact hsymm _ _ (hstep _ _ op (hsymm _ _ hj) hallowed hafter.2 hafter.1)

end Network

/-! ### One direction -/

/-- The stream from `x` to `y`: `x` emits only the truth about what its application wrote, and `y`
follows it. -/
structure Link (x y : Endpoint) : Prop where
  carries : TCPSender.Carries x.accepted x.conn.sender
  ended : x.conn.sender.stream.inputEnded = x.ended
  emitted : ∀ seg ∈ x.conn.segmentsOut, seg.header.rst = false →
    Genuine x.accepted (x.conn.sender.finSent = true) x.conn.sender.isn seg
  follows : y.conn.receiver.Follows x.accepted (x.conn.sender.finSent = true) x.conn.sender.isn
    y.popped

namespace Link

variable {x y : Endpoint}

theorem new (cfgX cfgY : TCPConfig) (randomX randomY : UInt32) :
    Link (Endpoint.new cfgX randomX) (Endpoint.new cfgY randomY) :=
  ⟨TCPSender.Carries.new _ _ _ _, rfl, fun _ h => absurd h List.not_mem_nil,
    TCPReceiver.Follows.new _ _ _ _⟩

/-- The FIN is sent only after the last byte. -/
theorem accepted_step_of_finSent (h : Link x y) (hfin : x.conn.sender.finSent = true)
    (op : TCPConnection.Op) : (x.step op).accepted = x.accepted := by
  cases op with
  | write data =>
      have hended := (h.carries.fin_sent hfin).1
      have hnone : (x.conn.write data).2 = 0 := by
        rcases Bool.eq_false_or_eq_true x.conn.isActive with hactive | hinactive
        · rw [TCPConnection.write_active hactive]
          exact ByteStream.write_snd_of_ended hended data
        · rw [TCPConnection.write_inactive hinactive]
      show x.accepted ++ data.take (x.conn.write data).2 = x.accepted
      rw [hnone, List.take_zero, List.append_nil]
  | connect | endInputStream | segmentReceived | tick | readInbound => rfl

/-- What a step does to the sender of `x`: `s` is a state on its way that carried all it emitted. -/
structure SenderStep (x : Endpoint) (op : TCPConnection.Op) (s : TCPSender) : Prop where
  carried : TCPSender.Carries (x.step op).accepted s
  emits : x.conn.Emits (x.step op).conn s
  carries : TCPSender.Carries (x.step op).accepted (x.step op).conn.sender
  ended : (x.step op).conn.sender.stream.inputEnded = (x.step op).ended

theorem sender_step_quiet (h : Link x y) {op : TCPConnection.Op} (hquiet : op.Quiet) :
    ∃ s, SenderStep x op s := by
  obtain ⟨s, hmoves, hemits⟩ := x.conn.step_emits hquiet
  have hsame : (x.step op).accepted = x.accepted ∧ (x.step op).ended = x.ended := by
    cases op with
    | write data => exact absurd hquiet id
    | endInputStream => exact absurd hquiet id
    | connect | segmentReceived | tick | readInbound => exact ⟨rfl, rfl⟩
  obtain ⟨hcarries, hended⟩ := (x.conn.step_moves hquiet).invariant
    (P := fun s => TCPSender.Carries x.accepted s ∧ s.stream.inputEnded = x.ended)
    (fun _ _ hmove hs => ⟨hmove.carries hs.1, hmove.frame.inputEnded.trans hs.2⟩)
    ⟨h.carries, h.ended⟩
  have hcarried := hmoves.invariant (fun _ _ hmove => hmove.carries) h.carries
  rw [← hsame.1] at hcarries hcarried
  exact ⟨s, hcarried, hemits, hcarries, hended.trans hsame.2.symm⟩

theorem sender_step_write (h : Link x y) (data : Bytes) : ∃ s, SenderStep x (.write data) s := by
  have hconn : (x.step (.write data)).conn = (x.conn.write data).1 := rfl
  have haccepted : (x.step (.write data)).accepted =
      x.accepted ++ data.take (x.conn.write data).2 := rfl
  rcases Bool.eq_false_or_eq_true x.conn.isActive with hactive | hinactive
  · have hfilled := (h.carries.write data).fillWindow
    have hemits := TCPConnection.write_emits hactive data
    rw [TCPConnection.write_active hactive] at hconn haccepted
    have hended := (TCPSender.fillWindow_frame
      { x.conn.sender with stream := (x.conn.sender.stream.write data).1 }).inputEnded
    refine ⟨_, ?_, hemits, ?_, ?_⟩
    · rw [haccepted]
      exact hfilled
    · rw [haccepted, hconn]
      exact hfilled.clear
    · rw [hconn]
      exact hended.trans ((ByteStream.write_inputEnded _ _).trans h.ended)
  · rw [TCPConnection.write_inactive hinactive] at hconn haccepted
    rw [List.take_zero, List.append_nil] at haccepted
    refine ⟨x.conn.sender, ?_, ?_, ?_, ?_⟩
    · rw [haccepted]
      exact h.carries
    · rw [hconn]
      exact (TCPConnection.Appends.of_eq rfl).emits rfl rfl rfl
    · rw [haccepted, hconn]
      exact h.carries
    · rw [hconn]
      exact h.ended

theorem sender_step_endInputStream (h : Link x y) : ∃ s, SenderStep x .endInputStream s := by
  have hfilled := h.carries.endInput.fillWindow
  have hended := (TCPSender.fillWindow_frame
    { x.conn.sender with stream := x.conn.sender.stream.endInput }).inputEnded
  exact ⟨_, hfilled, x.conn.endInputStream_emits, hfilled.clear, hended⟩

theorem sender_step (h : Link x y) (op : TCPConnection.Op) : ∃ s, SenderStep x op s := by
  cases op with
  | write data => exact h.sender_step_write data
  | endInputStream => exact h.sender_step_endInputStream
  | connect => exact h.sender_step_quiet trivial
  | segmentReceived seg => exact h.sender_step_quiet trivial
  | tick ms => exact h.sender_step_quiet trivial
  | readInbound len => exact h.sender_step_quiet trivial

/-- A step of the sending side. -/
theorem send (h : Link x y) (op : TCPConnection.Op) : Link (x.step op) y := by
  obtain ⟨s, hs, hemits, hcarries, hended⟩ := h.sender_step op
  have hgrows := x.accepted_prefix_step op
  have hisn : (x.step op).conn.sender.isn = x.conn.sender.isn := x.conn.step_isn op
  have hfin : x.conn.sender.finSent = true → (x.step op).conn.sender.finSent = true :=
    fun hf => TCPConnection.step_finSent hf op
  refine ⟨hcarries, hended, fun seg hseg hrst => ?_, ?_⟩
  · rcases hemits.segments seg hseg with hold | ⟨hreset, -⟩ | ⟨q, hq, rfl⟩
    · rw [hisn]
      exact (h.emitted seg hold hrst).mono hgrows
        (fun hf => h.accepted_step_of_finSent hf op) hfin
    · exact absurd hreset (by simp [hrst])
    · -- stamping changes nothing that the stream depends on
      have hgenuine := (hs.queued q hq).genuine
      rw [hemits.isn, hemits.finSent]
      cases hgenuine with
      | syn hsyn hnofin hempty hseqno => exact Genuine.syn hsyn hnofin hempty hseqno
      | empty hsyn hnofin hempty => exact Genuine.empty hsyn hnofin hempty
      | stream start hsyn hstart hend hseqno hdata hlast =>
          exact Genuine.stream start hsyn hstart hend hseqno hdata hlast
  · rw [hisn]
    exact h.follows.extend hgrows (fun hf => h.accepted_step_of_finSent hf op) hfin

/-- A step of the receiving side. -/
theorem receive (h : Link y x) {op : TCPConnection.Op} (hop : y.Authentic op)
    (hsmall : y.accepted.length < 2 ^ 31 - 2) : Link y (x.step op) :=
  ⟨h.carries, h.ended, h.emitted, Endpoint.step_follows h.follows hsmall fun seg hseg hrst =>
    h.emitted seg (hseg ▸ hop : y.Authentic (.segmentReceived seg)) hrst⟩

end Link

/-! ### Both directions -/

/-- The streams of both directions. -/
def Joined (x y : Endpoint) : Prop := Link x y ∧ Link y x

theorem Joined.step {x y : Endpoint} (h : Joined x y) {op : TCPConnection.Op}
    (hop : y.Authentic op) (hsmall : y.accepted.length < 2 ^ 31 - 2) : Joined (x.step op) y :=
  ⟨h.1.send op, h.2.receive hop hsmall⟩

theorem Network.joined {cfgA cfgB : TCPConfig} {randomA randomB : UInt32}
    {is : List (Side × TCPConnection.Op)}
    (h : StepSystem.Guarded step Allowed (new cfgA cfgB randomA randomB) is)
    (hsmall : (StepSystem.run step (new cfgA cfgB randomA randomB) is).Small) :
    Joined (StepSystem.run step (new cfgA cfgB randomA randomB) is).a
      (StepSystem.run step (new cfgA cfgB randomA randomB) is).b :=
  run_joined (fun _ _ hj => ⟨hj.2, hj.1⟩) (fun _ _ _ hj hop _ hsmall => hj.step hop hsmall)
    ⟨Link.new _ _ _ _, Link.new _ _ _ _⟩ h hsmall

/-- What one direction delivers. -/
theorem Link.integrity {x y : Endpoint} (h : Link x y) :
    y.delivered <+: x.accepted ∧ (y.conn.inboundStream.inputEnded = true →
      x.ended = true ∧ y.delivered = x.accepted) := by
  obtain ⟨hgrows, hall⟩ := h.follows.delivered
  refine ⟨hgrows, fun hended => ?_⟩
  obtain ⟨hfin, heq⟩ := hall hended
  exact ⟨h.ended.symm.trans (h.carries.fin_sent hfin).1, heq⟩

/-- **End-to-end stream integrity.**  Over every run of two endpoints with fewer than `2 ^ 31 - 2`
bytes in each direction, the bytes delivered at either side are a prefix of the bytes accepted at
the other; and if a side has seen the end of its inbound stream, the other side ended its input
and everything it accepted was delivered. -/
theorem Network.stream_integrity (cfgA cfgB : TCPConfig) (randomA randomB : UInt32)
    (is : List (Side × TCPConnection.Op))
    (h : StepSystem.Guarded step Allowed (new cfgA cfgB randomA randomB) is)
    (hsmall : (StepSystem.run step (new cfgA cfgB randomA randomB) is).Small) :
    let n := StepSystem.run step (new cfgA cfgB randomA randomB) is
    (n.b.delivered <+: n.a.accepted ∧ (n.b.conn.inboundStream.inputEnded = true →
      n.a.ended = true ∧ n.b.delivered = n.a.accepted)) ∧
    (n.a.delivered <+: n.b.accepted ∧ (n.a.conn.inboundStream.inputEnded = true →
      n.b.ended = true ∧ n.a.delivered = n.b.accepted)) := by
  have hjoined := Network.joined h hsmall
  exact ⟨hjoined.1.integrity, hjoined.2.integrity⟩

/-- `a` connects, sends three bytes and ends; the SYN arrives twice. -/
def Network.transfer : List (Side × TCPConnection.Op) :=
  [(.a, .connect), (.a, .write [1, 2, 3]), (.a, .endInputStream),
    (.b, .segmentReceived { header := { seqno := ⟨0⟩, syn := true, win := 64000 } }),
    (.b, .segmentReceived { header := { seqno := ⟨0⟩, syn := true, win := 64000 } }),
    (.a, .segmentReceived
      { header := { seqno := ⟨100⟩, ackno := ⟨1⟩, syn := true, ack := true, win := 64000 } }),
    (.b, .segmentReceived
      { header := { seqno := ⟨1⟩, ackno := ⟨101⟩, ack := true, fin := true, win := 64000 }
        payload := [1, 2, 3] })]

theorem Network.stream_integrity_transfer :
    let n := StepSystem.run step
      (new { fixedIsn := some ⟨0⟩ } { fixedIsn := some ⟨100⟩ } 0 0) transfer
    n.a.ended = true ∧ n.b.delivered = n.a.accepted :=
  (stream_integrity { fixedIsn := some ⟨0⟩ } { fixedIsn := some ⟨100⟩ } 0 0 transfer
    (by decide +kernel) ⟨by decide +kernel, by decide +kernel⟩).1.2 (by decide +kernel)

end CourseNet
