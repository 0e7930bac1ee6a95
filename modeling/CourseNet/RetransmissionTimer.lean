import CourseNet.ClosedWindow
import CourseNet.ConnectionQueue

/-!
# The retransmission timer

Three calls of the sender touch its timer: a send restarts it if nothing was outstanding, an
acknowledgment that takes an outstanding segment off resets it with the timeout and the counter, and a
tick advances it.  `Timing` adds to a connection the history that the timeout is a function of: the
back-offs, and the time passed, since the last event that resets them.
-/

namespace CourseNet

/-! ### Sends and acknowledgments -/

namespace TCPSender

/-- What sending does: the timer restarts if nothing was outstanding, and what is sent is new. -/
structure Sent (s t : TCPSender) : Prop where
  initial : t.initialRetransmissionTimeout = s.initialRetransmissionTimeout
  rto : t.rto = s.rto
  count : t.consecutiveRetransmissions = s.consecutiveRetransmissions
  nextSeqno : s.nextSeqno ≤ t.nextSeqno
  kept : ∀ e ∈ s.outstanding, e ∈ t.outstanding
  fresh : ∀ e ∈ t.outstanding, e ∈ s.outstanding ∨ s.nextSeqno ≤ e.1
  restarted : s.outstanding = [] → t.outstanding ≠ [] → t.timer = 0
  unmoved : s.outstanding ≠ [] ∨ t.outstanding = [] → t.timer = s.timer

/-- The queue and the stream do not matter. -/
theorem Sent.of_eq {s t : TCPSender}
    (hinitial : t.initialRetransmissionTimeout = s.initialRetransmissionTimeout)
    (hrto : t.rto = s.rto) (hcount : t.consecutiveRetransmissions = s.consecutiveRetransmissions)
    (hnext : t.nextSeqno = s.nextSeqno) (hout : t.outstanding = s.outstanding)
    (htimer : t.timer = s.timer) : Sent s t :=
  ⟨hinitial, hrto, hcount, hnext.ge, fun _ he => hout ▸ he, fun _ he => Or.inl (hout ▸ he),
    fun hs ht => absurd (hout.trans hs) ht, fun _ => htimer⟩

theorem Sent.trans {s t u : TCPSender} (h : Sent s t) (k : Sent t u) : Sent s u := by
  have hnil : t.outstanding = [] → s.outstanding = [] := fun ht =>
    List.eq_nil_iff_forall_not_mem.mpr fun e he => absurd (ht ▸ h.kept e he) List.not_mem_nil
  have hnil' : u.outstanding = [] → t.outstanding = [] := fun hu =>
    List.eq_nil_iff_forall_not_mem.mpr fun e he => absurd (hu ▸ k.kept e he) List.not_mem_nil
  refine ⟨k.initial.trans h.initial, k.rto.trans h.rto, k.count.trans h.count,
    h.nextSeqno.trans k.nextSeqno, fun e he => k.kept e (h.kept e he), fun e he => ?_,
    fun hs hu => ?_, fun hor => ?_⟩
  · rcases k.fresh e he with ht | hnew
    · exact h.fresh e ht
    · exact Or.inr (h.nextSeqno.trans hnew)
  · by_cases ht : t.outstanding = []
    · exact k.restarted ht hu
    · rw [k.unmoved (Or.inl ht)]
      exact h.restarted hs ht
  · rcases hor with hs | hu
    · rw [k.unmoved (Or.inl fun ht => hs (hnil ht)), h.unmoved (Or.inl hs)]
    · rw [k.unmoved (Or.inr hu), h.unmoved (Or.inr (hnil' hu))]

theorem Sent.refl (s : TCPSender) : Sent s s := Sent.of_eq rfl rfl rfl rfl rfl rfl

/-- A tracked segment stands at the next sequence number; the timer restarts if it is the only
one. -/
theorem sent_transmit {s : TCPSender} (hlt : ∀ e ∈ s.outstanding, e.1 < s.nextSeqno)
    (seg : TCPSegment) : Sent s (s.transmit seg) := by
  have hout := transmit_outstanding hlt seg
  refine ⟨rfl, rfl, rfl, Nat.le_add_right _ _, fun e he => ?_, fun e he => ?_, fun hnil _ => ?_,
    fun hor => ?_⟩
  · rw [hout]
    exact List.mem_append_left _ he
  · rw [hout] at he
    rcases List.mem_append.mp he with he | he
    · exact Or.inl he
    · rw [List.mem_singleton.mp he]
      exact Or.inr (le_refl _)
  · show (if s.outstanding.isEmpty then 0 else s.timer) = 0
    rw [hnil]
    rfl
  · have hne : s.outstanding ≠ [] := hor.resolve_right (by rw [hout]; simp)
    show (if s.outstanding.isEmpty then 0 else s.timer) = s.timer
    rw [if_neg (by simpa using hne)]

theorem Sound.sent {s s' : TCPSender} (hs : s.Sound) {right : ℕ} (hsend : Sends right s s') :
    Sent s s' := by
  cases hsend with
  | syn hsyn hlt =>
      exact (sent_transmit hs.key_lt s.synSegment).trans (Sent.of_eq rfl rfl rfl rfl rfl rfl)
  | stream n fin hsyn hn hmax hpos hfit hfin =>
      have hpop : Sent s { s with stream := s.stream.popOutput n } :=
        Sent.of_eq rfl rfl rfl rfl rfl rfl
      have hsent := sent_transmit (s := { s with stream := s.stream.popOutput n }) hs.key_lt
        (s.streamSegment n fin)
      exact (hpop.trans hsent).trans (Sent.of_eq rfl rfl rfl rfl rfl rfl)

theorem Sound.sent_fillWindow {s : TCPSender} (hs : s.Sound) : Sent s s.fillWindow :=
  (fillWindow_invariant (P := fun t => t.Sound ∧ Sent s t) ⟨hs, Sent.refl s⟩
    fun _ _ ht hsend => ⟨ht.1.sends hsend, ht.2.trans (ht.1.sent hsend)⟩).2

/-- Some outstanding segment is no longer outstanding: it was fully acknowledged. -/
def Relieved (s t : TCPSender) : Prop := ∃ e ∈ s.outstanding, e ∉ t.outstanding

instance (s t : TCPSender) : Decidable (Relieved s t) :=
  inferInstanceAs (Decidable (∃ e ∈ s.outstanding, e ∉ t.outstanding))

/-- The timer, the timeout and the counter are as at the start. -/
structure Reset (s t : TCPSender) : Prop where
  relieved : Relieved s t
  initial : t.initialRetransmissionTimeout = s.initialRetransmissionTimeout
  rto : t.rto = s.initialRetransmissionTimeout
  count : t.consecutiveRetransmissions = 0
  timer : t.timer = 0
  nextSeqno : s.nextSeqno ≤ t.nextSeqno

theorem Sent.not_relieved {s t : TCPSender} (h : Sent s t) : ¬Relieved s t :=
  fun ⟨e, he, hno⟩ => hno (h.kept e he)

/-- What is sent afterwards is new, so what was acknowledged does not come back. -/
theorem Reset.sent {s t u : TCPSender} (hs : s.Sound) (h : Reset s t) (k : Sent t u) :
    Reset s u := by
  obtain ⟨e, he, hno⟩ := h.relieved
  have hlt := hs.key_lt e he
  refine ⟨⟨e, he, fun hu => ?_⟩, k.initial.trans h.initial, k.rto.trans h.rto,
    k.count.trans h.count, ?_, h.nextSeqno.trans k.nextSeqno⟩
  · rcases k.fresh e hu with ht | hnew
    · exact hno ht
    · exact absurd (h.nextSeqno.trans hnew) (by omega)
  · by_cases hor : t.outstanding ≠ [] ∨ u.outstanding = []
    · rw [k.unmoved hor]
      exact h.timer
    · rw [not_or, not_not] at hor
      exact k.restarted hor.1 hor.2

/-- An acknowledgment takes an outstanding segment off and resets the timer, or does nothing to
them. -/
theorem noteAck_timer (s : TCPSender) (a : ℕ) (w : UInt16) :
    Sent s (s.noteAck a w) ∨ Reset s (s.noteAck a w) := by
  have hout := s.noteAck_outstanding a w
  have hframe := s.noteAck_frame a w
  by_cases hacked : (s.outstanding.any fun e =>
      decide (e.1 + e.2.lengthInSequenceSpace ≤ a)) = true
  · right
    obtain ⟨e, he, hle⟩ := List.any_eq_true.mp hacked
    have hgone : e ∉ (s.noteAck a w).outstanding := fun hmem =>
      absurd ((hout e).mp hmem).2 (not_lt.mpr (of_decide_eq_true hle))
    refine ⟨⟨e, he, hgone⟩, ?_, ?_, ?_, ?_, hframe.nextSeqno.ge⟩ <;>
      simp only [noteAck, dropAcked, if_pos hacked]
  · left
    have hsame : (s.noteAck a w).outstanding = s.outstanding := by
      show (dropAcked { s with windowSize := w } a).outstanding = _
      rw [dropAcked_outstanding, List.filter_eq_self]
      intro e he
      rw [Bool.not_eq_true', Bool.eq_false_iff]
      exact fun hle => hacked (List.any_eq_true.mpr ⟨e, he, hle⟩)
    refine Sent.of_eq ?_ ?_ ?_ hframe.nextSeqno hsame ?_ <;>
      simp only [noteAck, dropAcked, if_neg hacked]

theorem Sent.stopTimer {s t : TCPSender} (h : Sent s t) : Sent s t.stopTimer := by
  rw [stopTimer_eq]
  exact h.trans (Sent.of_eq rfl rfl rfl rfl rfl rfl)

theorem ackReceived_timer {s : TCPSender} (hs : s.Sound) (ackno : WrappingInt32) (w : UInt16) :
    Sent s (s.ackReceived ackno w) ∨ Reset s (s.ackReceived ackno w) := by
  rcases s.ackReceived_cases ackno w with ⟨-, heq⟩ | ⟨hle, heq⟩
  · rw [heq]
    exact Or.inl (Sent.refl s)
  · have hfilled : Sent (s.noteAck (s.absoluteAckno ackno) w) _ :=
      (hs.noteAck hle w).sent_fillWindow.stopTimer
    rw [heq]
    exact (s.noteAck_timer _ w).imp (fun h => h.trans hfilled) fun h => h.sent hs hfilled

end TCPSender

namespace TCPConnection

open TCPSender (Sent Reset)

/-! ### The calls other than `tick` -/

theorem sent_pushSegmentsOut {s : TCPSender} {d : TCPConnection} (h : Sent s d.sender) :
    Sent s d.pushSegmentsOut.sender := h.trans (Sent.of_eq rfl rfl rfl rfl rfl rfl)

theorem sent_reply {d : TCPConnection} (hd : d.sender.Sound) (seg : TCPSegment) :
    Sent d.sender (d.reply seg).sender := by
  have hfilled := hd.sent_fillWindow
  unfold reply
  split
  · dsimp only
    split
    · exact hfilled.trans (Sent.of_eq rfl rfl rfl rfl rfl rfl)
    · exact hfilled
  · exact Sent.refl _

theorem processed_timer {c : TCPConnection} (hs : c.sender.Sound) (seg : TCPSegment) :
    Sent c.sender (c.processed seg).sender ∨ Reset c.sender (c.processed seg).sender := by
  have hsound : ((c.received seg).acknowledge seg).noteInboundEnd.sender.Sound := by
    rw [noteInboundEnd_sender]
    exact ((c.received seg).acknowledge_moves seg).invariant (fun _ _ hmove => hmove.sound) hs
  have hreply : Sent ((c.received seg).acknowledge seg).sender (c.processed seg).sender := by
    have hsent := sent_reply hsound seg
    rw [noteInboundEnd_sender] at hsent
    exact sent_pushSegmentsOut hsent
  have hack : Sent c.sender ((c.received seg).acknowledge seg).sender ∨
      Reset c.sender ((c.received seg).acknowledge seg).sender := by
    unfold acknowledge
    split
    · exact TCPSender.ackReceived_timer (s := c.sender) hs _ _
    · exact Or.inl (Sent.refl _)
  exact hack.imp (fun h => h.trans hreply) fun h => h.sent hs hreply

theorem step_timer {c : TCPConnection} (hs : c.sender.Sound) {op : Op} (hop : ∀ ms, op ≠ .tick ms) :
    Sent c.sender (c.step op).sender ∨ Reset c.sender (c.step op).sender := by
  cases op with
  | connect => exact Or.inl (sent_pushSegmentsOut hs.sent_fillWindow)
  | write data =>
      left
      show Sent c.sender (c.write data).1.sender
      rcases Bool.eq_false_or_eq_true c.isActive with h | h
      · have hstream : Sent c.sender { c.sender with stream := (c.sender.stream.write data).1 } :=
          Sent.of_eq rfl rfl rfl rfl rfl rfl
        rw [write_active h]
        exact sent_pushSegmentsOut (hstream.trans (hs.write data).sent_fillWindow)
      · rw [write_inactive h]
        exact Sent.refl _
  | endInputStream =>
      have hstream : Sent c.sender { c.sender with stream := c.sender.stream.endInput } :=
        Sent.of_eq rfl rfl rfl rfl rfl rfl
      exact Or.inl (sent_pushSegmentsOut (hstream.trans hs.endInput.sent_fillWindow))
  | segmentReceived seg =>
      show Sent c.sender (c.segmentReceived seg).sender ∨ Reset c.sender (c.segmentReceived seg).sender
      rcases c.segmentReceived_cases seg with ⟨-, h⟩ | ⟨-, -, h⟩ | ⟨-, -, -, h⟩ | ⟨-, -, -, h⟩
      · rw [h]
        exact Or.inl (Sent.refl _)
      · rw [h, uncleanShutdown_eq]
        exact Or.inl (Sent.of_eq rfl rfl rfl rfl rfl rfl)
      · rw [h]
        exact Or.inl (Sent.refl _)
      · rw [h]
        exact processed_timer hs seg
  | tick ms => exact absurd rfl (hop ms)
  | readInbound len => exact Or.inl (Sent.refl _)

/-- What a tick emits, unless the retransmission is one too many. -/
theorem emittedSince_tick {c : TCPConnection} (hactive : c.isActive = true) {ms : ℕ}
    (hmax : (c.sender.tick ms).consecutiveRetransmissions ≤ TCPConfig.maxRetxAttempts) :
    c.emittedSince (c.tick ms) = (c.sender.tick ms).segmentsOut.map (c.tick ms).stamp := by
  rcases c.tick_cases ms with ⟨hno, -⟩ | ⟨-, hlt, -⟩ | ⟨-, -, heq⟩
  · exact absurd hactive (by simp [hno])
  · exact absurd hmax (UInt32.not_le.mpr hlt)
  · have hout : (c.tick ms).segmentsOut =
        c.segmentsOut ++ (c.sender.tick ms).segmentsOut.map (c.tick ms).stamp := by
      rw [heq, closeIfFinished_eq]
      rfl
    rw [emittedSince, hout, List.drop_left]

/-- A connection that is active after a call was active before it, apart from `connect`. -/
theorem active_of_step {c : TCPConnection} {op : Op} (hconnect : op = .connect → c.isActive = true)
    (hactive : (c.step op).isActive = true) : c.isActive = true := by
  by_contra hno
  rw [Bool.not_eq_true] at hno
  by_cases hop : op = .endInputStream
  · rw [hop] at hactive
    exact absurd hactive (by simp [step, endInputStream, pushSegmentsOut, hno])
  · have hop' : op ≠ .connect := fun hop' => absurd (hconnect hop') (by simp [hno])
    exact absurd hactive (by simp [(c.step_inactive hno hop' hop).1])

/-- A tick that leaves the connection active passes on what the sender has queued. -/
theorem tick_of_active {c : TCPConnection} {ms : ℕ} (h : (c.tick ms).isActive = true) :
    ¬TCPConfig.maxRetxAttempts < (c.sender.tick ms).consecutiveRetransmissions ∧
      (c.tick ms).sender = { c.sender.tick ms with segmentsOut := [] } := by
  rcases c.tick_cases ms with ⟨hno, heq⟩ | ⟨-, -, heq⟩ | ⟨-, hle, heq⟩
  · rw [heq] at h
    exact absurd h (by simp [hno])
  · rw [heq, uncleanShutdown_eq] at h
    exact absurd h (by simp [setErrors])
  · rw [heq, closeIfFinished_sender]
    exact ⟨hle, rfl⟩

end TCPConnection

/-! ### The history of the timer -/

/-- A connection with the number of expiries with an open window since a segment was last fully
acknowledged, and the time ticked since the timer started, expired, or was reset by such an
acknowledgment. -/
structure Timing where
  conn : TCPConnection
  backoffs : ℕ
  elapsed : ℕ

namespace Timing

open TCPConnection (Op)
open TCPSender (Sent Reset Relieved)

def new (cfg : TCPConfig) (random : UInt32) : Timing := ⟨TCPConnection.new cfg random, 0, 0⟩

/-- The tick queues a segment. -/
def Retransmits (s : TCPSender) (ms : ℕ) : Prop := (s.tick ms).segmentsOut ≠ s.segmentsOut

instance (s : TCPSender) (ms : ℕ) : Decidable (Retransmits s ms) :=
  inferInstanceAs (Decidable (_ ≠ _))

/-- Something was sent while nothing was outstanding. -/
def Starts (s t : TCPSender) : Prop := s.outstanding = [] ∧ t.outstanding ≠ []

instance (s t : TCPSender) : Decidable (Starts s t) := inferInstanceAs (Decidable (_ ∧ _))

/-- A call other than `tick` that leaves `c`. -/
def advance (t : Timing) (c : TCPConnection) : Timing :=
  if Relieved t.conn.sender c.sender then ⟨c, 0, 0⟩
  else if Starts t.conn.sender c.sender then ⟨c, t.backoffs, 0⟩
  else ⟨c, t.backoffs, t.elapsed⟩

def step (t : Timing) : Op → Timing
  | .tick ms =>
      if Retransmits t.conn.sender ms then
        ⟨t.conn.tick ms, t.backoffs + (if 0 < t.conn.sender.windowSize then 1 else 0), 0⟩
      else ⟨t.conn.tick ms, t.backoffs, t.elapsed + ms⟩
  | op => t.advance (t.conn.step op)

/-- Ticks stay below `2 ^ 31`, and nobody connects a connection that has ended, which nothing in
`connect` checks: its only caller, `TCPSpongeSocket::connect`, does so once, with a new connection. -/
def Allowed (t : Timing) : Op → Prop
  | .tick ms => ms < 2 ^ 31
  | .connect => t.conn.isActive = true
  | _ => True

instance (t : Timing) : DecidablePred t.Allowed
  | .tick ms => inferInstanceAs (Decidable (ms < 2 ^ 31))
  | .connect => inferInstanceAs (Decidable (t.conn.isActive = true))
  | .write _ | .endInputStream | .segmentReceived _ | .readInbound _ => isTrue trivial

@[simp] theorem advance_conn (t : Timing) (c : TCPConnection) : (t.advance c).conn = c := by
  unfold advance
  split
  · rfl
  · split <;> rfl

@[simp] theorem step_conn (t : Timing) (op : Op) : (t.step op).conn = t.conn.step op := by
  cases op with
  | tick ms =>
      unfold step
      dsimp only
      split <;> rfl
  | connect | write | endInputStream | segmentReceived | readInbound => exact t.advance_conn _

/-- How the sender's timer, timeout and counter follow from the history. -/
structure Tracks (rtTimeout : UInt16) (t : Timing) : Prop where
  sound : t.conn.sender.Sound
  initial : t.conn.sender.initialRetransmissionTimeout = rtTimeout.toUInt32
  rto : t.conn.sender.rto.toNat = rtTimeout.toNat * 2 ^ t.backoffs
  backoffs_le : t.backoffs ≤ t.conn.sender.consecutiveRetransmissions.toNat
  count_le : t.conn.sender.consecutiveRetransmissions.toNat ≤ 8
  timer : t.conn.sender.outstanding ≠ [] → t.conn.sender.timer.toNat = t.elapsed ∧
    t.elapsed < t.conn.sender.rto.toNat

namespace Tracks

variable {rtTimeout : UInt16} {t : Timing}

theorem new (cfg : TCPConfig) (random : UInt32) : Tracks cfg.rtTimeout (new cfg random) :=
  ⟨TCPSender.Sound.new _ _ _ _, rfl, (Nat.mul_one _).symm, le_refl _, Nat.zero_le _,
    fun hne => absurd rfl hne⟩

/-- The timeout is far from the end of its range. -/
theorem rto_lt (h : Tracks rtTimeout t) : t.conn.sender.rto.toNat < 2 ^ 24 := by
  have hrt := rtTimeout.toNat_lt
  have hpow : 2 ^ t.backoffs ≤ 2 ^ 8 :=
    Nat.pow_le_pow_right (by decide) (h.backoffs_le.trans h.count_le)
  rw [h.rto]
  calc rtTimeout.toNat * 2 ^ t.backoffs ≤ rtTimeout.toNat * 2 ^ 8 := Nat.mul_le_mul_left _ hpow
    _ < 2 ^ 24 := by omega

/-- The timer expires when the time passed has reached the timeout. -/
theorem expires_iff (h : Tracks rtTimeout t) {ms : ℕ} (hms : ms < 2 ^ 31) :
    t.conn.sender.Expires ms ↔
      t.conn.sender.outstanding ≠ [] ∧ t.conn.sender.rto.toNat ≤ t.elapsed + ms := by
  have hlt := h.rto_lt
  have hdue : t.conn.sender.outstanding ≠ [] →
      (t.conn.sender.rto ≤ UInt32.ofNat (t.conn.sender.timer.toNat + ms) ↔
        t.conn.sender.rto.toNat ≤ t.elapsed + ms) := by
    intro hne
    obtain ⟨htimer, helapsed⟩ := h.timer hne
    rw [UInt32.le_iff_toNat_le, UInt32.toNat_ofNat', htimer, Nat.mod_eq_of_lt (by omega)]
  exact ⟨fun ⟨_, hrto, hne⟩ => ⟨hne, (hdue hne).mp hrto⟩,
    fun ⟨hne, hrto⟩ => ⟨h.sound.running hne, (hdue hne).mpr hrto, hne⟩⟩

/-- A call other than `tick`. -/
theorem advance (h : Tracks rtTimeout t) (hrt : 1 ≤ rtTimeout.toNat) {op : Op}
    (hop : ∀ ms, op ≠ .tick ms) : Tracks rtTimeout (t.advance (t.conn.step op)) := by
  have hsound : (t.conn.step op).sender.Sound := TCPConnection.step_sound h.sound op
  rcases TCPConnection.step_timer h.sound hop with hsent | hreset
  · have hrto := congrArg UInt32.toNat hsent.rto
    have hcount := congrArg UInt32.toNat hsent.count
    have hpos : 0 < t.conn.sender.rto.toNat := by
      rw [h.rto]
      exact Nat.mul_pos hrt (Nat.two_pow_pos _)
    unfold Timing.advance
    rw [if_neg hsent.not_relieved]
    split
    · rename_i hstarts
      refine ⟨hsound, hsent.initial.trans h.initial, hrto.trans h.rto,
        h.backoffs_le.trans hcount.ge, hcount.trans_le h.count_le, fun hne => ?_⟩
      exact ⟨congrArg UInt32.toNat (hsent.restarted hstarts.1 hne), hpos.trans_eq hrto.symm⟩
    · rename_i hstarts
      refine ⟨hsound, hsent.initial.trans h.initial, hrto.trans h.rto,
        h.backoffs_le.trans hcount.ge, hcount.trans_le h.count_le, fun hne => ?_⟩
      have hbefore : t.conn.sender.outstanding ≠ [] := fun hnil => hstarts ⟨hnil, hne⟩
      obtain ⟨htimer, helapsed⟩ := h.timer hbefore
      exact ⟨(congrArg UInt32.toNat (hsent.unmoved (Or.inl hbefore))).trans htimer,
        helapsed.trans_eq hrto.symm⟩
  · have hrto : (t.conn.step op).sender.rto.toNat = rtTimeout.toNat := by
      rw [hreset.rto, h.initial]
      rfl
    have hcount : (t.conn.step op).sender.consecutiveRetransmissions.toNat = 0 := by
      rw [hreset.count]
      rfl
    unfold Timing.advance
    rw [if_pos hreset.relieved]
    exact ⟨hsound, hreset.initial.trans h.initial, hrto.trans (Nat.mul_one _).symm,
      Nat.zero_le _, hcount.trans_le (Nat.zero_le _),
      fun _ => ⟨congrArg UInt32.toNat hreset.timer, hrt.trans_eq hrto.symm⟩⟩

end Tracks

/-- A tick queues a segment exactly when the timer expires. -/
theorem retransmits_iff (s : TCPSender) (ms : ℕ) : Retransmits s ms ↔ s.Expires ms := by
  unfold Retransmits
  rcases s.tick_cases ms with ⟨hexpires, e, -, heq⟩ | ⟨hno, heq⟩
  · rw [heq]
    exact iff_of_true (by simp [TCPSender.resent]) hexpires
  · rw [heq]
    exact iff_of_false (fun hne => hne rfl) hno

namespace Tracks

variable {rtTimeout : UInt16} {t : Timing} {c : TCPConnection}

/-- An expiry: another back-off if the window is open. -/
theorem expire (h : Tracks rtTimeout t) (hrt : 1 ≤ rtTimeout.toNat) {seg : TCPSegment}
    (hsender : c.sender = { t.conn.sender.resent seg with segmentsOut := [] })
    (hmax : ¬TCPConfig.maxRetxAttempts < (t.conn.sender.resent seg).consecutiveRetransmissions)
    (hsound : c.sender.Sound) :
    Tracks rtTimeout ⟨c, t.backoffs + (if 0 < t.conn.sender.windowSize then 1 else 0), 0⟩ := by
  have hlt := h.rto_lt
  have hbackoffs := h.backoffs_le
  have hcount := h.count_le
  have hone : (1 : UInt32).toNat = 1 := rfl
  have htwo : (2 : UInt32).toNat = 2 := rfl
  rw [UInt32.lt_iff_toNat_lt, not_lt] at hmax
  have hbound : (t.conn.sender.consecutiveRetransmissions + 1).toNat ≤ 8 := hmax
  have hnext : (t.conn.sender.consecutiveRetransmissions + 1).toNat =
      t.conn.sender.consecutiveRetransmissions.toNat + 1 := by
    rw [UInt32.toNat_add, hone, Nat.mod_eq_of_lt (by omega)]
  have hdouble : (t.conn.sender.rto * 2).toNat = t.conn.sender.rto.toNat * 2 := by
    rw [UInt32.toNat_mul, htwo, Nat.mod_eq_of_lt (by omega)]
  have hrto : (if 0 < t.conn.sender.windowSize then t.conn.sender.rto * 2
      else t.conn.sender.rto).toNat = rtTimeout.toNat *
        2 ^ (t.backoffs + if 0 < t.conn.sender.windowSize then 1 else 0) := by
    split
    · rw [hdouble, h.rto, Nat.pow_succ, Nat.mul_assoc]
    · rw [h.rto, Nat.add_zero]
  refine ⟨hsound, ?_, ?_, ?_, ?_, fun _ => ⟨?_, ?_⟩⟩
  · rw [hsender]
    exact h.initial
  · rw [hsender]
    exact hrto
  · rw [hsender]
    show t.backoffs + (if 0 < t.conn.sender.windowSize then 1 else 0) ≤
      (t.conn.sender.consecutiveRetransmissions + 1).toNat
    split <;> omega
  · rw [hsender]
    exact hbound
  · rw [hsender]
    rfl
  · rw [hsender]
    exact (Nat.mul_pos hrt (Nat.two_pow_pos _)).trans_eq hrto.symm

/-- Time passes, and the timer does not expire. -/
theorem wait (h : Tracks rtTimeout t) {ms : ℕ} (hms : ms < 2 ^ 31)
    (hearly : ¬t.conn.sender.Expires ms)
    (hsender : c.sender = { t.conn.sender with
      timer := if t.conn.sender.timerRunning then UInt32.ofNat (t.conn.sender.timer.toNat + ms)
        else t.conn.sender.timer
      segmentsOut := [] })
    (hsound : c.sender.Sound) : Tracks rtTimeout ⟨c, t.backoffs, t.elapsed + ms⟩ := by
  have hlt := h.rto_lt
  refine ⟨hsound, ?_, ?_, ?_, ?_, fun hne => ?_⟩
  · rw [hsender]
    exact h.initial
  · rw [hsender]
    exact h.rto
  · rw [hsender]
    exact h.backoffs_le
  · rw [hsender]
    exact h.count_le
  · dsimp only at hne ⊢
    rw [hsender] at hne ⊢
    have hne : t.conn.sender.outstanding ≠ [] := hne
    obtain ⟨htimer, helapsed⟩ := h.timer hne
    have hsoon : t.elapsed + ms < t.conn.sender.rto.toNat :=
      not_le.mp fun hdue => hearly ((h.expires_iff hms).mpr ⟨hne, hdue⟩)
    refine ⟨?_, hsoon⟩
    dsimp only
    rw [if_pos (h.sound.running hne), UInt32.toNat_ofNat', htimer, Nat.mod_eq_of_lt (by omega)]

/-- One tick of a connection that stays active. -/
theorem tick (h : Tracks rtTimeout t) (hrt : 1 ≤ rtTimeout.toNat) {ms : ℕ} (hms : ms < 2 ^ 31)
    (hactive : (t.conn.tick ms).isActive = true) : Tracks rtTimeout (t.step (.tick ms)) := by
  have hsound := TCPConnection.step_sound h.sound (.tick ms)
  obtain ⟨hmax, hsender⟩ := TCPConnection.tick_of_active hactive
  unfold Timing.step
  dsimp only
  rcases t.conn.sender.tick_cases ms with ⟨hexpires, e, -, heq⟩ | ⟨hearly, heq⟩
  · rw [if_pos ((retransmits_iff _ ms).mpr hexpires)]
    rw [heq] at hmax hsender
    exact h.expire hrt hsender hmax hsound
  · rw [if_neg (fun hsent => hearly ((retransmits_iff _ ms).mp hsent))]
    rw [heq] at hsender
    exact h.wait hms hearly hsender hsound

end Tracks

/-- One call: as long as the connection is active the history tells the timeout. -/
theorem step_tracks {rtTimeout : UInt16} {t : Timing} (hrt : 1 ≤ rtTimeout.toNat) {op : Op}
    (hop : t.Allowed op) (h : t.conn.isActive = true → Tracks rtTimeout t)
    (hactive : (t.step op).conn.isActive = true) : Tracks rtTimeout (t.step op) := by
  rw [step_conn] at hactive
  have hbefore : t.conn.isActive = true := by
    refine TCPConnection.active_of_step (fun hconnect => ?_) hactive
    rw [hconnect] at hop
    exact hop
  by_cases htick : ∃ ms, op = .tick ms
  · obtain ⟨ms, rfl⟩ := htick
    exact (h hbefore).tick hrt hop hactive
  · have hother : ∀ ms, op ≠ .tick ms := fun ms heq => htick ⟨ms, heq⟩
    have hadvance : t.step op = t.advance (t.conn.step op) := by
      cases op with
      | tick ms => exact absurd rfl (hother ms)
      | connect | write | endInputStream | segmentReceived | readInbound => rfl
    rw [hadvance]
    exact (h hbefore).advance hrt hother

/-- The time passed has reached the timeout, and something is outstanding. -/
def Due (t : Timing) (ms : ℕ) : Prop :=
  t.conn.sender.outstanding ≠ [] ∧ t.conn.sender.rto.toNat ≤ t.elapsed + ms

instance (t : Timing) (ms : ℕ) : Decidable (t.Due ms) := inferInstanceAs (Decidable (_ ∧ _))

/-- **Retransmission timing.**  In every active state of a run with a timeout of at least one
millisecond, ticks below `2 ^ 31`, and no `connect` after the end, the timeout is the initial one times
two to the number of back-offs; a tick makes the sender queue a segment exactly if something is
outstanding and the time passed has reached the timeout, and then it queues the outstanding segment
with the lowest number and nothing else.  The connection emits what was queued, unless it gives
up. -/
theorem retransmission_timing (cfg : TCPConfig) (random : UInt32) (hrt : 1 ≤ cfg.rtTimeout.toNat)
    (ops : List Op) (hops : StepSystem.Guarded step Allowed (new cfg random) ops) (t : Timing)
    (ht : t = StepSystem.run step (new cfg random) ops) (hactive : t.conn.isActive = true) :
    t.conn.sender.rto.toNat = cfg.rtTimeout.toNat * 2 ^ t.backoffs ∧
    ∀ ms < 2 ^ 31,
      (t.Due ms → ∃ e ∈ t.conn.sender.outstanding,
        (∀ f ∈ t.conn.sender.outstanding, e.1 ≤ f.1) ∧
        (t.conn.sender.tick ms).segmentsOut = [e.2]) ∧
      (¬t.Due ms → (t.conn.sender.tick ms).segmentsOut = []) ∧
      ((t.conn.sender.tick ms).consecutiveRetransmissions ≤ TCPConfig.maxRetxAttempts →
        t.conn.emittedSince (t.conn.tick ms) =
          (t.conn.sender.tick ms).segmentsOut.map (t.conn.tick ms).stamp) := by
  have h : Tracks cfg.rtTimeout t := by
    subst ht
    exact hops.invariant (P := fun t => t.conn.isActive = true → Tracks cfg.rtTimeout t)
      (fun _ _ hop h => step_tracks hrt hop h) (fun _ => Tracks.new cfg random) hactive
  have hdrained : t.conn.sender.segmentsOut = [] := by
    subst ht
    have hrun : (StepSystem.run step (new cfg random) ops).conn.Drained :=
      StepSystem.run_invariant (P := fun t : Timing => t.conn.Drained)
        (fun t op ht => by rw [step_conn]; exact TCPConnection.step_drained ht op) ops fun _ => rfl
    exact hrun hactive
  refine ⟨h.rto, fun ms hms => ⟨fun hdue => ?_, fun hearly => ?_,
    TCPConnection.emittedSince_tick hactive⟩⟩
  · rcases t.conn.sender.tick_cases ms with ⟨-, e, hhead, heq⟩ | ⟨hno, -⟩
    · refine ⟨e, List.mem_of_head? hhead, SortedMap.head?_le hhead, ?_⟩
      rw [heq, TCPSender.resent, hdrained]
      rfl
    · exact absurd ((h.expires_iff hms).mpr hdue) hno
  · rcases t.conn.sender.tick_cases ms with ⟨hexpires, -⟩ | ⟨-, heq⟩
    · exact absurd ((h.expires_iff hms).mp hexpires) hearly
    · rw [heq]
      exact hdrained

/-- A SYN that nobody answers: sent again after 1000 ms, and not before another 2000 have passed. -/
theorem retransmission_timing_syn :
    let t := StepSystem.run step (new { fixedIsn := some ⟨0⟩ } 0)
      [.connect, .tick 400, .tick 700, .tick 1500]
    t.conn.sender.rto.toNat = 1000 * 2 ^ 1 ∧ (t.conn.sender.tick 499).segmentsOut = [] ∧
      ∃ e ∈ t.conn.sender.outstanding, (t.conn.sender.tick 500).segmentsOut = [e.2] := by
  intro t
  obtain ⟨hrto, hticks⟩ := retransmission_timing { fixedIsn := some ⟨0⟩ } 0 (by decide)
    [.connect, .tick 400, .tick 700, .tick 1500] (by decide +kernel) t rfl (by decide +kernel)
  have hbackoffs : t.backoffs = 1 := by decide +kernel
  have hrto : t.conn.sender.rto.toNat = 1000 * 2 ^ t.backoffs := hrto
  rw [hbackoffs] at hrto
  obtain ⟨e, he, -, hsent⟩ := (hticks 500 (by decide)).1 (by decide +kernel)
  exact ⟨hrto, (hticks 499 (by decide)).2.1 (by decide +kernel), e, he, hsent⟩

/-- Nobody answers, and after every tick the connection is connected again, also when it has given
up. -/
def reconnects : List Op := (List.replicate 24 [Op.connect, .tick (2 ^ 31 - 1)]).flatten ++ [.connect]

/-- `connect` revives a connection that has given up, without a new timeout or a new counter, so
nothing bounds the number of back-offs: after 23 of them the timeout has overflowed. -/
theorem retransmission_timing_overflows :
    ¬∀ ops : List Op, (∀ ms, .tick ms ∈ ops → ms < 2 ^ 31) →
      let t := StepSystem.run step (new { fixedIsn := some ⟨0⟩ } 0) ops
      t.conn.isActive = true → t.conn.sender.rto.toNat = 1000 * 2 ^ t.backoffs := by
  intro h
  refine absurd (h reconnects (fun ms hms => ?_) (by decide +kernel)) (by decide +kernel)
  simp only [reconnects, List.mem_append, List.mem_flatten, List.mem_replicate] at hms
  rcases hms with ⟨l, ⟨-, rfl⟩, hl⟩ | hl
  · simp only [List.mem_cons, reduceCtorEq, Op.tick.injEq, false_or, List.not_mem_nil,
      or_false] at hl
    omega
  · simp at hl

end Timing

end CourseNet
