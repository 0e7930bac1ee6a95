import CourseNet.SenderFill

/-!
# The sender's invariant

`Sound` ties the sequence numbers to the stream and to the outstanding segments: `_next_seqno`
counts the SYN, the bytes taken from the stream and the FIN; every outstanding segment ends after
the highest acknowledged number; and as long as something is unacknowledged the last segment sent
is outstanding.  `Tight` is the half of the timer's law that only holds between calls.
-/

namespace CourseNet

namespace TCPSender

/-- The entries of the outstanding map. -/
abbrev outstanding (s : TCPSender) : List (ℕ × TCPSegment) := s.outstandingSegments.entries

structure Sound (s : TCPSender) : Prop where
  syn_unsent : s.synSent = false → s.stream.bytesRead = 0 ∧ s.finSent = false
  next_eq : s.nextSeqno = s.synSent.toNat + s.stream.bytesRead + s.finSent.toNat
  fin_sent : s.finSent = true → s.stream.inputEnded = true ∧ s.stream.buffer = []
  ackno_le : s.ackno ≤ s.nextSeqno
  tracked : ∀ e ∈ s.outstanding, 0 < e.2.lengthInSequenceSpace ∧
    s.ackno < e.1 + e.2.lengthInSequenceSpace ∧ e.1 + e.2.lengthInSequenceSpace ≤ s.nextSeqno
  last : s.ackno < s.nextSeqno →
    ∃ e ∈ s.outstanding, e.1 + e.2.lengthInSequenceSpace = s.nextSeqno
  running : s.outstanding ≠ [] → s.timerRunning = true

/-- The timer runs only while something is outstanding. -/
def Tight (s : TCPSender) : Prop := s.timerRunning = true → s.outstanding ≠ []

theorem Sound.new (capacity : ℕ) (retxTimeout : UInt16) (fixedIsn : Option WrappingInt32)
    (random : UInt32) : (TCPSender.new capacity retxTimeout fixedIsn random).Sound :=
  ⟨fun _ => ⟨rfl, rfl⟩, rfl, fun h => absurd h (by simp [TCPSender.new]), le_refl _,
    fun _ he => absurd he List.not_mem_nil, fun h => absurd h (lt_irrefl _), fun h => absurd rfl h⟩

theorem Tight.new (capacity : ℕ) (retxTimeout : UInt16) (fixedIsn : Option WrappingInt32)
    (random : UInt32) : (TCPSender.new capacity retxTimeout fixedIsn random).Tight :=
  fun h => absurd h (by simp [TCPSender.new])

/-! ### What follows from the invariant -/

namespace Sound

variable {s : TCPSender}

/-- Outstanding segments are empty exactly when everything sent is acknowledged. -/
theorem outstanding_eq_nil (h : s.Sound) : s.outstanding = [] ↔ s.nextSeqno = s.ackno := by
  constructor
  · intro hnil
    by_contra hne
    obtain ⟨e, he, -⟩ := h.last (lt_of_le_of_ne h.ackno_le (Ne.symm hne))
    rw [hnil] at he
    exact List.not_mem_nil he
  · intro heq
    by_contra hne
    obtain ⟨e, he⟩ := List.exists_mem_of_ne_nil _ hne
    obtain ⟨-, hlo, hhi⟩ := h.tracked e he
    omega

theorem key_lt (h : s.Sound) : ∀ e ∈ s.outstanding, e.1 < s.nextSeqno := by
  intro e he
  obtain ⟨hpos, -, hhi⟩ := h.tracked e he
  omega

theorem bytesInFlight_eq_zero (h : s.Sound) : s.bytesInFlight = 0 ↔ s.outstanding = [] := by
  constructor
  · intro hsum
    by_contra hne
    obtain ⟨e, he⟩ := List.exists_mem_of_ne_nil _ hne
    have hzero : e.2.lengthInSequenceSpace = 0 :=
      List.sum_eq_zero_iff_forall_eq_nat.mp hsum _ (List.mem_map_of_mem he)
    have := (h.tracked e he).1
    omega
  · intro hnil
    rw [bytesInFlight, show s.outstandingSegments.entries = [] from hnil]
    rfl

/-- After the FIN there is nothing to send. -/
theorem done_of_finSent (h : s.Sound) (hfin : s.finSent = true) : s.Done := by
  refine ⟨?_, (h.fin_sent hfin).2, fun _ => hfin⟩
  by_contra hsyn
  have := (h.syn_unsent (by simpa using hsyn)).2
  simp [this] at hfin

end Sound

/-! ### Sends -/

/-- What a transmission does to the tracking, given the parts of the invariant it needs. -/
theorem transmit_outstanding {s : TCPSender} (hlt : ∀ e ∈ s.outstanding, e.1 < s.nextSeqno)
    (seg : TCPSegment) : (s.transmit seg).outstanding = s.outstanding ++ [(s.nextSeqno, seg)] :=
  SortedMap.assign_entries_of_lt hlt

theorem transmit_running {s : TCPSender} (h : s.outstanding ≠ [] → s.timerRunning = true)
    (seg : TCPSegment) : (s.transmit seg).timerRunning = true := by
  show (if s.outstanding.isEmpty then true else s.timerRunning) = true
  split
  · rfl
  · rename_i hne
    exact h (by simpa using hne)

namespace Sound

variable {s s' : TCPSender}

/-- At a send of stream bytes or of the FIN, the FIN was not sent before. -/
theorem finSent_of_sends (h : s.Sound) {n : ℕ} {fin : Bool}
    (hn : n ≤ s.stream.buffer.length) (hpos : 0 < n + fin.toNat)
    (hfin : fin = true → s.finSent = false) : s.finSent = false := by
  cases hf : fin with
  | true => exact hfin hf
  | false =>
      by_contra hsent
      have hbuf := (h.fin_sent (by simpa using hsent)).2
      rw [hf, Bool.toNat_false] at hpos
      rw [hbuf, List.length_nil] at hn
      omega

/-- What a send queues and tracks: one segment, which is not a RST. -/
theorem sends_outstanding (h : s.Sound) {right : ℕ} (hsend : Sends right s s') :
    ∃ seg : TCPSegment, s'.outstanding = s.outstanding ++ [(s.nextSeqno, seg)] ∧
      s'.nextSeqno = s.nextSeqno + seg.lengthInSequenceSpace ∧
      s'.segmentsOut = s.segmentsOut ++ [seg] ∧ seg.header.rst = false := by
  cases hsend with
  | syn hsyn hlt => exact ⟨s.synSegment, transmit_outstanding h.key_lt _, rfl, rfl, rfl⟩
  | stream n fin hsyn hn hmax hpos hfit hfin =>
      refine ⟨s.streamSegment n fin, ?_, rfl, rfl, rfl⟩
      exact transmit_outstanding (s := { s with stream := s.stream.popOutput n }) h.key_lt _

theorem sends_running (h : s.Sound) {right : ℕ} (hsend : Sends right s s') :
    s'.timerRunning = true := by
  cases hsend with
  | syn hsyn hlt => exact transmit_running h.running s.synSegment
  | stream n fin hsyn hn hmax hpos hfit hfin =>
      exact transmit_running (s := { s with stream := s.stream.popOutput n }) h.running
        (s.streamSegment n fin)

theorem sends_tracked (h : s.Sound) {right : ℕ} (hsend : Sends right s s') :
    ∀ e ∈ s'.outstanding, 0 < e.2.lengthInSequenceSpace ∧
      s'.ackno < e.1 + e.2.lengthInSequenceSpace ∧
      e.1 + e.2.lengthInSequenceSpace ≤ s'.nextSeqno := by
  obtain ⟨seg, hout, hnext, -⟩ := h.sends_outstanding hsend
  have hlt := hsend.next_bounds.1
  have hack := hsend.frame.ackno
  have hle := h.ackno_le
  intro e he
  rw [hout] at he
  rcases List.mem_append.mp he with he | he
  · obtain ⟨hpos, hlo, hhi⟩ := h.tracked e he
    exact ⟨hpos, by omega, by omega⟩
  · rw [List.mem_singleton.mp he]
    dsimp only
    exact ⟨by omega, by omega, by omega⟩

/-- A send counts the SYN, the bytes and the FIN that it takes. -/
theorem sends_next_eq (h : s.Sound) {right : ℕ} (hsend : Sends right s s') :
    s'.nextSeqno = s'.synSent.toNat + s'.stream.bytesRead + s'.finSent.toNat := by
  have hnext := h.next_eq
  cases hsend with
  | syn hsyn hlt =>
      obtain ⟨hread, hfin⟩ := h.syn_unsent hsyn
      rw [hsyn, hread, hfin] at hnext
      show s.nextSeqno + 1 = true.toNat + s.stream.bytesRead + s.finSent.toNat
      rw [hnext, hread, hfin]
      rfl
  | stream n fin hsyn hn hmax hpos hfit hfin =>
      have hsent := h.finSent_of_sends hn hpos fun hf => (hfin hf).1
      rw [hsyn, hsent] at hnext
      show (s.sendStream n fin).nextSeqno = s.synSent.toNat +
        (s.stream.bytesRead + min n s.stream.buffer.length) + (s.finSent || fin).toNat
      rw [sendStream_next s fin hn, hnext, hsyn, hsent, min_eq_left hn, Bool.false_or,
        Bool.toNat_false]
      omega

/-- The FIN is sent with the last bytes of an ended stream. -/
theorem sends_fin_sent (h : s.Sound) {right : ℕ} (hsend : Sends right s s')
    (hf : s'.finSent = true) : s'.stream.inputEnded = true ∧ s'.stream.buffer = [] := by
  cases hsend with
  | syn hsyn hlt => exact h.fin_sent hf
  | stream n fin hsyn hn hmax hpos hfit hfin =>
      have hsent := h.finSent_of_sends hn hpos fun hf => (hfin hf).1
      have hf : fin = true := by simpa [sendStream, transmit, hsent] using hf
      obtain ⟨-, hended, hlen⟩ := hfin hf
      exact ⟨hended, by rw [hf]; exact (sendStream_done hsyn hlen).2.1⟩

theorem sends (h : s.Sound) {right : ℕ} (hsend : Sends right s s') : s'.Sound := by
  obtain ⟨seg, hout, hnext, -⟩ := h.sends_outstanding hsend
  have hlt := hsend.next_bounds.1
  have hack := hsend.frame.ackno
  have hle := h.ackno_le
  have hsyn : s'.synSent = true := by
    cases hsend with
    | syn hsyn hlt => rfl
    | stream n fin hsyn hn hmax hpos hfit hfin => exact hsyn
  refine ⟨fun hno => absurd hsyn (by simp [hno]), h.sends_next_eq hsend, h.sends_fin_sent hsend,
    by omega, h.sends_tracked hsend, fun _ => ?_, fun _ => h.sends_running hsend⟩
  exact ⟨(s.nextSeqno, seg), by rw [hout]; simp, hnext.symm⟩

theorem fillWindow (h : s.Sound) : s.fillWindow.Sound :=
  fillWindow_invariant h fun _ _ ht hsend => ht.sends hsend

end Sound

theorem Tight.fillWindow {s : TCPSender} (hs : s.Sound) (h : s.Tight) : s.fillWindow.Tight := by
  refine (fillWindow_invariant (P := fun t => t.Sound ∧ t.Tight) ⟨hs, h⟩ ?_).2
  rintro t t' ⟨ht, -⟩ hsend
  obtain ⟨seg, hout, -⟩ := ht.sends_outstanding hsend
  exact ⟨ht.sends hsend, fun _ => by rw [hout]; simp⟩

/-! ### Acknowledgments -/

/-- An entry that the acknowledgment does not cover stays. -/
theorem dropAcked_outstanding (s : TCPSender) (a : ℕ) :
    (s.dropAcked a).outstanding =
      s.outstanding.filter fun e => !decide (e.1 + e.2.lengthInSequenceSpace ≤ a) := by
  unfold dropAcked
  dsimp only
  split <;> rfl

theorem noteAck_outstanding (s : TCPSender) (a : ℕ) (w : UInt16) (e : ℕ × TCPSegment) :
    e ∈ (s.noteAck a w).outstanding ↔
      e ∈ s.outstanding ∧ a < e.1 + e.2.lengthInSequenceSpace := by
  show e ∈ (dropAcked { s with windowSize := w } a).outstanding ↔ _
  rw [dropAcked_outstanding, List.mem_filter]
  simp

/-- What `ack_received` has done, beside dropping segments, when it calls `fill_window`. -/
structure NoteAckFrame (s t : TCPSender) (a : ℕ) (w : UInt16) : Prop where
  isn : t.isn = s.isn
  synSent : t.synSent = s.synSent
  finSent : t.finSent = s.finSent
  stream : t.stream = s.stream
  nextSeqno : t.nextSeqno = s.nextSeqno
  ackno : t.ackno = max s.ackno a
  windowSize : t.windowSize = w
  timerRunning : t.timerRunning = s.timerRunning
  segmentsOut : t.segmentsOut = s.segmentsOut

theorem noteAck_frame (s : TCPSender) (a : ℕ) (w : UInt16) :
    NoteAckFrame s (s.noteAck a w) a w := by
  unfold noteAck dropAcked
  dsimp only
  constructor <;> split <;> rfl

/-- `ack_received` drops an ACK of something not yet sent, and else notes it and sends. -/
theorem ackReceived_cases (s : TCPSender) (ackno : WrappingInt32) (w : UInt16) :
    (s.nextSeqno < s.absoluteAckno ackno ∧ s.ackReceived ackno w = s) ∨
    (s.absoluteAckno ackno ≤ s.nextSeqno ∧
      s.ackReceived ackno w = (s.noteAck (s.absoluteAckno ackno) w).fillWindow.stopTimer) := by
  unfold ackReceived
  generalize s.absoluteAckno ackno = a
  rcases Nat.lt_or_ge s.nextSeqno a with hlt | hge
  · exact Or.inl ⟨hlt, if_pos hlt⟩
  · exact Or.inr ⟨hge, if_neg (not_lt.mpr hge)⟩

theorem stopTimer_eq (s : TCPSender) :
    s.stopTimer = { s with timerRunning := s.stopTimer.timerRunning } := by
  unfold stopTimer
  split <;> rfl

/-- What every change of the sender by its connection leaves alone. -/
structure MoveFrame (s t : TCPSender) : Prop where
  isn : t.isn = s.isn
  inputEnded : t.stream.inputEnded = s.stream.inputEnded
  finSent : s.finSent = true → t.finSent = true

theorem ackReceived_frame (s : TCPSender) (ackno : WrappingInt32) (w : UInt16) :
    MoveFrame s (s.ackReceived ackno w) := by
  rcases s.ackReceived_cases ackno w with ⟨-, heq⟩ | ⟨-, heq⟩
  · rw [heq]
    exact ⟨rfl, rfl, id⟩
  · have hnoted := s.noteAck_frame (s.absoluteAckno ackno) w
    have hfilled := (s.noteAck (s.absoluteAckno ackno) w).fillWindow_frame
    rw [heq, stopTimer_eq]
    exact ⟨hfilled.isn.trans hnoted.isn,
      hfilled.inputEnded.trans (congrArg (·.inputEnded) hnoted.stream),
      fun h => hfilled.finSent (hnoted.finSent.trans h)⟩

/-- The highest acknowledged number moves only to the number of the ACK. -/
theorem ackReceived_ackno (s : TCPSender) (ackno : WrappingInt32) (w : UInt16) :
    (s.ackReceived ackno w).ackno = s.ackno ∨
      (s.ackno < s.absoluteAckno ackno ∧ s.absoluteAckno ackno ≤ s.nextSeqno ∧
        (s.ackReceived ackno w).ackno = s.absoluteAckno ackno) := by
  rcases s.ackReceived_cases ackno w with ⟨-, heq⟩ | ⟨hle, heq⟩
  · exact Or.inl (by rw [heq])
  · have hack : (s.ackReceived ackno w).ackno = max s.ackno (s.absoluteAckno ackno) := by
      rw [heq, stopTimer_eq]
      exact (s.noteAck _ w).fillWindow_frame.ackno.trans (s.noteAck_frame _ w).ackno
    rw [hack]
    rcases Nat.lt_or_ge s.ackno (s.absoluteAckno ackno) with hlt | hge
    · exact Or.inr ⟨hlt, hle, max_eq_right hlt.le⟩
    · exact Or.inl (max_eq_left hge)

namespace Sound

variable {s : TCPSender}

theorem noteAck (h : s.Sound) {a : ℕ} (ha : a ≤ s.nextSeqno) (w : UInt16) :
    (s.noteAck a w).Sound := by
  have hframe := s.noteAck_frame a w
  have hout := s.noteAck_outstanding a w
  refine ⟨?_, ?_, ?_, ?_, fun e he => ?_, fun hlt => ?_, fun hne => ?_⟩
  · rw [hframe.synSent, hframe.finSent, hframe.stream]
    exact h.syn_unsent
  · rw [hframe.nextSeqno, hframe.synSent, hframe.finSent, hframe.stream]
    exact h.next_eq
  · rw [hframe.finSent, hframe.stream]
    exact h.fin_sent
  · rw [hframe.ackno, hframe.nextSeqno]
    exact max_le h.ackno_le ha
  · obtain ⟨hmem, hgt⟩ := (hout e).mp he
    obtain ⟨hpos, hlo, hhi⟩ := h.tracked e hmem
    rw [hframe.ackno, hframe.nextSeqno]
    exact ⟨hpos, max_lt hlo hgt, hhi⟩
  · rw [hframe.ackno, hframe.nextSeqno] at hlt
    obtain ⟨e, he, hend⟩ := h.last ((le_max_left _ _).trans_lt hlt)
    refine ⟨e, (hout e).mpr ⟨he, ?_⟩, by rw [hend, hframe.nextSeqno]⟩
    rw [hend]
    exact (le_max_right _ _).trans_lt hlt
  · obtain ⟨e, he⟩ := List.exists_mem_of_ne_nil _ hne
    rw [hframe.timerRunning]
    exact h.running (List.ne_nil_of_mem ((hout e).mp he).1)

theorem stopTimer (h : s.Sound) : s.stopTimer.Sound := by
  unfold TCPSender.stopTimer
  split
  · rename_i hnil
    refine ⟨h.syn_unsent, h.next_eq, h.fin_sent, h.ackno_le, h.tracked, h.last, fun hne => ?_⟩
    exact absurd (List.isEmpty_iff.mp hnil) hne
  · exact h

theorem ackReceived (h : s.Sound) (ackno : WrappingInt32) (w : UInt16) :
    (s.ackReceived ackno w).Sound := by
  rcases s.ackReceived_cases ackno w with ⟨-, heq⟩ | ⟨hle, heq⟩
  · rw [heq]
    exact h
  · rw [heq]
    exact (h.noteAck hle w).fillWindow.stopTimer

end Sound

theorem stopTimer_tight (s : TCPSender) : s.stopTimer.Tight := by
  unfold stopTimer Tight
  split
  · exact fun h => absurd h (by simp)
  · rename_i hne
    exact fun _ => by simpa using hne

theorem Tight.ackReceived {s : TCPSender} (h : s.Tight) (ackno : WrappingInt32) (w : UInt16) :
    (s.ackReceived ackno w).Tight := by
  rcases s.ackReceived_cases ackno w with ⟨-, heq⟩ | ⟨-, heq⟩
  · rw [heq]
    exact h
  · rw [heq]
    exact stopTimer_tight _

/-! ### Ticks, empty segments, and the stream -/

/-- The timer expires within `ms`, and there is something to send again. -/
def Expires (s : TCPSender) (ms : ℕ) : Prop :=
  s.timerRunning = true ∧ s.rto ≤ UInt32.ofNat (s.timer.toNat + ms) ∧ s.outstanding ≠ []

/-- The sender after the timer expired and `seg` was queued again. -/
def resent (s : TCPSender) (seg : TCPSegment) : TCPSender :=
  { s with
      timer := 0
      segmentsOut := s.segmentsOut ++ [seg]
      rto := if 0 < s.windowSize then s.rto * 2 else s.rto
      consecutiveRetransmissions := s.consecutiveRetransmissions + 1 }

/-- The two ways a tick goes: the outstanding segment with the lowest number is queued again, or only
time passes. -/
theorem tick_cases (s : TCPSender) (ms : ℕ) :
    (s.Expires ms ∧ ∃ e, s.outstanding.head? = some e ∧ s.tick ms = s.resent e.2) ∨
    (¬s.Expires ms ∧ s.tick ms =
      { s with
          timer := if s.timerRunning then UInt32.ofNat (s.timer.toNat + ms) else s.timer }) := by
  unfold tick retransmit
  split
  · rename_i hrun
    dsimp only
    split
    · rename_i hdue
      split
      · rename_i hnil
        exact Or.inr ⟨fun h => h.2.2 hnil, rfl⟩
      · rename_i k seg rest hout
        refine Or.inl ⟨⟨hrun, hdue, by simp [outstanding, hout]⟩, (k, seg), ?_, rfl⟩
        rw [outstanding, hout, List.head?_cons]
    · rename_i hearly
      exact Or.inr ⟨fun h => hearly h.2.1, rfl⟩
  · rename_i hstopped
    exact Or.inr ⟨fun h => hstopped h.1, rfl⟩

/-- What a tick leaves alone. -/
structure TickFrame (s t : TCPSender) : Prop where
  isn : t.isn = s.isn
  synSent : t.synSent = s.synSent
  finSent : t.finSent = s.finSent
  stream : t.stream = s.stream
  nextSeqno : t.nextSeqno = s.nextSeqno
  ackno : t.ackno = s.ackno
  windowSize : t.windowSize = s.windowSize
  timerRunning : t.timerRunning = s.timerRunning
  outstanding : t.outstanding = s.outstanding

theorem tick_frame (s : TCPSender) (ms : ℕ) : TickFrame s (s.tick ms) := by
  rcases s.tick_cases ms with ⟨-, e, -, heq⟩ | ⟨-, heq⟩
  · rw [heq]
    exact ⟨rfl, rfl, rfl, rfl, rfl, rfl, rfl, rfl, rfl⟩
  · rw [heq]
    exact ⟨rfl, rfl, rfl, rfl, rfl, rfl, rfl, rfl, rfl⟩

/-- A tick queues nothing or the outstanding segment with the lowest number. -/
theorem tick_queued (s : TCPSender) (ms : ℕ) :
    (s.tick ms).segmentsOut = s.segmentsOut ∨
      ∃ e, s.outstanding.head? = some e ∧
        (s.tick ms).segmentsOut = s.segmentsOut ++ [e.2] := by
  rcases s.tick_cases ms with ⟨-, e, hhead, heq⟩ | ⟨-, heq⟩
  · exact Or.inr ⟨e, hhead, by rw [heq]; rfl⟩
  · exact Or.inl (by rw [heq])

/-- A tick queues nothing or an outstanding segment. -/
theorem tick_segmentsOut (s : TCPSender) (ms : ℕ) :
    (s.tick ms).segmentsOut = s.segmentsOut ∨
      ∃ e ∈ s.outstanding, (s.tick ms).segmentsOut = s.segmentsOut ++ [e.2] :=
  (s.tick_queued ms).imp_right fun ⟨e, he, hqueue⟩ => ⟨e, List.mem_of_head? he, hqueue⟩

namespace Sound

variable {s : TCPSender}

/-- The invariant speaks of these fields only. -/
theorem congr {t : TCPSender} (h : s.Sound) (hsyn : t.synSent = s.synSent)
    (hfin : t.finSent = s.finSent) (hstream : t.stream = s.stream)
    (hnext : t.nextSeqno = s.nextSeqno) (hack : t.ackno = s.ackno)
    (hrun : t.timerRunning = s.timerRunning) (hout : t.outstanding = s.outstanding) :
    t.Sound := by
  obtain ⟨h₁, h₂, h₃, h₄, h₅, h₆, h₇⟩ := h
  refine ⟨?_, ?_, ?_, ?_, ?_, ?_, ?_⟩ <;>
    simpa only [hsyn, hfin, hstream, hnext, hack, hrun, hout]

theorem tick (h : s.Sound) (ms : ℕ) : (s.tick ms).Sound := by
  have hframe := s.tick_frame ms
  exact h.congr hframe.synSent hframe.finSent hframe.stream hframe.nextSeqno hframe.ackno
    hframe.timerRunning hframe.outstanding

theorem sendEmptySegment (h : s.Sound) : s.sendEmptySegment.Sound :=
  h.congr rfl rfl rfl rfl rfl rfl rfl

theorem setQueue (h : s.Sound) (q : List TCPSegment) : { s with segmentsOut := q }.Sound :=
  h.congr rfl rfl rfl rfl rfl rfl rfl

/-- Writing, ending the input and setting the error flag do not take bytes from the stream. -/
theorem setStream (h : s.Sound) {b : ByteStream} (hread : b.bytesRead = s.stream.bytesRead)
    (hended : s.stream.inputEnded = true → b.inputEnded = true ∧ b.buffer = s.stream.buffer) :
    { s with stream := b }.Sound := by
  refine ⟨fun hsyn => ?_, ?_, fun hfin => ?_, h.ackno_le, h.tracked, h.last, h.running⟩
  · exact hread ▸ h.syn_unsent hsyn
  · show s.nextSeqno = s.synSent.toNat + b.bytesRead + s.finSent.toNat
    rw [hread]
    exact h.next_eq
  · obtain ⟨hend, hbuf⟩ := h.fin_sent hfin
    exact ⟨(hended hend).1, (hended hend).2.trans hbuf⟩

theorem write (h : s.Sound) (d : Bytes) : { s with stream := (s.stream.write d).1 }.Sound :=
  h.setStream (ByteStream.write_bytesRead _ _) fun hend => by
    rw [ByteStream.write_eq_self_of_ended hend]
    exact ⟨hend, rfl⟩

theorem endInput (h : s.Sound) : { s with stream := s.stream.endInput }.Sound :=
  h.setStream rfl fun _ => ⟨rfl, rfl⟩

theorem setError (h : s.Sound) : { s with stream := s.stream.setError }.Sound :=
  h.setStream rfl fun hend => ⟨hend, rfl⟩

end Sound

end TCPSender

end CourseNet
