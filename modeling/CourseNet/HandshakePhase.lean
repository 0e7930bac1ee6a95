import CourseNet.SenderTiling

/-!
# Before the SYN is acknowledged

`ack_received` drops only an acknowledgment of something not yet sent.  One that stands at the initial
sequence number acknowledges nothing, but its window is taken and the window is filled, so whatever
the stream holds may follow the SYN before the SYN is acknowledged.  Until then `Opens` tells when a
call does so.
-/

namespace CourseNet

namespace TCPSender

/-- No acknowledgment covers the SYN. -/
def Unacknowledged (s : TCPSender) : Op → Prop
  | .ackReceived ackno _ => s.absoluteAckno ackno < 1
  | _ => True

instance (s : TCPSender) : DecidablePred s.Unacknowledged
  | .ackReceived _ _ => inferInstanceAs (Decidable (_ < _))
  | .write _ | .endInput | .fillWindow | .tick _ => isTrue trivial

/-- A window of `w` has room behind the SYN, and the stream has something to put there. -/
def Opens (s : TCPSender) (w : UInt16) : Prop :=
  1 < w ∧ (s.stream.buffer ≠ [] ∨ s.stream.inputEnded = true)

instance (s : TCPSender) (w : UInt16) : Decidable (s.Opens w) :=
  inferInstanceAs (Decidable (_ ∧ (_ ∨ _)))

/-- The window is filled only when that sends nothing but the SYN. -/
def Keeps (s : TCPSender) : Op → Prop
  | .fillWindow => ¬s.Opens s.windowSize
  | .ackReceived _ w => ¬s.Opens w
  | _ => True

instance (s : TCPSender) : DecidablePred s.Keeps
  | .fillWindow | .ackReceived _ _ => inferInstanceAs (Decidable (¬_))
  | .write _ | .endInput | .tick _ => isTrue trivial

/-- The SYN. -/
def handshake (isn : WrappingInt32) : TCPSegment := { header := { seqno := isn, syn := true } }

/-- Nothing but the SYN was sent, and it is not acknowledged. -/
structure Opening (s : TCPSender) : Prop extends s.Sound where
  ackno_eq : s.ackno = 0
  unread : s.stream.bytesRead = 0
  unfinished : s.finSent = false
  queued : ∀ seg ∈ s.segmentsOut, seg = handshake s.isn
  kept : ∀ e ∈ s.outstanding, e.2 = handshake s.isn

/-- A segment that carries payload or FIN was sent. -/
def Underway (s : TCPSender) : Prop :=
  ∃ seg ∈ s.segmentsOut, seg.payload ≠ [] ∨ seg.header.fin = true

theorem Underway.of_grown {s t : TCPSender} (h : s.Underway)
    (hpre : s.segmentsOut <+: t.segmentsOut) : t.Underway := by
  obtain ⟨seg, hseg, hdata⟩ := h
  exact ⟨seg, hpre.subset hseg, hdata⟩

namespace Opening

variable {s t : TCPSender}

theorem new (capacity : ℕ) (retxTimeout : UInt16) (fixedIsn : Option WrappingInt32)
    (random : UInt32) : (TCPSender.new capacity retxTimeout fixedIsn random).Opening :=
  ⟨Sound.new _ _ _ _, rfl, rfl, rfl, fun _ h => absurd h List.not_mem_nil,
    fun _ h => absurd h List.not_mem_nil⟩

theorem next_eq_syn (h : s.Opening) : s.nextSeqno = s.synSent.toNat := by
  rw [h.next_eq, h.unread, h.unfinished]
  rfl

/-- What is queued or tracked afterwards was so before. -/
theorem of_sub (h : s.Opening) (ht : t.Sound) (hisn : t.isn = s.isn) (hack : t.ackno = s.ackno)
    (hread : t.stream.bytesRead = s.stream.bytesRead) (hfin : t.finSent = s.finSent)
    (hqueue : ∀ seg ∈ t.segmentsOut, seg = handshake s.isn)
    (hout : ∀ e ∈ t.outstanding, e ∈ s.outstanding) : t.Opening :=
  ⟨ht, hack.trans h.ackno_eq, hread.trans h.unread, hfin.trans h.unfinished,
    fun seg hseg => (hqueue seg hseg).trans (congrArg handshake hisn.symm),
    fun e he => (h.kept e (hout e he)).trans (congrArg handshake hisn.symm)⟩

theorem write (h : s.Opening) (d : Bytes) :
    { s with stream := (s.stream.write d).1 }.Opening :=
  h.of_sub (h.toSound.write d) rfl rfl (ByteStream.write_bytesRead _ _) rfl h.queued fun _ => id

theorem endInput (h : s.Opening) : { s with stream := s.stream.endInput }.Opening :=
  h.of_sub h.toSound.endInput rfl rfl rfl rfl h.queued fun _ => id

theorem stopTimer (h : s.Opening) : s.stopTimer.Opening := by
  have hsound := h.toSound.stopTimer
  rw [stopTimer_eq] at hsound ⊢
  exact h.of_sub hsound rfl rfl rfl rfl h.queued fun _ => id

/-- A tick sends the SYN again or nothing. -/
theorem tick (h : s.Opening) (ms : ℕ) : (s.tick ms).Opening := by
  have hframe := s.tick_frame ms
  refine h.of_sub (h.toSound.tick ms) hframe.isn hframe.ackno (by rw [hframe.stream]) hframe.finSent
    (fun seg hseg => ?_) fun e he => hframe.outstanding ▸ he
  rcases s.tick_segmentsOut ms with hqueue | ⟨e, he, hqueue⟩
  · exact h.queued seg (hqueue ▸ hseg)
  · rw [hqueue] at hseg
    rcases List.mem_append.mp hseg with hold | hnew
    · exact h.queued seg hold
    · rw [List.mem_singleton.mp hnew]
      exact h.kept e he

/-- An acknowledgment at the initial sequence number changes the window only. -/
theorem noteAck (h : s.Opening) (w : UInt16) : (s.noteAck 0 w).Opening := by
  have hframe := s.noteAck_frame 0 w
  refine h.of_sub (h.toSound.noteAck (Nat.zero_le _) w) hframe.isn ?_ (by rw [hframe.stream])
    hframe.finSent (fun seg hseg => h.queued seg (hframe.segmentsOut ▸ hseg))
    fun e he => ((s.noteAck_outstanding 0 w e).mp he).1
  rw [hframe.ackno, Nat.max_zero]

/-- The SYN is sent. -/
theorem sendSyn (h : s.Opening) (hsyn : s.synSent = false) {right : ℕ}
    (hlt : s.nextSeqno < right) : s.sendSyn.Opening := by
  have hsend : Sends right s s.sendSyn := Sends.syn hsyn hlt
  have hseg : s.synSegment = handshake s.isn := by
    have hnext := h.next_eq_syn
    rw [hsyn, Bool.toNat_false] at hnext
    unfold synSegment blankSegment handshake
    rw [hnext, wrap_zero]
  have hout : s.sendSyn.outstanding = s.outstanding ++ [(s.nextSeqno, s.synSegment)] :=
    transmit_outstanding h.toSound.key_lt _
  refine ⟨h.toSound.sends hsend, h.ackno_eq, h.unread, h.unfinished, fun seg hmem => ?_,
    fun e he => ?_⟩
  · rcases List.mem_append.mp hmem with hold | hnew
    · exact h.queued seg hold
    · rw [List.mem_singleton.mp hnew]
      exact hseg
  · rw [hout] at he
    rcases List.mem_append.mp he with hold | hnew
    · exact h.kept e hold
    · rw [List.mem_singleton.mp hnew]
      exact hseg

/-- The right edge of the window. -/
theorem windowRight_eq (h : s.Opening) : s.windowRight = max s.windowSize.toNat 1 := by
  rw [TCPSender.windowRight_eq, advertisedEdge, h.ackno_eq, Nat.zero_add]

/-- Every send of `fill_window` is that of the SYN, or there was room behind it and something to
send. -/
theorem fillWindow_opens (h : s.Opening) :
    (s.fillWindow.Opening ∧ s.fillWindow.stream = s.stream) ∨
      (s.fillWindow.Underway ∧ s.Opens s.windowSize) := by
  refine fillWindow_invariant (P := fun t => (t.Opening ∧ t.stream = s.stream) ∨
    (t.Underway ∧ s.Opens s.windowSize)) (Or.inl ⟨h, rfl⟩) fun t t' ht hsend => ?_
  rcases ht with ⟨ht, hstream⟩ | ⟨ht, hopens⟩
  · cases hsend with
    | syn hsyn hlt => exact Or.inl ⟨ht.sendSyn hsyn hlt, hstream⟩
    | stream n fin hsyn hn hmax hpos hfit hfin =>
        right
        have hnext := ht.next_eq_syn
        rw [hsyn, Bool.toNat_true] at hnext
        rw [h.windowRight_eq] at hfit
        refine ⟨⟨t.streamSegment n fin, ?_, ?_⟩, ?_, ?_⟩
        · show _ ∈ t.segmentsOut ++ [t.streamSegment n fin]
          exact List.mem_append_right _ (List.mem_singleton_self _)
        · cases hf : fin with
          | true => exact Or.inr rfl
          | false =>
              rw [hf, Bool.toNat_false] at hpos
              refine Or.inl fun hnil => ?_
              have hlen : (t.stream.buffer.take n).length = 0 := congrArg List.length hnil
              rw [List.length_take] at hlen
              omega
        · rw [UInt16.lt_iff_toNat_lt]
          show 1 < s.windowSize.toNat
          omega
        · rw [← hstream]
          cases hf : fin with
          | true => exact Or.inr (hfin hf).2.1
          | false =>
              rw [hf, Bool.toNat_false] at hpos
              refine Or.inl (List.ne_nil_of_length_pos ?_)
              omega
  · obtain ⟨seg, hseg⟩ := hsend.segmentsOut_eq
    exact Or.inr ⟨ht.of_grown (hseg ▸ List.prefix_append _ _), hopens⟩

/-- `fill_window` sends payload or FIN exactly if the window has room for it behind the SYN. -/
theorem fillWindow_cases (h : s.Opening) :
    (s.fillWindow.Opening ∧ ¬s.Opens s.windowSize) ∨
      (s.fillWindow.Underway ∧ s.Opens s.windowSize) := by
  refine h.fillWindow_opens.imp_left fun ⟨hopening, hstream⟩ => ⟨hopening, fun ⟨hroom, hwait⟩ => ?_⟩
  have hroom : 1 < s.windowSize.toNat := UInt16.lt_iff_toNat_lt.mp hroom
  have hright := s.fillWindow_windowRight
  have hnext := hopening.next_eq_syn
  have hsyn := Bool.toNat_le s.fillWindow.synSent
  rw [h.windowRight_eq] at hright
  rcases s.fillWindow_filled with hfull | ⟨-, hbuffer, hended⟩
  · omega
  · rw [hstream] at hbuffer hended
    exact hwait.elim (fun hne => hne hbuffer) fun hend =>
      absurd (hended hend) (by simp [hopening.unfinished])

theorem ackReceived_cases (h : s.Opening) {ackno : WrappingInt32}
    (hzero : s.absoluteAckno ackno = 0) (w : UInt16) :
    ((s.ackReceived ackno w).Opening ∧ ¬s.Opens w) ∨
      ((s.ackReceived ackno w).Underway ∧ s.Opens w) := by
  have hframe := s.noteAck_frame 0 w
  have hopens : (s.noteAck 0 w).Opens (s.noteAck 0 w).windowSize ↔ s.Opens w := by
    unfold Opens
    rw [hframe.windowSize, hframe.stream]
  have heq : s.ackReceived ackno w = (s.noteAck 0 w).fillWindow.stopTimer := by
    rcases s.ackReceived_cases ackno w with ⟨hlt, -⟩ | ⟨-, heq⟩
    · exact absurd hlt (by omega)
    · rw [heq, hzero]
  rw [heq, ← hopens]
  refine (h.noteAck w).fillWindow_cases.imp (fun hcase => ⟨hcase.1.stopTimer, hcase.2⟩)
    fun hcase => ⟨hcase.1.of_grown ?_, hcase.2⟩
  rw [stopTimer_eq]

/-- One call before the SYN is acknowledged. -/
theorem call_cases (h : s.Opening) {op : Op} (hop : s.Unacknowledged op) :
    ((s.call op).Opening ∧ s.Keeps op) ∨ ((s.call op).Underway ∧ ¬s.Keeps op) := by
  cases op with
  | write data => exact Or.inl ⟨h.write data, trivial⟩
  | endInput => exact Or.inl ⟨h.endInput, trivial⟩
  | fillWindow => exact h.fillWindow_cases.imp_right fun hcase => ⟨hcase.1, not_not.mpr hcase.2⟩
  | tick ms => exact Or.inl ⟨h.tick ms, trivial⟩
  | ackReceived ackno w =>
      have hzero : s.absoluteAckno ackno = 0 := Nat.lt_one_iff.mp hop
      exact (h.ackReceived_cases hzero w).imp_right fun hcase => ⟨hcase.1, not_not.mpr hcase.2⟩

end Opening

/-- No call takes a segment out of the queue. -/
theorem call_segmentsOut_grows (s : TCPSender) (op : Op) :
    s.segmentsOut <+: (s.call op).segmentsOut := by
  cases op with
  | write data => exact List.prefix_refl _
  | endInput => exact List.prefix_refl _
  | fillWindow =>
      obtain ⟨sent, hsent⟩ := s.fillWindow_segmentsOut
      exact ⟨sent, hsent.symm⟩
  | tick ms =>
      show s.segmentsOut <+: (s.tick ms).segmentsOut
      rcases s.tick_segmentsOut ms with hqueue | ⟨e, -, hqueue⟩
      · rw [hqueue]
      · rw [hqueue]
        exact List.prefix_append _ _
  | ackReceived ackno w =>
      show s.segmentsOut <+: (s.ackReceived ackno w).segmentsOut
      rcases s.ackReceived_cases ackno w with ⟨-, heq⟩ | ⟨-, heq⟩
      · rw [heq]
      · obtain ⟨sent, hsent⟩ := (s.noteAck (s.absoluteAckno ackno) w).fillWindow_segmentsOut
        rw [(s.noteAck_frame _ w).segmentsOut] at hsent
        rw [heq, stopTimer_eq]
        exact ⟨sent, hsent.symm⟩

/-- A run before the SYN is acknowledged sends payload or FIN exactly if some call opens the window
to it. -/
theorem run_cases {s : TCPSender} (hs : s.Opening) {ops : List Op}
    (h : StepSystem.Guarded call Unacknowledged s ops) :
    ((StepSystem.run call s ops).Opening ∧ StepSystem.Guarded call Keeps s ops) ∨
      ((StepSystem.run call s ops).Underway ∧ ¬StepSystem.Guarded call Keeps s ops) := by
  induction ops using List.reverseRecOn with
  | nil => exact Or.inl ⟨hs, trivial⟩
  | append_singleton ops op ih =>
      obtain ⟨hops, hop⟩ := StepSystem.Guarded.snoc_iff.mp h
      rw [StepSystem.run_snoc, StepSystem.Guarded.snoc_iff]
      rcases ih hops with ⟨hopening, hkeeps⟩ | ⟨hunderway, hopens⟩
      · exact (hopening.call_cases hop).imp (fun hcase => ⟨hcase.1, hkeeps, hcase.2⟩)
          fun hcase => ⟨hcase.1, fun hall => hcase.2 hall.2⟩
      · exact Or.inr ⟨hunderway.of_grown (call_segmentsOut_grows _ op),
          fun hall => hopens hall.1⟩

/-- **The data phase does not open early.**  In a run in which no acknowledgment covers the SYN,
nothing but the SYN is sent, and no segment carries payload or FIN, if and only if the stream has
nothing to send whenever the window, that of an arriving acknowledgment or the one in force when
`fill_window` is called, is larger than one. -/
theorem syn_only_iff (capacity : ℕ) (retxTimeout : UInt16) (fixedIsn : Option WrappingInt32)
    (random : UInt32) (ops : List Op)
    (h : StepSystem.Guarded call Unacknowledged
      (TCPSender.new capacity retxTimeout fixedIsn random) ops) :
    let s := TCPSender.new capacity retxTimeout fixedIsn random
    ((∀ seg ∈ (StepSystem.run call s ops).segmentsOut,
        seg.payload = [] ∧ seg.header.fin = false) ↔ StepSystem.Guarded call Keeps s ops) ∧
      ((∀ seg ∈ (StepSystem.run call s ops).segmentsOut,
        seg = handshake (StepSystem.run call s ops).isn) ↔ StepSystem.Guarded call Keeps s ops) := by
  intro s
  rcases run_cases (Opening.new capacity retxTimeout fixedIsn random) h with
    ⟨hopening, hkeeps⟩ | ⟨⟨seg, hseg, hdata⟩, hopens⟩
  · exact ⟨iff_of_true (fun seg hseg => hopening.queued seg hseg ▸ ⟨rfl, rfl⟩) hkeeps,
      iff_of_true hopening.queued hkeeps⟩
  · refine ⟨iff_of_false (fun hall => ?_) hopens, iff_of_false (fun hall => ?_) hopens⟩
    · obtain ⟨hpayload, hfin⟩ := hall seg hseg
      exact hdata.elim (fun hne => hne hpayload) fun hf => absurd hf (by simp [hfin])
    · rw [hall seg hseg] at hdata
      exact hdata.elim (fun hne => hne rfl) fun hf => absurd hf (by simp [handshake])

/-- An acknowledgment of the initial sequence number with a window of one, and the SYN again. -/
theorem syn_only_closed :
    let s := StepSystem.run call (TCPSender.new 64 1000 (some ⟨0⟩) 0)
      [.fillWindow, .write [7], .ackReceived ⟨0⟩ 1, .tick 1000]
    s.segmentsOut.length = 2 ∧
      ∀ seg ∈ s.segmentsOut, seg.payload = [] ∧ seg.header.fin = false :=
  ⟨by decide +kernel, (syn_only_iff 64 1000 (some ⟨0⟩) 0
    [.fillWindow, .write [7], .ackReceived ⟨0⟩ 1, .tick 1000] (by decide +kernel)).1.mpr
    (by decide +kernel)⟩

/-- With a larger window the byte goes out before the SYN is acknowledged. -/
theorem syn_only_opened :
    let s := TCPSender.new 64 1000 (some ⟨0⟩) 0
    let ops := [.fillWindow, .write [7], .ackReceived ⟨0⟩ 1000]
    StepSystem.Guarded call Unacknowledged s ops ∧
      ¬∀ seg ∈ (StepSystem.run call s ops).segmentsOut, seg.payload = [] ∧ seg.header.fin = false := by
  decide +kernel

end TCPSender

end CourseNet
