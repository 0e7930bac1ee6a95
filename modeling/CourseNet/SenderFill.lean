import Mathlib.Logic.Relation
import CourseNet.TCPSender

/-!
# What `fill_window` sends

A turn of the loop either sends the SYN, or sends one segment with some bytes of the stream, a
FIN, or both (`Sends`), or finds nothing to send (`Done`).  Everything the later modules need to
know about `fill_window` follows from two facts: it is a sequence of such sends, and it stops only
at the right edge of the window or when nothing is left (`Filled`).
-/

namespace CourseNet

namespace TCPSender

/-- Send the SYN. -/
def sendSyn (s : TCPSender) : TCPSender := { s.transmit s.synSegment with synSent := true }

/-- The segment with the first `n` bytes of the stream and the given FIN flag. -/
def streamSegment (s : TCPSender) (n : ℕ) (fin : Bool) : TCPSegment :=
  { s.blankSegment with
      header := { s.blankSegment.header with fin := fin }
      payload := s.stream.buffer.take n }

/-- Send that segment. -/
def sendStream (s : TCPSender) (n : ℕ) (fin : Bool) : TCPSender :=
  { { s with stream := s.stream.popOutput n }.transmit (s.streamSegment n fin) with
      finSent := s.finSent || fin }

/-- One send of `fill_window` up to the right edge `right`. -/
inductive Sends (right : ℕ) (s : TCPSender) : TCPSender → Prop
  | syn (hsyn : s.synSent = false) (hlt : s.nextSeqno < right) : Sends right s s.sendSyn
  | stream (n : ℕ) (fin : Bool) (hsyn : s.synSent = true) (hn : n ≤ s.stream.buffer.length)
      (hmax : n ≤ TCPConfig.maxPayloadSize) (hpos : 0 < n + fin.toNat)
      (hfit : s.nextSeqno + n + fin.toNat ≤ right)
      (hfin : fin = true →
        s.finSent = false ∧ s.stream.inputEnded = true ∧ n = s.stream.buffer.length) :
      Sends right s (s.sendStream n fin)

/-- Nothing is left to send. -/
def Done (s : TCPSender) : Prop :=
  s.synSent = true ∧ s.stream.buffer = [] ∧ (s.stream.inputEnded = true → s.finSent = true)

/-- The window is full or nothing is left to send. -/
def Filled (s : TCPSender) : Prop := s.windowRight ≤ s.nextSeqno ∨ s.Done

/-! ### Lengths -/

theorem streamSegment_length (s : TCPSender) {n : ℕ} (fin : Bool)
    (hn : n ≤ s.stream.buffer.length) :
    (s.streamSegment n fin).lengthInSequenceSpace = n + fin.toNat := by
  have hlen : (s.stream.buffer.take n).length = n := by
    rw [List.length_take]
    exact min_eq_left hn
  cases fin <;> simp [TCPSegment.lengthInSequenceSpace, streamSegment, blankSegment, hlen]

theorem sendStream_next (s : TCPSender) {n : ℕ} (fin : Bool) (hn : n ≤ s.stream.buffer.length) :
    (s.sendStream n fin).nextSeqno = s.nextSeqno + n + fin.toNat := by
  rw [Nat.add_assoc, ← s.streamSegment_length fin hn]
  rfl

/-- What sending leaves alone; it never forgets that the FIN was sent. -/
structure SendFrame (s t : TCPSender) : Prop where
  isn : t.isn = s.isn
  ackno : t.ackno = s.ackno
  inputEnded : t.stream.inputEnded = s.stream.inputEnded
  error : t.stream.error = s.stream.error
  finSent : s.finSent = true → t.finSent = true

theorem SendFrame.refl (s : TCPSender) : SendFrame s s := ⟨rfl, rfl, rfl, rfl, id⟩

theorem SendFrame.trans {s t u : TCPSender} (h : SendFrame s t) (k : SendFrame t u) :
    SendFrame s u :=
  ⟨k.isn.trans h.isn, k.ackno.trans h.ackno, k.inputEnded.trans h.inputEnded,
    k.error.trans h.error, k.finSent ∘ h.finSent⟩

namespace Sends

variable {right : ℕ} {s s' : TCPSender}

/-- A send advances the next sequence number, but not past the right edge. -/
theorem next_bounds (h : Sends right s s') : s.nextSeqno < s'.nextSeqno ∧ s'.nextSeqno ≤ right := by
  cases h with
  | syn hsyn hlt => exact ⟨Nat.lt_succ_self _, hlt⟩
  | stream n fin hsyn hn hmax hpos hfit hfin =>
      rw [sendStream_next s fin hn]
      omega

theorem windowRight_eq (h : Sends right s s') : s'.windowRight = s.windowRight := by
  cases h <;> rfl

theorem frame (h : Sends right s s') : SendFrame s s' := by
  cases h with
  | syn hsyn hlt => exact ⟨rfl, rfl, rfl, rfl, id⟩
  | stream n fin hsyn hn hmax hpos hfit hfin =>
      refine ⟨rfl, rfl, rfl, rfl, fun hsent => ?_⟩
      show (s.finSent || fin) = true
      rw [hsent, Bool.true_or]

/-- A send queues exactly one segment. -/
theorem segmentsOut_eq (h : Sends right s s') : ∃ seg, s'.segmentsOut = s.segmentsOut ++ [seg] := by
  cases h
  · exact ⟨_, rfl⟩
  · exact ⟨_, rfl⟩

end Sends

/-! ### One turn -/

theorem payloadSize_eq_zero {s : TCPSender} {right : ℕ} (h : s.nextSeqno < right) :
    s.payloadSize right = 0 ↔ s.stream.buffer = [] := by
  rw [← List.length_eq_zero_iff, payloadSize, ByteStream.bufferSize]
  have : TCPConfig.maxPayloadSize = 1000 := rfl
  omega

theorem popOutput_zero (b : ByteStream) : b.popOutput 0 = b := by
  unfold ByteStream.popOutput
  simp

/-- The FIN sent alone is the stream segment without bytes. -/
theorem sendFin_eq (s : TCPSender) :
    { s.transmit s.finSegment with finSent := true } = s.sendStream 0 true := by
  unfold sendStream streamSegment
  rw [popOutput_zero, Bool.or_true, List.take_zero]
  rfl

/-- The segment of a turn with payload, and when it carries the FIN. -/
theorem dataSegment_eq (s : TCPSender) (right : ℕ) {n : ℕ} (hn : n ≤ s.stream.buffer.length) :
    ∃ fin, fin = (!s.finSent && (s.stream.popOutput n).eof
        && decide (s.nextSeqno + n < right)) ∧
      s.dataSegment right n = (s.streamSegment n fin, s.stream.popOutput n) := by
  have hseg : (s.streamSegment n false).lengthInSequenceSpace = n := s.streamSegment_length false hn
  refine ⟨_, rfl, ?_⟩
  unfold dataSegment
  simp only [ByteStream.read, ByteStream.peekOutput_eq]
  rw [show ({ header := s.blankSegment.header, payload := s.stream.buffer.take n } : TCPSegment)
    = s.streamSegment n false from rfl, hseg]
  rfl

/-- A send of the whole buffer and the FIN leaves nothing to send. -/
theorem sendStream_done {s : TCPSender} (hsyn : s.synSent = true) {n : ℕ}
    (hn : n = s.stream.buffer.length) : (s.sendStream n true).Done := by
  refine ⟨hsyn, ?_, fun _ => ?_⟩
  · show (s.stream.popOutput n).buffer = []
    rw [ByteStream.popOutput_buffer, hn, List.drop_length]
  · show (s.finSent || true) = true
    exact Bool.or_true _

/-- What a turn can do: send and go on, send and stop with nothing left, or find nothing left. -/
def TurnResult (right : ℕ) (s : TCPSender) (turn : TCPSender × Bool) : Prop :=
  (∃ s', Sends right s s' ∧ turn = (s', true)) ∨
    (∃ s', Sends right s s' ∧ s'.Done ∧ turn = (s', false)) ∨
    (s.Done ∧ turn = (s, false))

/-- A turn with an empty buffer: the FIN alone, or nothing. -/
theorem fillTurn_empty {s : TCPSender} {right : ℕ} (h : s.nextSeqno < right)
    (hsyn : s.synSent = true) (hbuf : s.stream.buffer = []) :
    TurnResult right s (s.fillTurn right) := by
  have hn := (payloadSize_eq_zero h).mpr hbuf
  have heof : s.stream.eof = s.stream.inputEnded := by
    simp [ByteStream.eof, ByteStream.bufferEmpty, hbuf]
  unfold fillTurn
  rw [if_neg (by simp [hsyn])]
  dsimp only
  rw [hn, heof]
  rcases Bool.eq_false_or_eq_true (s.stream.inputEnded && !s.finSent) with hfin | hfin
  · obtain ⟨hended, hnot⟩ := Bool.and_eq_true_iff.mp hfin
    have hnot : s.finSent = false := by simpa using hnot
    refine Or.inr (Or.inl ⟨s.sendStream 0 true, ?_, sendStream_done hsyn (by rw [hbuf]; rfl), ?_⟩)
    · exact Sends.stream 0 true hsyn (Nat.zero_le _) (Nat.zero_le _) (by decide)
        (by simpa using Nat.succ_le_of_lt h) fun _ => ⟨hnot, hended, by simp [hbuf]⟩
    · rw [if_pos (by simp [hended, hnot]), if_pos h, sendFin_eq]
  · refine Or.inr (Or.inr ⟨⟨hsyn, hbuf, fun hended => ?_⟩, ?_⟩)
    · simpa [hended] using hfin
    · rw [if_neg (by simpa using hfin), if_pos (by simp)]

/-- A turn that sends some bytes of the stream. -/
theorem fillTurn_data {s : TCPSender} {right : ℕ} (h : s.nextSeqno < right)
    (hsyn : s.synSent = true) (hbuf : s.stream.buffer ≠ []) :
    TurnResult right s (s.fillTurn right) := by
  have hn : s.payloadSize right ≠ 0 := fun hzero => hbuf ((payloadSize_eq_zero h).mp hzero)
  have hle : s.payloadSize right ≤ s.stream.buffer.length := min_le_right _ _
  have hmax : s.payloadSize right ≤ TCPConfig.maxPayloadSize :=
    (min_le_left _ _).trans (min_le_right _ _)
  have havail : s.payloadSize right ≤ right - s.nextSeqno :=
    (min_le_left _ _).trans (min_le_left _ _)
  unfold fillTurn
  rw [if_neg (by simp [hsyn])]
  dsimp only
  rw [if_neg (by simp [hn]), if_neg (by simp [hn])]
  generalize s.payloadSize right = n at hn hle hmax havail
  obtain ⟨fin, hfin, hdata⟩ := s.dataSegment_eq right hle
  have hends : fin = true → s.finSent = false ∧ s.stream.inputEnded = true ∧
      n = s.stream.buffer.length ∧ s.nextSeqno + n < right := by
    intro hf
    rw [hf, eq_comm, Bool.and_eq_true, Bool.and_eq_true, ByteStream.eof_iff] at hfin
    obtain ⟨⟨hnot, hended, hbuf⟩, hlt⟩ := hfin
    rw [ByteStream.popOutput_buffer, List.drop_eq_nil_iff] at hbuf
    exact ⟨by simpa using hnot, hended, by omega, by simpa using hlt⟩
  have hfit : s.nextSeqno + n + fin.toNat ≤ right := by
    cases fin with
    | false => rw [Bool.toNat_false]; omega
    | true =>
        have hroom := (hends rfl).2.2.2
        rw [Bool.toNat_true]
        omega
  have hsend : Sends right s (s.sendStream n fin) :=
    Sends.stream n fin hsyn hle hmax (by omega) hfit fun hf =>
      ⟨(hends hf).1, (hends hf).2.1, (hends hf).2.2.1⟩
  rw [hdata]
  dsimp only
  cases hf : fin with
  | false =>
      rw [hf] at hsend
      exact Or.inl ⟨_, hsend, rfl⟩
  | true =>
      rw [hf] at hsend
      exact Or.inr (Or.inl ⟨_, hsend, sendStream_done hsyn (hends hf).2.2.1, rfl⟩)

theorem fillTurn_cases (s : TCPSender) {right : ℕ} (h : s.nextSeqno < right) :
    TurnResult right s (s.fillTurn right) := by
  rcases Bool.eq_false_or_eq_true s.synSent with hsyn | hsyn
  · by_cases hbuf : s.stream.buffer = []
    · exact fillTurn_empty h hsyn hbuf
    · exact fillTurn_data h hsyn hbuf
  · refine Or.inl ⟨s.sendSyn, Sends.syn hsyn h, ?_⟩
    unfold fillTurn
    rw [if_pos (by simp [hsyn])]
    rfl

/-! ### The loop -/

/-- The loop is a sequence of sends. -/
theorem fillLoop_sends (right turns : ℕ) (s : TCPSender) :
    Relation.ReflTransGen (Sends right) s (fillLoop right turns s) := by
  induction turns generalizing s with
  | zero => exact Relation.ReflTransGen.refl
  | succ turns ih =>
      rw [fillLoop]
      split
      · rename_i hlt
        rcases s.fillTurn_cases hlt with ⟨s', hsend, heq⟩ | ⟨s', hsend, -, heq⟩ | ⟨-, heq⟩
        · rw [heq]
          exact Relation.ReflTransGen.head hsend (ih s')
        · rw [heq]
          exact Relation.ReflTransGen.single hsend
        · rw [heq]
          exact Relation.ReflTransGen.refl
      · exact Relation.ReflTransGen.refl

/-- With enough turns it ends at the right edge or with nothing left. -/
theorem fillLoop_filled {right turns : ℕ} {s : TCPSender} (hturns : right - s.nextSeqno ≤ turns) :
    right ≤ (fillLoop right turns s).nextSeqno ∨ (fillLoop right turns s).Done := by
  induction turns generalizing s with
  | zero => exact Or.inl (by rw [fillLoop]; omega)
  | succ turns ih =>
      rw [fillLoop]
      split
      · rename_i hlt
        rcases s.fillTurn_cases hlt with ⟨s', hsend, heq⟩ | ⟨s', -, hdone, heq⟩ | ⟨hdone, heq⟩
        · rw [heq]
          have := hsend.next_bounds
          exact ih (by omega)
        · rw [heq]
          exact Or.inr hdone
        · rw [heq]
          exact Or.inr hdone
      · rename_i hge
        exact Or.inl (by omega)

theorem fillLoop_of_full {right : ℕ} {s : TCPSender} (h : right ≤ s.nextSeqno) (turns : ℕ) :
    fillLoop right turns s = s := by
  cases turns with
  | zero => rfl
  | succ turns => rw [fillLoop, if_neg (by omega)]

/-- Any two numbers of turns that are enough do the same. -/
theorem fillLoop_stable {right turns turns' : ℕ} {s : TCPSender}
    (hturns : right - s.nextSeqno ≤ turns) (hturns' : right - s.nextSeqno ≤ turns') :
    fillLoop right turns s = fillLoop right turns' s := by
  induction turns generalizing s turns' with
  | zero => rw [fillLoop_of_full (by omega), fillLoop_of_full (by omega)]
  | succ turns ih =>
      rcases Nat.lt_or_ge s.nextSeqno right with hlt | hge
      · obtain ⟨m, rfl⟩ : ∃ m, turns' = m + 1 := ⟨turns' - 1, by omega⟩
        rw [fillLoop, fillLoop, if_pos hlt, if_pos hlt]
        rcases s.fillTurn_cases hlt with ⟨s', hsend, heq⟩ | ⟨s', -, -, heq⟩ | ⟨-, heq⟩
        · have hnext := hsend.next_bounds
          rw [heq]
          exact ih (by omega) (by omega)
        · rw [heq]
          rfl
        · rw [heq]
          rfl
      · rw [fillLoop_of_full hge, fillLoop_of_full hge]

/-! ### The window -/

theorem fillWindow_sends (s : TCPSender) :
    Relation.ReflTransGen (Sends s.windowRight) s s.fillWindow := fillLoop_sends _ _ s

/-- What every send keeps, `fill_window` keeps. -/
theorem fillWindow_invariant {P : TCPSender → Prop} {s : TCPSender} (hs : P s)
    (hsend : ∀ t t', P t → Sends s.windowRight t t' → P t') : P s.fillWindow := by
  have hrun := s.fillWindow_sends
  generalize s.fillWindow = t at hrun
  induction hrun with
  | refl => exact hs
  | tail _ hlast ih => exact hsend _ _ ih hlast

theorem fillWindow_windowRight (s : TCPSender) : s.fillWindow.windowRight = s.windowRight :=
  fillWindow_invariant (P := fun t => t.windowRight = s.windowRight) rfl
    fun _ _ ht hsend => hsend.windowRight_eq.trans ht

theorem fillWindow_frame (s : TCPSender) : SendFrame s s.fillWindow :=
  fillWindow_invariant (SendFrame.refl s) fun _ _ ht hsend => ht.trans hsend.frame

theorem fillWindow_filled (s : TCPSender) : s.fillWindow.Filled := by
  rw [Filled, fillWindow_windowRight]
  exact fillLoop_filled (le_refl _)

/-- Nothing is sent past the right edge of the window. -/
theorem fillWindow_next_le (s : TCPSender) :
    s.fillWindow.nextSeqno ≤ max s.nextSeqno s.windowRight :=
  fillWindow_invariant (P := fun t => t.nextSeqno ≤ max s.nextSeqno s.windowRight)
    (le_max_left _ _) fun _ _ _ hsend => hsend.next_bounds.2.trans (le_max_right _ _)

theorem Filled.not_sends {s t : TCPSender} (h : s.Filled) : ¬Sends s.windowRight s t := by
  intro hsend
  rcases h with hfull | ⟨hsyn, hbuf, hfin⟩
  · have := hsend.next_bounds
    omega
  · cases hsend with
    | syn hno => exact absurd hsyn (by simp [hno])
    | stream n fin _ hn _ hpos _ hends =>
        rw [hbuf, List.length_nil] at hn
        have hlone : fin = true := by
          cases fin with
          | false => exact absurd hpos (by rw [Bool.toNat_false]; omega)
          | true => rfl
        obtain ⟨hnot, hended, -⟩ := hends hlone
        exact absurd (hfin hended) (by simp [hnot])

/-- A filled window stays as it is. -/
theorem Filled.fillWindow_eq {s : TCPSender} (h : s.Filled) : s.fillWindow = s := by
  rcases Relation.ReflTransGen.cases_head s.fillWindow_sends with heq | ⟨t, hsend, -⟩
  · exact heq.symm
  · exact absurd hsend h.not_sends

/-- `fill_window` queues segments behind those already queued. -/
theorem fillWindow_segmentsOut (s : TCPSender) :
    ∃ sent, s.fillWindow.segmentsOut = s.segmentsOut ++ sent :=
  fillWindow_invariant (P := fun t => ∃ sent, t.segmentsOut = s.segmentsOut ++ sent)
    ⟨[], (List.append_nil _).symm⟩ fun t t' ⟨sent, hsent⟩ hsend => by
      obtain ⟨seg, hseg⟩ := hsend.segmentsOut_eq
      exact ⟨sent ++ [seg], by rw [hseg, hsent, List.append_assoc]⟩

/-- If `fill_window` queues nothing, there was nothing to send. -/
theorem filled_of_silent {s : TCPSender} (h : s.fillWindow.segmentsOut = s.segmentsOut) :
    s.Filled := by
  rcases Relation.ReflTransGen.cases_head s.fillWindow_sends with heq | ⟨t, hfirst, hrest⟩
  · rw [heq]
    exact s.fillWindow_filled
  · exfalso
    obtain ⟨seg, hseg⟩ := hfirst.segmentsOut_eq
    have hgrow : t.segmentsOut.length ≤ s.fillWindow.segmentsOut.length := by
      generalize s.fillWindow = u at hrest
      induction hrest with
      | refl => exact le_refl _
      | tail _ hlast ih =>
          obtain ⟨seg', hseg'⟩ := hlast.segmentsOut_eq
          rw [hseg', List.length_append]
          omega
    rw [h, hseg, List.length_append, List.length_singleton] at hgrow
    omega

end TCPSender

end CourseNet
