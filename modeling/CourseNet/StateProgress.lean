import CourseNet.CloseWithoutLinger
import CourseNet.SenderTiling
import CourseNet.TCPState

/-!
# How the official state moves

The summaries of `tcp_state.cc` are computed from counters and flags that calls only push forward:
a sender goes from CLOSED over SYN_SENT, SYN_ACKED and FIN_SENT to FIN_ACKED, a receiver from LISTEN
over SYN_RECV to FIN_RECV, each into ERROR from anywhere, and none goes back.  Both are in ERROR at
the same time, and a connection that is no longer active is in CLOSED or RESET for good.
-/

namespace CourseNet

/-- The order in which a sender takes its states. -/
def TCPSenderStateSummary.rank : TCPSenderStateSummary → ℕ
  | .closed => 0
  | .synSent => 1
  | .synAcked => 2
  | .finSent => 3
  | .finAcked => 4
  | .error => 5

/-- The order in which a receiver takes its states. -/
def TCPReceiverStateSummary.rank : TCPReceiverStateSummary → ℕ
  | .listen => 0
  | .synRecv => 1
  | .finRecv => 2
  | .error => 3

/-! ### The sender -/

namespace TCPSender

/-- The segments sent tile the stream. -/
def Tracks (s : TCPSender) : Prop := ∃ sent written, s.Tiled sent written

namespace Tiled

variable {s : TCPSender} {sent : List TCPSegment} {written : Bytes}

/-- A tile that does not start at zero ends past one, and the one that does is the SYN. -/
theorem start_eq_zero_iff (h : s.Tiled sent written) {e : ℕ × TCPSegment}
    (he : e ∈ Tiling.placed span 0 sent) : e.1 = 0 ↔ e.1 + span e.2 = 1 := by
  have htile := h.tiles e he
  generalize e.1 = start at htile
  generalize e.2 = seg at htile
  cases htile with
  | syn => exact iff_of_true rfl rfl
  | stream start payload fin hstart hmax hpos =>
      have hspan : span { header := { seqno := wrap start s.isn, fin := fin }
                          payload := payload } = payload.length + fin.toNat := by
        cases fin <;> simp [span, TCPSegment.lengthInSequenceSpace]
      rw [hspan]
      omega

/-- Everything sent is in flight exactly until the SYN is acknowledged. -/
theorem next_eq_bytesInFlight_iff (h : s.Tiled sent written) (hnext : s.nextSeqno ≠ 0) :
    s.nextSeqno = s.bytesInFlight ↔ s.ackno = 0 := by
  rw [h.bytesInFlight_eq, h.kept]
  constructor
  · intro heq
    by_contra hack
    rcases hhead : (Tiling.beyond span s.ackno 0 sent).head? with _ | e
    · rw [hhead] at heq
      exact hnext heq
    · have hmem := List.mem_filter.mp (List.mem_of_head? hhead)
      have hbounds := Tiling.placed_bounds hmem.1
      have hpast := of_decide_eq_true hmem.2
      rw [Nat.zero_add, ← h.next] at hbounds
      rw [hhead, Option.elim_some] at heq
      have hzero : e.1 = 0 := by omega
      have hone := (h.start_eq_zero_iff hmem.1).mp hzero
      omega
  · intro hack
    rw [hack]
    cases sent with
    | nil => exact absurd h.next hnext
    | cons seg sent =>
        have hone := (h.start_eq_zero_iff (List.mem_cons_self (a := (0, seg)))).mp rfl
        have hkeep : Tiling.beyond span 0 0 (seg :: sent) =
            (0, seg) :: (Tiling.placed span (0 + span seg) sent).filter fun e =>
              decide (0 < e.1 + span e.2) := by
          rw [Tiling.beyond, Tiling.placed, List.filter_cons_of_pos]
          rw [decide_eq_true_eq]
          exact hone ▸ Nat.one_pos
        rw [hkeep]
        rfl

/-- At the end of the stream the FIN was sent when two more numbers than bytes are taken. -/
theorem eof_and_next_iff (h : s.Tiled sent written) :
    (s.stream.eof = true ∧ ¬s.nextSeqno < s.stream.bytesWritten + 2) ↔ s.finSent = true := by
  have hnext := h.next_eq
  constructor
  · rintro ⟨heof, hle⟩
    have hread := ByteStream.bytesRead_of_buffer_nil (ByteStream.eof_iff.mp heof).2
    have hsyn := Bool.toNat_le s.synSent
    by_contra hfin
    rw [Bool.not_eq_true] at hfin
    rw [hfin, Bool.toNat_false] at hnext
    omega
  · intro hfin
    have hend := h.fin_sent hfin
    have hread := ByteStream.bytesRead_of_buffer_nil hend.2
    have hsyn : s.synSent = true := by
      by_contra hno
      rw [Bool.not_eq_true] at hno
      exact absurd hfin (by simp [(h.syn_unsent hno).2])
    rw [hfin, hsyn, Bool.toNat_true] at hnext
    exact ⟨ByteStream.eof_iff.mpr hend, by omega⟩

/-- What the summary of a sender says about its counters. -/
theorem stateSummary_eq (h : s.Tiled sent written) :
    s.stateSummary =
      if s.stream.error then .error
      else if s.nextSeqno = 0 then .closed
      else if s.ackno = 0 then .synSent
      else if s.finSent = false then .synAcked
      else if s.ackno < s.nextSeqno then .finSent
      else .finAcked := by
  have hflight : s.bytesInFlight ≠ 0 ↔ s.ackno < s.nextSeqno := by
    rw [Ne, h.toSound.bytesInFlight_eq_zero, h.toSound.outstanding_eq_nil]
    have hle := h.ackno_le
    omega
  unfold stateSummary
  refine if_congr Iff.rfl rfl ?_
  by_cases hnext : s.nextSeqno = 0
  · rw [if_pos hnext, if_pos hnext]
  · rw [if_neg hnext, if_neg hnext]
    refine if_congr (h.next_eq_bytesInFlight_iff hnext) rfl ?_
    by_cases hfin : s.finSent = true
    · obtain ⟨heof, hall⟩ := h.eof_and_next_iff.mpr hfin
      have hopen : ¬(!s.stream.eof) = true := by simp [heof]
      have hsent : ¬s.finSent = false := by simp [hfin]
      rw [if_neg hopen, if_neg hall, if_neg hsent]
      exact if_congr hflight rfl rfl
    · have hunsent : s.finSent = false := by simpa using hfin
      rw [if_pos hunsent]
      split
      · rfl
      · rename_i heof
        have hmore : s.nextSeqno < s.stream.bytesWritten + 2 := by
          by_contra hno
          exact hfin (h.eof_and_next_iff.mp ⟨by simpa using heof, hno⟩)
        rw [if_pos hmore]

end Tiled

/-- What the summary depends on, and what no call takes back. -/
structure Onward (s t : TCPSender) : Prop where
  error : s.stream.error = true → t.stream.error = true
  next : s.nextSeqno ≤ t.nextSeqno
  ackno : s.ackno ≤ t.ackno
  finSent : s.finSent = true → t.finSent = true
  idle : s.Idle → t.Idle

theorem Onward.refl (s : TCPSender) : Onward s s := ⟨id, le_refl _, le_refl _, id, id⟩

theorem Onward.trans {s t u : TCPSender} (h : Onward s t) (k : Onward t u) : Onward s u :=
  ⟨k.error ∘ h.error, h.next.trans k.next, h.ackno.trans k.ackno, k.finSent ∘ h.finSent,
    k.idle ∘ h.idle⟩

/-- So the summary does not go back. -/
theorem Onward.rank_le {s t : TCPSender} (h : Onward s t) (hs : s.Tracks) (ht : t.Tracks) :
    s.stateSummary.rank ≤ t.stateSummary.rank := by
  obtain ⟨sent, written, hs⟩ := hs
  obtain ⟨sent', written', ht⟩ := ht
  have hnext := h.next
  have hackno := h.ackno
  have herror := h.error
  have hfin := h.finSent
  have hidle : s.finSent = true → s.nextSeqno ≤ s.ackno → t.nextSeqno ≤ t.ackno := fun hsent hle =>
    (ht.toSound.outstanding_eq_nil.mp (h.idle ⟨hs.toSound, hsent,
      hs.toSound.outstanding_eq_nil.mpr (le_antisymm hle hs.ackno_le)⟩).outstanding_nil).le
  rw [hs.stateSummary_eq, ht.stateSummary_eq]
  grind [TCPSenderStateSummary.rank]

theorem fillWindow_onward (s : TCPSender) : Onward s s.fillWindow := by
  have hframe := s.fillWindow_frame
  refine ⟨hframe.error.trans, ?_, hframe.ackno.ge, hframe.finSent, Idle.fillWindow⟩
  exact fillWindow_invariant (P := fun t => s.nextSeqno ≤ t.nextSeqno) (le_refl _)
    fun _ _ ht hsend => ht.trans hsend.next_bounds.1.le

theorem Tracks.fillWindow {s : TCPSender} (h : s.Tracks) : s.fillWindow.Tracks := by
  obtain ⟨sent, written, h⟩ := h
  obtain ⟨more, -, hfilled⟩ := h.fillWindow
  exact ⟨_, _, hfilled⟩

/-- A call that writes or ends the stream, and then fills the window. -/
theorem onward_setStream {s : TCPSender} {b : ByteStream}
    (hsound : { s with stream := b }.Sound) (herror : s.stream.error = true → b.error = true) :
    Onward s { s with stream := b }.fillWindow := by
  refine Onward.trans ?_ (fillWindow_onward _)
  exact ⟨herror, le_refl _, le_refl _, id, fun h => ⟨hsound, h.finSent_eq, h.outstanding_nil⟩⟩

end TCPSender

namespace SenderMove

variable {s t : TCPSender}

theorem tracks (h : SenderMove s t) (hs : s.Tracks) : t.Tracks := by
  obtain ⟨sent, written, hs⟩ := hs
  have hsound := h.sound hs.toSound
  cases h with
  | ackReceived ackno w =>
      obtain ⟨more, -, hacked⟩ := hs.ackReceived ackno w
      exact ⟨_, _, hacked⟩
  | fillWindow =>
      obtain ⟨more, -, hfilled⟩ := hs.fillWindow
      exact ⟨_, _, hfilled⟩
  | sendEmptySegment => exact ⟨_, _, hs.congr hsound rfl rfl rfl rfl rfl rfl⟩
  | tick ms => exact ⟨_, _, hs.tick ms⟩
  | setError => exact ⟨_, _, hsound, hs.tiles, hs.next, hs.wrote, hs.fin_last, hs.fin, hs.kept⟩
  | dequeue q hq => exact ⟨_, _, hs.congr hsound rfl rfl rfl rfl rfl rfl⟩

theorem onward (h : SenderMove s t) : TCPSender.Onward s t := by
  have hidle : s.Idle → t.Idle := h.idle
  cases h with
  | ackReceived ackno w =>
      rcases s.ackReceived_cases ackno w with ⟨-, heq⟩ | ⟨-, heq⟩
      · rw [heq]
        exact TCPSender.Onward.refl s
      · have hnoted := s.noteAck_frame (s.absoluteAckno ackno) w
        have hfilled := (s.noteAck (s.absoluteAckno ackno) w).fillWindow_onward
        rw [heq, TCPSender.stopTimer_eq] at hidle ⊢
        exact ⟨fun he => hfilled.error (by rw [hnoted.stream]; exact he),
          hnoted.nextSeqno.ge.trans hfilled.next,
          (hnoted.ackno ▸ le_max_left _ _).trans hfilled.ackno,
          fun hf => hfilled.finSent (hnoted.finSent.trans hf), hidle⟩
  | fillWindow => exact s.fillWindow_onward
  | sendEmptySegment => exact ⟨id, le_refl _, le_refl _, id, hidle⟩
  | tick ms =>
      have hframe := s.tick_frame ms
      exact ⟨fun he => by rw [hframe.stream]; exact he, hframe.nextSeqno.ge, hframe.ackno.ge,
        hframe.finSent.trans, hidle⟩
  | setError => exact ⟨fun _ => rfl, le_refl _, le_refl _, id, hidle⟩
  | dequeue q hq => exact ⟨id, le_refl _, le_refl _, id, hidle⟩

end SenderMove

namespace TCPConnection

theorem step_tracks {c : TCPConnection} (h : c.sender.Tracks) (op : Op) :
    (c.step op).sender.Tracks := by
  refine step_sender_invariant (fun _ _ hmove hs => hmove.tracks hs) ?_ ?_ c op h
  · rintro s d ⟨sent, written, hs⟩
    exact TCPSender.Tracks.fillWindow ⟨_, _, hs.write d⟩
  · rintro s ⟨sent, written, hs⟩
    exact TCPSender.Tracks.fillWindow ⟨_, _, hs.endInput⟩

theorem step_onward {c : TCPConnection} (h : c.sender.Sound) (op : Op) :
    TCPSender.Onward c.sender (c.step op).sender := by
  have hall : c.sender.Sound ∧ TCPSender.Onward c.sender c.sender := ⟨h, TCPSender.Onward.refl _⟩
  refine (step_sender_invariant (P := fun s => s.Sound ∧ TCPSender.Onward c.sender s)
    ?_ ?_ ?_ c op hall).2
  · rintro s t hmove ⟨hs, honward⟩
    exact ⟨hmove.sound hs, honward.trans hmove.onward⟩
  · rintro s d ⟨hs, honward⟩
    exact ⟨(hs.write d).fillWindow, honward.trans (TCPSender.onward_setStream (hs.write d)
      ((ByteStream.write_error _ _).trans ·))⟩
  · rintro s ⟨hs, honward⟩
    exact ⟨hs.endInput.fillWindow, honward.trans (TCPSender.onward_setStream hs.endInput id)⟩

end TCPConnection

/-! ### The receiver -/

namespace TCPReceiver

/-- The stream ends only after a SYN. -/
def Heard (r : TCPReceiver) : Prop := r.streamOut.inputEnded = true → r.isn.isSome = true

theorem stateSummary_eq (r : TCPReceiver) :
    r.stateSummary =
      if r.streamOut.error then .error
      else if r.isn = none then .listen
      else if r.streamOut.inputEnded then .finRecv
      else .synRecv := by
  unfold stateSummary ackno
  cases r.isn <;> rfl

/-- A segment leaves the error flag alone. -/
theorem segmentReceived_error (r : TCPReceiver) (seg : TCPSegment) :
    (r.segmentReceived seg).1.streamOut.error = r.streamOut.error := by
  rcases r.segmentReceived_cases seg with ⟨i, heq⟩ | heq
  · rw [heq]
    exact StreamReassembler.pushSubstring_output (P := fun b => b.error = r.streamOut.error)
      (fun b d h => (b.write_error d).trans h) (fun _ h => h) rfl _ _ _
  · rw [heq]

theorem Heard.segmentReceived {r : TCPReceiver} (h : r.Heard) (seg : TCPSegment) :
    (r.segmentReceived seg).1.Heard := by
  rcases r.segmentReceived_cases seg with ⟨i, heq⟩ | heq
  · rw [heq]
    exact fun _ => rfl
  · rw [heq]
    exact h

theorem Advances.rank_le {r s : TCPReceiver} (h : r.Advances s)
    (herror : r.streamOut.error = true → s.streamOut.error = true) :
    r.stateSummary.rank ≤ s.stateSummary.rank := by
  have hended := h.stream.ended
  have hisn : r.isn ≠ none → s.isn ≠ none := fun hr => by
    obtain ⟨i, hi⟩ := Option.ne_none_iff_exists'.mp hr
    rw [h.isn i hi]
    exact Option.some_ne_none i
  rw [stateSummary_eq, stateSummary_eq]
  grind [TCPReceiverStateSummary.rank]

end TCPReceiver

/-! ### The connection -/

theorem TCPSender.ackReceived_error (s : TCPSender) (ackno : WrappingInt32) (w : UInt16) :
    (s.ackReceived ackno w).stream.error = s.stream.error := by
  rcases s.ackReceived_cases ackno w with ⟨-, heq⟩ | ⟨-, heq⟩
  · rw [heq]
  · rw [heq, stopTimer_eq]
    exact (fillWindow_frame _).error.trans
      (congrArg (·.error) (s.noteAck_frame (s.absoluteAckno ackno) w).stream)

namespace TCPConnection

theorem processed_error (c : TCPConnection) (seg : TCPSegment) :
    (c.processed seg).sender.stream.error = c.sender.stream.error := by
  have hack : ((c.received seg).acknowledge seg).sender.stream.error = c.sender.stream.error := by
    unfold acknowledge
    split
    · exact c.sender.ackReceived_error _ _
    · rfl
  have hreply : ∀ d : TCPConnection, (d.reply seg).sender.stream.error = d.sender.stream.error := by
    intro d
    unfold reply
    dsimp only
    split
    · split <;> exact d.sender.fillWindow_frame.error
    · rfl
  refine (hreply _).trans ?_
  rw [noteInboundEnd_sender]
  exact hack

/-- A call leaves both error flags alone, or sets both and ends the connection. -/
theorem step_errors (c : TCPConnection) (op : Op) :
    ((c.step op).sender.stream.error = c.sender.stream.error ∧
      (c.step op).receiver.streamOut.error = c.receiver.streamOut.error) ∨
    ((c.step op).sender.stream.error = true ∧ (c.step op).receiver.streamOut.error = true ∧
      (c.step op).isActive = false) := by
  cases op with
  | connect => exact Or.inl ⟨c.sender.fillWindow_frame.error, rfl⟩
  | write data =>
      refine Or.inl ?_
      show (c.write data).1.sender.stream.error = _ ∧ (c.write data).1.receiver.streamOut.error = _
      rcases Bool.eq_false_or_eq_true c.isActive with h | h
      · rw [write_active h]
        exact ⟨(TCPSender.fillWindow_frame _).error.trans (ByteStream.write_error _ _), rfl⟩
      · rw [write_inactive h]
        exact ⟨rfl, rfl⟩
  | endInputStream => exact Or.inl ⟨(TCPSender.fillWindow_frame _).error, rfl⟩
  | segmentReceived seg =>
      rw [step]
      rcases c.segmentReceived_cases seg with ⟨-, h⟩ | ⟨-, -, h⟩ | ⟨-, -, -, h⟩ | ⟨-, -, -, h⟩
      · exact Or.inl (by rw [h]; exact ⟨rfl, rfl⟩)
      · exact Or.inr (by rw [h]; exact ⟨rfl, rfl, rfl⟩)
      · exact Or.inl (by rw [h]; exact ⟨rfl, c.receiver.segmentReceived_error seg⟩)
      · rw [h]
        refine Or.inl ⟨c.processed_error seg, ?_⟩
        exact (congrArg (·.streamOut.error) (c.processed_frame seg).receiver).trans
          (c.receiver.segmentReceived_error seg)
  | tick ms =>
      rw [step]
      have hstream := (c.sender.tick_frame ms).stream
      rcases c.tick_cases ms with ⟨-, h⟩ | ⟨-, -, h⟩ | ⟨-, -, h⟩
      · exact Or.inl (by rw [h]; exact ⟨rfl, rfl⟩)
      · exact Or.inr (by rw [h, uncleanShutdown_eq]; exact ⟨rfl, rfl, rfl⟩)
      · rw [h, closeIfFinished_eq]
        exact Or.inl ⟨congrArg (·.error) hstream, rfl⟩
  | readInbound len => exact Or.inl ⟨rfl, rfl⟩

/-- The owner does not connect again once the connection has ended. -/
def NoRevival (c : TCPConnection) (op : Op) : Prop := op = .connect → c.isActive = true

/-- A connection that has ended stays so, in error or not. -/
theorem step_ended {c : TCPConnection} {op : Op} (hop : c.NoRevival op) (h : c.isActive = false) :
    (c.step op).isActive = false ∧
      (c.step op).sender.stream.error = c.sender.stream.error := by
  have hconnect : op ≠ .connect := fun hop' => absurd (hop hop') (by simp [h])
  by_cases hend : op = .endInputStream
  · rw [hend]
    exact ⟨h, (TCPSender.fillWindow_frame _).error⟩
  · obtain ⟨hinactive, hsame, -⟩ := step_inactive h hconnect hend
    exact ⟨hinactive, by rw [hsame]⟩

/-- What the state of a connection rests on: errors come in pairs and end the connection, and a
connection that ended without one has sent, received and seen acknowledged all there is. -/
structure Charted (c : TCPConnection) : Prop where
  tracks : c.sender.Tracks
  settled : c.sender.Settled
  heard : c.receiver.Heard
  paired : c.sender.stream.error = c.receiver.streamOut.error
  ends : c.sender.stream.error = true → c.isActive = false
  closed : c.isActive = false → c.sender.stream.error = true ∨ c.sender.Idle
  received : c.isActive = false → c.sender.stream.error = true ∨
    c.receiver.streamOut.inputEnded = true

namespace Charted

theorem new (cfg : TCPConfig) (random : UInt32) : (new cfg random).Charted :=
  ⟨⟨[], [], TCPSender.Tiled.new _ _ _ _⟩, TCPSender.Settled.new _ _ _ _, fun h => absurd h nofun,
    rfl, nofun, nofun, nofun⟩

theorem step {c : TCPConnection} (h : c.Charted) (op : Op) (hop : c.NoRevival op) :
    (c.step op).Charted := by
  refine ⟨step_tracks h.tracks op, step_settled h.settled op, ?_, ?_, fun herror => ?_,
    step_closed h.settled h.closed op, fun hended => ?_⟩
  · rcases c.step_receiver op with ⟨len, -, hr⟩ | ⟨-, hr | hr | ⟨seg, -, -, -, hr⟩⟩
    · rw [hr]
      exact h.heard
    · rw [hr]
      exact h.heard
    · rw [hr]
      exact h.heard
    · rw [hr]
      exact h.heard.segmentReceived seg
  · rcases c.step_errors op with ⟨hs, hr⟩ | ⟨hs, hr, -⟩
    · rw [hs, hr]
      exact h.paired
    · rw [hs, hr]
  · rcases c.step_errors op with ⟨hs, -⟩ | ⟨-, -, hinactive⟩
    · exact (step_ended hop (h.ends (hs.symm.trans herror))).1
    · exact hinactive
  · refine Bool.eq_false_or_eq_true (c.step op).sender.stream.error |>.imp_right fun herror => ?_
    rcases Bool.eq_false_or_eq_true c.isActive with hactive | hactive
    · obtain ⟨-, hfinished, -⟩ := step_ends hactive hended herror
      simp only [streamsFinished, Bool.and_eq_true] at hfinished
      exact hfinished.1.1
    · have hbefore : c.sender.stream.error = false := by
        rcases c.step_errors op with ⟨hs, -⟩ | ⟨hs, -⟩
        · exact hs.symm.trans herror
        · exact absurd hs (by simp [herror])
      have hover := (h.received hactive).resolve_left (by simp [hbefore])
      exact (c.step_advances op).stream.ended hover

end Charted

/-- A connection that has ended is in RESET or in CLOSED. -/
theorem state_of_inactive {c : TCPConnection} (h : c.Charted) (hended : c.isActive = false) :
    c.state = TCPState.ofState (if c.sender.stream.error then .reset else .closed) := by
  have hparts : c.state =
      ⟨c.sender.stateSummary, c.receiver.stateSummary, false, false⟩ := by
    rw [state, TCPState.ofParts, active, hended]
    rfl
  rw [hparts, TCPReceiver.stateSummary_eq, ← h.paired]
  rcases Bool.eq_false_or_eq_true c.sender.stream.error with herror | herror
  · rw [TCPSender.stateSummary, if_pos herror, if_pos herror, if_pos herror]
    rfl
  · have hidle := (h.closed hended).resolve_left (by simp [herror])
    have hover := (h.received hended).resolve_left (by simp [herror])
    obtain ⟨sent, written, htiled⟩ := h.tracks
    have hack := hidle.outstanding_eq_nil.mp hidle.outstanding_nil
    have hnext : c.sender.ackno ≠ 0 := by
      rw [← hack, htiled.next_eq, hidle.finSent_eq]
      exact Nat.succ_ne_zero _
    have hnone : c.receiver.isn ≠ none := Option.isSome_iff_ne_none.mp (h.heard hover)
    rw [htiled.stateSummary_eq, herror, hover, hidle.finSent_eq, hack]
    simp [hnext, hnone, TCPState.ofState]

/-- Both sides are in ERROR or neither is. -/
theorem Charted.error_iff {c : TCPConnection} (h : c.Charted) :
    (c.state.sender = .error ↔ c.sender.stream.error = true) ∧
      (c.state.receiver = .error ↔ c.sender.stream.error = true) := by
  constructor
  · show c.sender.stateSummary = .error ↔ _
    unfold TCPSender.stateSummary
    split_ifs <;> simp_all
  · show c.receiver.stateSummary = .error ↔ _
    rw [h.paired, TCPReceiver.stateSummary_eq]
    split_ifs <;> simp_all

/-- What a call does to the state. -/
theorem Charted.state_step {c : TCPConnection} (h : c.Charted) {op : Op} (hop : c.NoRevival op) :
    c.state.sender.rank ≤ (c.step op).state.sender.rank ∧
      c.state.receiver.rank ≤ (c.step op).state.receiver.rank ∧
      (c.state.active = false → (c.step op).state = c.state) := by
  have hstep := h.step op hop
  have herror : c.sender.stream.error = true → (c.step op).sender.stream.error = true :=
    (step_onward h.settled.toSound op).error
  refine ⟨(step_onward h.settled.toSound op).rank_le h.tracks hstep.tracks,
    (c.step_advances op).rank_le ?_, fun hended => ?_⟩
  · rw [← h.paired, ← hstep.paired]
    exact herror
  · obtain ⟨hended', hsame⟩ := step_ended hop hended
    rw [state_of_inactive h hended, state_of_inactive hstep hended', hsame]

theorem run_charted (cfg : TCPConfig) (random : UInt32) {is : List Op}
    (h : StepSystem.Guarded step NoRevival (new cfg random) is) :
    (StepSystem.run step (new cfg random) is).Charted :=
  h.invariant (fun _ _ hop hc => Charted.step hc _ hop) (Charted.new cfg random)

/-- Along every run on which the owner does not connect again after the end, neither summary goes
back, the sender is in ERROR exactly when the receiver is, and a connection that is no longer active
is in RESET or in CLOSED, and in RESET exactly after an error, whatever follows. -/
theorem state_progress (cfg : TCPConfig) (random : UInt32) (is js : List Op)
    (h : StepSystem.Guarded step NoRevival (new cfg random) is)
    (h' : StepSystem.Guarded step NoRevival (StepSystem.run step (new cfg random) is) js) :
    let c := StepSystem.run step (new cfg random) is
    let d := StepSystem.run step c js
    (c.state.sender.rank ≤ d.state.sender.rank ∧ c.state.receiver.rank ≤ d.state.receiver.rank) ∧
    (c.state.sender = .error ↔ c.state.receiver = .error) ∧
    (c.state.sender = .error → c.state = TCPState.ofState .reset) ∧
    (c.state.active = false → d.state = c.state ∧
      (c.state = TCPState.ofState .reset ∨ c.state = TCPState.ofState .closed)) := by
  intro c d
  have hc : c.Charted := run_charted cfg random h
  have hd : d.Charted ∧ c.state.sender.rank ≤ d.state.sender.rank ∧
      c.state.receiver.rank ≤ d.state.receiver.rank ∧
      (c.state.active = false → d.state = c.state) := by
    refine h'.invariant (P := fun e => e.Charted ∧ c.state.sender.rank ≤ e.state.sender.rank ∧
      c.state.receiver.rank ≤ e.state.receiver.rank ∧
      (c.state.active = false → e.state = c.state)) ?_ ⟨hc, le_refl _, le_refl _, fun _ => rfl⟩
    rintro e op hop ⟨he, hsender, hreceiver, hsame⟩
    obtain ⟨hsender', hreceiver', hsame'⟩ := he.state_step hop
    refine ⟨he.step op hop, hsender.trans hsender', hreceiver.trans hreceiver', fun hended => ?_⟩
    exact (hsame' (by rw [hsame hended, hended])).trans (hsame hended)
  refine ⟨⟨hd.2.1, hd.2.2.1⟩, hc.error_iff.1.trans hc.error_iff.2.symm, fun herror => ?_,
    fun hended => ⟨hd.2.2.2 hended, ?_⟩⟩
  · have hset := hc.error_iff.1.mp herror
    rw [state_of_inactive hc (hc.ends hset), if_pos hset]
  · rw [state_of_inactive hc hended]
    split
    · exact Or.inl rfl
    · exact Or.inr rfl

/-- A RST ends the handshake, and what comes later finds the connection in RESET. -/
theorem state_progress_reset :
    let c := StepSystem.run step (new { fixedIsn := some ⟨0⟩ } 0)
      [.connect, .segmentReceived { header := { rst := true } }]
    c.state.active = false ∧
      (StepSystem.run step c
        [.endInputStream, .segmentReceived { header := { syn := true } }]).state = c.state :=
  ⟨by decide +kernel, ((state_progress { fixedIsn := some ⟨0⟩ } 0
    [.connect, .segmentReceived { header := { rst := true } }]
    [.endInputStream, .segmentReceived { header := { syn := true } }]
    ⟨fun _ => rfl, nofun, trivial⟩ ⟨nofun, nofun, trivial⟩).2.2.2 (by decide +kernel)).1⟩

end TCPConnection

end CourseNet
