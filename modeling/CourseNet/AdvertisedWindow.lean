import CourseNet.ReceiverAdvance
import CourseNet.Replies
import CourseNet.SegmentStream

/-!
# The advertised window

The right edge of the window is the acknowledgment number plus the free space of the inbound stream,
clamped to what the header field holds.  Counted from the first byte it is the smaller of
`bytes_read + capacity` and `bytes_written + 65535`, and one more for the FIN: neither of the counters
goes back, nor does the FIN.  So it is enough to follow the receiver, and every segment with ACK shows
the receiver as the call that emits it leaves it.
-/

namespace CourseNet

/-! ### The receiver -/

namespace TCPReceiver

/-- The right edge of the advertised window, as an absolute number. -/
def rightEdge (r : TCPReceiver) : ℕ := r.absoluteAckno + min r.windowSize 65535

/-- The right edge in terms of the counters of the stream. -/
theorem Sized.rightEdge_eq {capacity : ℕ} {r : TCPReceiver} (h : Sized capacity r)
    (hcap : capacity < 2 ^ 64) :
    r.rightEdge =
      min (r.streamOut.bytesRead + capacity) (r.streamOut.bytesWritten + 65535) + 1 +
        (r.finReceived && r.streamOut.inputEnded).toNat := by
  have hacc := r.streamOut.accounting
  obtain ⟨hle, hwindow⟩ := h.windowSize_eq hcap
  rw [rightEdge, absoluteAckno_eq, hwindow]
  unfold ByteStream.bufferSize at hle ⊢
  omega

theorem Advances.rightEdge_le {capacity : ℕ} (hcap : capacity < 2 ^ 64) {r s : TCPReceiver}
    (hr : Sized capacity r) (h : r.Advances s) : r.rightEdge ≤ s.rightEdge := by
  have hwritten := h.stream.bytesWritten
  have hread := h.stream.bytesRead
  have hfin := h.fin_le
  rw [hr.rightEdge_eq hcap, (hr.of_advances h).rightEdge_eq hcap]
  omega

end TCPReceiver

/-! ### The segments of a run -/

namespace TCPConnection

/-- The sender queues nothing with ACK. -/
theorem step_emitted {c : TCPConnection} {S : Bytes} (h : TCPSender.Carries S c.sender) (op : Op) :
    (∃ T, TCPSender.Carries T (c.step op).sender) ∧
      (c.step op).segmentsOut = c.segmentsOut ++ c.emittedSince (c.step op) ∧
      ∀ seg ∈ c.emittedSince (c.step op), (seg.header.rst = true ∧ seg.header.ack = false) ∨
        ∃ q : TCPSegment, q.header.ack = false ∧ seg = (c.step op).stamp q := by
  have hmove : ∀ s t, SenderMove s t → (∃ T, TCPSender.Carries T s) → ∃ T, TCPSender.Carries T t :=
    fun _ _ hmove ⟨T, hs⟩ => ⟨T, hmove.carries hs⟩
  have hwrite : ∀ (s : TCPSender) d, (∃ T, TCPSender.Carries T s) →
      ∃ T, TCPSender.Carries T { s with stream := (s.stream.write d).1 }.fillWindow :=
    fun _ d ⟨_, hs⟩ => ⟨_, (hs.write d).fillWindow⟩
  have hend : ∀ s : TCPSender, (∃ T, TCPSender.Carries T s) →
      ∃ T, TCPSender.Carries T { s with stream := s.stream.endInput }.fillWindow :=
    fun _ ⟨_, hs⟩ => ⟨_, hs.endInput.fillWindow⟩
  obtain ⟨s, ⟨T, hs⟩, sent, hout, hsent⟩ := step_appends hmove hwrite hend c op ⟨S, h⟩
  have hsince : c.emittedSince (c.step op) = sent := by rw [emittedSince, hout, List.drop_left]
  rw [hsince]
  refine ⟨step_sender_invariant hmove hwrite hend c op ⟨S, h⟩, hout, fun seg hseg => ?_⟩
  refine (hsent seg hseg).imp_right ?_
  rintro ⟨q, hq, rfl⟩
  exact ⟨q, (hs.queued q hq).unstamped, rfl⟩

end TCPConnection

/-- A connection and the segments it has emitted, each with the absolute acknowledgment number of the
receiver at that time. -/
structure Advertised where
  conn : TCPConnection
  log : List (ℕ × TCPSegment)

namespace Advertised

open TCPConnection (Op)

def new (cfg : TCPConfig) (random : UInt32) : Advertised := ⟨TCPConnection.new cfg random, []⟩

/-- The segments emitted since `c`, each with the acknowledgment number as the call leaves it. -/
def noted (c c' : TCPConnection) : List (ℕ × TCPSegment) :=
  (c.emittedSince c').map fun seg => (c'.receiver.absoluteAckno, seg)

def step (a : Advertised) (op : Op) : Advertised where
  conn := a.conn.step op
  log := a.log ++ noted a.conn (a.conn.step op)

/-- The acknowledgments: the segments with ACK that are no RST. -/
def acks (log : List (ℕ × TCPSegment)) : List (ℕ × TCPSegment) :=
  log.filter fun e => e.2.header.ack && !e.2.header.rst

theorem mem_acks {log : List (ℕ × TCPSegment)} {e : ℕ × TCPSegment} :
    e ∈ acks log ↔ e ∈ log ∧ e.2.header.ack = true ∧ e.2.header.rst = false := by
  simp [acks]

/-- Neither the absolute number nor the right edge of the earlier acknowledgment is past those of the
later one. -/
def Before (e e' : ℕ × TCPSegment) : Prop :=
  e.1 ≤ e'.1 ∧ e.1 + e.2.header.win.toNat ≤ e'.1 + e'.2.header.win.toNat

/-- What an acknowledgment in the log shows, compared with the receiver. -/
structure Shown (r : TCPReceiver) (e : ℕ × TCPSegment) : Prop where
  ackno : ∃ isn, r.isn = some isn ∧ e.2.header.ackno = wrap e.1 isn
  ackno_le : e.1 ≤ r.absoluteAckno
  right_le : e.1 + e.2.header.win.toNat ≤ r.rightEdge

theorem Shown.of_advances {capacity : ℕ} (hcap : capacity < 2 ^ 64) {r s : TCPReceiver}
    {e : ℕ × TCPSegment} (hr : r.Sized capacity) (h : Shown r e) (hrs : r.Advances s) :
    Shown s e := by
  obtain ⟨isn, hisn, hackno⟩ := h.ackno
  exact ⟨⟨isn, hrs.isn isn hisn, hackno⟩, h.ackno_le.trans hrs.absoluteAckno_le,
    h.right_le.trans (hrs.rightEdge_le hcap hr)⟩

/-- An acknowledgment shows the receiver as the call leaves it. -/
theorem shown_stamp {c : TCPConnection} {q : TCPSegment} (hraw : q.header.ack = false)
    (hack : (c.stamp q).header.ack = true) :
    Shown c.receiver (c.receiver.absoluteAckno, c.stamp q) ∧
      c.receiver.absoluteAckno + (c.stamp q).header.win.toNat = c.receiver.rightEdge := by
  have hsome : (q.header.ack || c.receiver.ackno.isSome) = true := hack
  rw [hraw, Bool.false_or, TCPReceiver.ackno, Option.isSome_map] at hsome
  obtain ⟨isn, hisn⟩ := Option.isSome_iff_exists.mp hsome
  obtain ⟨-, hackno, hwin⟩ := TCPConnection.stamp_of_isn hisn q
  rw [TCPReceiver.ackno, hisn, Option.map_some] at hackno
  refine ⟨⟨⟨isn, hisn, (Option.some.inj hackno).symm⟩, le_refl _, ?_⟩, ?_⟩
  · rw [hwin, TCPReceiver.rightEdge]
  · rw [hwin, TCPReceiver.rightEdge]

/-- The acknowledgments of one call all show the receiver as the call leaves it. -/
theorem shown_noted {c : TCPConnection} {S : Bytes} (h : TCPSender.Carries S c.sender) (op : Op)
    {e : ℕ × TCPSegment} (he : e ∈ acks (noted c (c.step op))) :
    Shown (c.step op).receiver e ∧ e.1 = (c.step op).receiver.absoluteAckno ∧
      e.1 + e.2.header.win.toNat = (c.step op).receiver.rightEdge := by
  obtain ⟨hmem, hack, hrst⟩ := mem_acks.mp he
  obtain ⟨seg, hseg, rfl⟩ := List.mem_map.mp hmem
  rcases (TCPConnection.step_emitted h op).2.2 seg hseg with ⟨hreset, -⟩ | ⟨q, hraw, rfl⟩
  · exact absurd hrst (by simp [hreset])
  · obtain ⟨hshown, hright⟩ := shown_stamp hraw hack
    exact ⟨hshown, rfl, hright⟩

/-- The invariant of a run. -/
structure Consistent (capacity : ℕ) (a : Advertised) : Prop where
  sized : a.conn.receiver.Sized capacity
  carries : ∃ S, TCPSender.Carries S a.conn.sender
  log_eq : a.log.map Prod.snd = a.conn.segmentsOut
  shown : ∀ e ∈ acks a.log, Shown a.conn.receiver e
  ordered : (acks a.log).Pairwise Before

theorem Consistent.new (cfg : TCPConfig) (random : UInt32) :
    Consistent cfg.recvCapacity (new cfg random) :=
  ⟨⟨rfl, rfl⟩, ⟨[], TCPSender.Carries.new _ _ _ _⟩, rfl, fun _ h => absurd h List.not_mem_nil,
    List.Pairwise.nil⟩

theorem Consistent.step {capacity : ℕ} (hcap : capacity < 2 ^ 64) {a : Advertised}
    (h : Consistent capacity a) (op : Op) : Consistent capacity (a.step op) := by
  obtain ⟨S, hcarries⟩ := h.carries
  obtain ⟨hcarries', hout, -⟩ := TCPConnection.step_emitted hcarries op
  have hadv := a.conn.step_advances op
  have hold : ∀ e ∈ acks a.log, Shown (a.step op).conn.receiver e := fun e he =>
    (h.shown e he).of_advances hcap h.sized hadv
  have hacks : acks (a.step op).log = acks a.log ++ acks (noted a.conn (a.conn.step op)) :=
    List.filter_append ..
  refine ⟨h.sized.of_advances hadv, hcarries', ?_, fun e he => ?_, ?_⟩
  · show (a.log ++ noted a.conn (a.conn.step op)).map Prod.snd = (a.conn.step op).segmentsOut
    rw [List.map_append, h.log_eq, hout, noted, List.map_map]
    simp [Function.comp_def]
  · rw [hacks] at he
    rcases List.mem_append.mp he with he | he
    · exact hold e he
    · exact (shown_noted hcarries op he).1
  · rw [hacks, List.pairwise_append]
    refine ⟨h.ordered, ?_, fun e he e' he' => ?_⟩
    · refine List.pairwise_of_forall_mem_list fun e he e' he' => ?_
      obtain ⟨-, hackno, hright⟩ := shown_noted hcarries op he
      obtain ⟨-, hackno', hright'⟩ := shown_noted hcarries op he'
      exact ⟨(hackno.trans hackno'.symm).le, (hright.trans hright'.symm).le⟩
    · obtain ⟨-, hackno', hright'⟩ := shown_noted hcarries op he'
      have hshown := hold e he
      exact ⟨hshown.ackno_le.trans hackno'.ge, hshown.right_le.trans hright'.ge⟩

/-- **The advertised window never shrinks.**  In every run, each acknowledgment carries its absolute
number wrapped, neither these numbers nor the right edges of the windows shown with them decrease
along the log, and the bytes held in the inbound stream never exceed the capacity, so `window_size`
is what is left of it. -/
theorem window_never_shrinks (cfg : TCPConfig) (random : UInt32) (hcap : cfg.recvCapacity < 2 ^ 64)
    (ops : List Op) :
    let a := StepSystem.run step (new cfg random) ops
    a.log.map Prod.snd = a.conn.segmentsOut ∧
      (∀ e ∈ acks a.log, ∃ isn, a.conn.receiver.isn = some isn ∧
        e.2.header.ackno = wrap e.1 isn) ∧
      (acks a.log).Pairwise Before ∧
      a.conn.inboundStream.bufferSize ≤ cfg.recvCapacity ∧
      a.conn.receiver.windowSize = cfg.recvCapacity - a.conn.inboundStream.bufferSize := by
  have h : Consistent cfg.recvCapacity (StepSystem.run step (new cfg random) ops) :=
    StepSystem.run_invariant (fun _ op ha => ha.step hcap op) ops (Consistent.new cfg random)
  exact ⟨h.log_eq, fun e he => (h.shown e he).ackno, h.ordered, h.sized.windowSize_eq hcap⟩

/-- A window of four bytes: three arrive, two are read, a FIN arrives. -/
theorem window_never_shrinks_read :
    let syn : TCPSegment := { header := { syn := true } }
    let data : TCPSegment := { header := { seqno := ⟨1⟩ }, payload := [7, 8, 9] }
    let fin : TCPSegment := { header := { seqno := ⟨4⟩, fin := true } }
    let a := StepSystem.run step (new { recvCapacity := 4, fixedIsn := some ⟨100⟩ } 0)
      [.segmentReceived syn, .segmentReceived data, .readInbound 2, .segmentReceived fin]
    (acks a.log).map (fun e => (e.1, e.2.header.win)) = [(1, 4), (4, 1), (5, 3)] ∧
      (acks a.log).Pairwise Before := by
  intro syn data fin a
  exact ⟨by decide +kernel,
    (window_never_shrinks { recvCapacity := 4, fixedIsn := some ⟨100⟩ } 0 (by decide) _).2.2.1⟩

end Advertised

end CourseNet
