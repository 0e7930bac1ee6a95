import CourseNet.SenderWindow
import CourseNet.Tiling

/-!
# What the sender has sent

The segments that `fill_window` queues tile the stream: the SYN, then the bytes in order, then the
FIN, each segment starting where the one before it ended.  `Tiled` says so about a sender and the
list of the segments it has sent so far; one send appends one tile, an acknowledgment takes
segments from the outstanding map and from nowhere else, and a tick queues the first of them
again.  `History` runs the sender and notes what it was given and what it queued.
-/

namespace CourseNet

namespace TCPSender

/-- The numbers a segment occupies. -/
abbrev span (seg : TCPSegment) : ℕ := seg.lengthInSequenceSpace

/-- The bytes that the segments carry. -/
def payloads (sent : List TCPSegment) : Bytes := (sent.map fun seg => seg.payload).flatten

/-- What may start at an absolute number: the SYN alone at zero, and up to 1000 bytes of the stream,
the FIN or both anywhere else. -/
inductive IsTile (isn : WrappingInt32) : ℕ → TCPSegment → Prop
  | syn : IsTile isn 0 { header := { seqno := wrap 0 isn, syn := true } }
  | stream (start : ℕ) (payload : Bytes) (fin : Bool) (hstart : 0 < start)
      (hmax : payload.length ≤ 1000) (hpos : 0 < payload.length + fin.toNat) :
      IsTile isn start
        { header := { seqno := wrap start isn, fin := fin }, payload := payload }

theorem payloads_snoc (sent : List TCPSegment) (seg : TCPSegment) :
    payloads (sent ++ [seg]) = payloads sent ++ seg.payload := by
  rw [payloads, List.map_append, List.flatten_append, List.map_singleton, List.flatten_singleton]
  rfl

/-! ### The invariant -/

/-- The segments `sent` tile what `s` has taken from a stream of which the bytes `written` were
accepted, and the outstanding ones are those that end past the highest acknowledged number. -/
structure Tiled (s : TCPSender) (sent : List TCPSegment) (written : Bytes) : Prop
    extends s.Sound where
  tiles : ∀ e ∈ Tiling.placed span 0 sent, IsTile s.isn e.1 e.2
  next : s.nextSeqno = Tiling.total span sent
  wrote : s.stream.Wrote (payloads sent) written
  fin_last : ∀ seg ∈ sent.dropLast, seg.header.fin = false
  fin : s.finSent = true ↔ ∃ seg ∈ sent, seg.header.fin = true
  kept : s.outstanding = Tiling.beyond span s.ackno 0 sent

theorem Tiled.new (capacity : ℕ) (retxTimeout : UInt16) (fixedIsn : Option WrappingInt32)
    (random : UInt32) : (TCPSender.new capacity retxTimeout fixedIsn random).Tiled [] [] :=
  ⟨Sound.new _ _ _ _, fun _ he => absurd he List.not_mem_nil, rfl, ⟨rfl, rfl⟩,
    fun _ h => absurd h List.not_mem_nil, by simp [TCPSender.new], rfl⟩

namespace Tiled

variable {s s' : TCPSender} {sent : List TCPSegment} {written : Bytes}

/-- Before the SYN nothing was sent. -/
theorem sent_nil (h : s.Tiled sent written) (hsyn : s.synSent = false) : sent = [] := by
  obtain ⟨hread, hfin⟩ := h.syn_unsent hsyn
  have hzero : Tiling.total span sent = 0 := by
    rw [← h.next, h.next_eq, hsyn, hread, hfin]
    rfl
  cases sent with
  | nil => rfl
  | cons seg sent =>
      rw [Tiling.total_cons] at hzero
      have htile := h.tiles (0, seg) List.mem_cons_self
      generalize hstart : (0, seg).1 = start at htile
      cases htile with
      | syn => exact absurd hzero (by simp [span, TCPSegment.lengthInSequenceSpace])
      | stream start payload fin hstart' => exact absurd hstart' (by rw [← hstart]; simp)

/-- One more tile. -/
theorem snoc (h : s.Tiled sent written) (hs : s'.Sound) {seg : TCPSegment}
    (hisn : s'.isn = s.isn) (hack : s'.ackno = s.ackno) (htile : IsTile s.isn s.nextSeqno seg)
    (hnext : s'.nextSeqno = s.nextSeqno + span seg)
    (hwrote : s'.stream.Wrote (payloads sent ++ seg.payload) written)
    (hnot : s.finSent = false) (hfin : s'.finSent = seg.header.fin)
    (hout : s'.outstanding = s.outstanding ++ [(s.nextSeqno, seg)]) :
    s'.Tiled (sent ++ [seg]) written := by
  have hnone : ∀ q ∈ sent, q.header.fin = false := by
    intro q hq
    by_contra hne
    have hsome := h.fin.mpr ⟨q, hq, by simpa using hne⟩
    rw [hnot] at hsome
    exact Bool.false_ne_true hsome
  have hle := h.ackno_le
  have hlt := hs.key_lt (s.nextSeqno, seg) (by rw [hout]; simp)
  refine ⟨hs, fun e he => ?_, ?_, ?_, fun q hq => ?_, ?_, ?_⟩
  · rw [Tiling.placed_snoc, Nat.zero_add, ← h.next] at he
    rw [hisn]
    rcases List.mem_append.mp he with he | he
    · exact h.tiles e he
    · rw [List.mem_singleton.mp he]
      exact htile
  · rw [hnext, h.next, Tiling.total_append, Tiling.total_singleton]
  · rw [payloads_snoc]
    exact hwrote
  · rw [List.dropLast_concat] at hq
    exact hnone q hq
  · rw [hfin]
    constructor
    · exact fun hf => ⟨seg, by simp, hf⟩
    · rintro ⟨q, hq, hf⟩
      rcases List.mem_append.mp hq with hq | hq
      · exact absurd hf (by simp [hnone q hq])
      · rw [← List.mem_singleton.mp hq]
        exact hf
  · have hroom : s.nextSeqno < s'.nextSeqno := hlt
    rw [hout, hack, h.kept, Tiling.beyond_snoc 0 sent (by rw [Nat.zero_add, ← h.next]; omega),
      Nat.zero_add, h.next]

/-- One send queues one tile. -/
theorem sends (h : s.Tiled sent written) {right : ℕ} (hsend : Sends right s s') :
    ∃ seg, s'.segmentsOut = s.segmentsOut ++ [seg] ∧ s'.Tiled (sent ++ [seg]) written := by
  have hs := h.toSound.sends hsend
  cases hsend with
  | syn hsyn hlt =>
      obtain ⟨hread, hfin⟩ := h.syn_unsent hsyn
      have hzero : s.nextSeqno = 0 := by rw [h.next, h.sent_nil hsyn]; rfl
      refine ⟨s.synSegment, rfl, h.snoc hs rfl rfl ?_ rfl ?_ hfin hfin
        (transmit_outstanding h.key_lt _)⟩
      · rw [synSegment, blankSegment, hzero]
        exact IsTile.syn
      · show s.stream.Wrote (payloads sent ++ []) written
        rw [List.append_nil]
        exact h.wrote
  | stream n fin hsyn hn hmax hpos hfit hfin =>
      have hnot := h.finSent_of_sends hn hpos fun hf => (hfin hf).1
      have hlen : (s.stream.buffer.take n).length = n := by
        rw [List.length_take]
        exact min_eq_left hn
      refine ⟨s.streamSegment n fin, rfl, h.snoc hs rfl rfl ?_ rfl ?_ hnot ?_
        (transmit_outstanding (s := { s with stream := s.stream.popOutput n }) h.key_lt _)⟩
      · refine IsTile.stream s.nextSeqno _ fin ?_ (by rw [hlen]; exact hmax)
          (by rw [hlen]; exact hpos)
        rw [h.next_eq, hsyn, Bool.toNat_true]
        omega
      · have hread := h.wrote.read n
        rw [ByteStream.peekOutput_eq] at hread
        exact hread
      · show (s.finSent || fin) = fin
        rw [hnot, Bool.false_or]

/-- What `fill_window` queues are the next tiles. -/
theorem fillWindow (h : s.Tiled sent written) :
    ∃ more, s.fillWindow.segmentsOut = s.segmentsOut ++ more ∧
      s.fillWindow.Tiled (sent ++ more) written := by
  refine fillWindow_invariant (P := fun t => ∃ more, t.segmentsOut = s.segmentsOut ++ more ∧
    t.Tiled (sent ++ more) written) ⟨[], (List.append_nil _).symm, ?_⟩ ?_
  · rw [List.append_nil]
    exact h
  rintro t t' ⟨more, hqueue, ht⟩ hsend
  obtain ⟨seg, hqueue', ht'⟩ := ht.sends hsend
  rw [List.append_assoc] at ht'
  exact ⟨more ++ [seg], by rw [hqueue', hqueue, List.append_assoc], ht'⟩

/-- The invariant speaks of these fields only. -/
theorem congr (h : s.Tiled sent written) (hs : s'.Sound) (hisn : s'.isn = s.isn)
    (hfin : s'.finSent = s.finSent) (hstream : s'.stream = s.stream)
    (hnext : s'.nextSeqno = s.nextSeqno) (hack : s'.ackno = s.ackno)
    (hout : s'.outstanding = s.outstanding) : s'.Tiled sent written := by
  refine ⟨hs, ?_, ?_, ?_, h.fin_last, ?_, ?_⟩
  · rw [hisn]
    exact h.tiles
  · rw [hnext]
    exact h.next
  · rw [hstream]
    exact h.wrote
  · rw [hfin]
    exact h.fin
  · rw [hout, hack]
    exact h.kept

theorem noteAck (h : s.Tiled sent written) {a : ℕ} (ha : a ≤ s.nextSeqno) (w : UInt16) :
    (s.noteAck a w).Tiled sent written := by
  have hframe := s.noteAck_frame a w
  refine ⟨h.toSound.noteAck ha w, ?_, ?_, ?_, h.fin_last, ?_, ?_⟩
  · rw [hframe.isn]
    exact h.tiles
  · rw [hframe.nextSeqno]
    exact h.next
  · rw [hframe.stream]
    exact h.wrote
  · rw [hframe.finSent]
    exact h.fin
  · show (dropAcked { s with windowSize := w } a).outstanding = _
    rw [dropAcked_outstanding, hframe.ackno, ← Tiling.beyond_filter, ← h.kept]

/-- An acknowledgment that is not dropped may open the window for more tiles. -/
theorem ackReceived (h : s.Tiled sent written) (ackno : WrappingInt32) (w : UInt16) :
    ∃ more, (s.ackReceived ackno w).segmentsOut = s.segmentsOut ++ more ∧
      (s.ackReceived ackno w).Tiled (sent ++ more) written := by
  have hsound := h.toSound.ackReceived ackno w
  rcases s.ackReceived_cases ackno w with ⟨-, heq⟩ | ⟨hle, heq⟩
  · rw [heq]
    exact ⟨[], by rw [List.append_nil], by rw [List.append_nil]; exact h⟩
  · obtain ⟨more, hqueue, hfilled⟩ := (h.noteAck hle w).fillWindow
    rw [(s.noteAck_frame _ w).segmentsOut] at hqueue
    rw [heq] at hsound ⊢
    rw [stopTimer_eq] at hsound ⊢
    exact ⟨more, hqueue, hfilled.congr hsound rfl rfl rfl rfl rfl rfl⟩

theorem tick (h : s.Tiled sent written) (ms : ℕ) : (s.tick ms).Tiled sent written := by
  have hframe := s.tick_frame ms
  exact h.congr (h.toSound.tick ms) hframe.isn hframe.finSent hframe.stream hframe.nextSeqno
    hframe.ackno hframe.outstanding

theorem write (h : s.Tiled sent written) (d : Bytes) :
    { s with stream := (s.stream.write d).1 }.Tiled sent
      (written ++ d.take (s.stream.write d).2) :=
  ⟨h.toSound.write d, h.tiles, h.next, h.wrote.write d, h.fin_last, h.fin, h.kept⟩

theorem endInput (h : s.Tiled sent written) :
    { s with stream := s.stream.endInput }.Tiled sent written :=
  ⟨h.toSound.endInput, h.tiles, h.next, h.wrote, h.fin_last, h.fin, h.kept⟩

/-- The outstanding segments reach from the first of them to the next sequence number. -/
theorem bytesInFlight_eq (h : s.Tiled sent written) :
    s.bytesInFlight = s.outstanding.head?.elim 0 fun e => s.nextSeqno - e.1 := by
  have htotal := Tiling.beyond_total span s.ackno 0 sent
  rw [← h.kept, Nat.zero_add, ← h.next] at htotal
  exact htotal

/-- The segment with the FIN is the last one. -/
theorem end_of_fin (h : s.Tiled sent written) {e : ℕ × TCPSegment}
    (he : e ∈ Tiling.placed span 0 sent) (hfin : e.2.header.fin = true) :
    e.1 + span e.2 = s.nextSeqno := by
  rcases List.eq_nil_or_concat sent with hnil | ⟨front, last, hsent⟩
  · rw [hnil] at he
    exact absurd he List.not_mem_nil
  · rw [List.concat_eq_append] at hsent
    have hlast := h.fin_last
    rw [hsent, List.dropLast_concat] at hlast
    rw [hsent, Tiling.placed_snoc, Nat.zero_add] at he
    rcases List.mem_append.mp he with he | he
    · exact absurd hfin (by simp [hlast _ (Tiling.mem_of_mem_placed he)])
    · rw [List.mem_singleton.mp he, h.next, hsent, Tiling.total_append, Tiling.total_singleton]

/-- When the FIN is out, the input has ended, every byte was sent, and the FIN stands right behind
the bytes. -/
theorem fin_number (h : s.Tiled sent written) {e : ℕ × TCPSegment}
    (he : e ∈ Tiling.placed span 0 sent) (hfin : e.2.header.fin = true) :
    s.stream.inputEnded = true ∧ payloads sent = written ∧
      e.1 + e.2.payload.length = s.stream.bytesWritten + 1 := by
  have hsent := h.fin.mpr ⟨e.2, Tiling.mem_of_mem_placed he, hfin⟩
  obtain ⟨hended, hbuf⟩ := h.fin_sent hsent
  have hsyn := (h.done_of_finSent hsent).1
  have hnext := h.next_eq
  rw [hsyn, hsent, Bool.toNat_true, ByteStream.bytesRead_of_buffer_nil hbuf] at hnext
  have hend := h.end_of_fin he hfin
  have hwrote := h.wrote.1
  rw [hbuf, List.append_nil] at hwrote
  refine ⟨hended, hwrote, ?_⟩
  obtain ⟨start, seg⟩ := e
  have htile : IsTile s.isn start seg := h.tiles _ he
  cases htile with
  | syn => exact absurd hfin (by simp)
  | stream _ payload fin hstart hmax hpos =>
      have hfin : fin = true := hfin
      rw [hfin] at hend
      have hspan : start + (payload.length + 0 + 1) = s.nextSeqno := hend
      show start + payload.length = _
      omega

end Tiled

/-! ### The history of a run -/

/-- The sender after a call. -/
def call (s : TCPSender) : Op → TCPSender
  | .write data => { s with stream := (s.stream.write data).1 }
  | .endInput => { s with stream := s.stream.endInput }
  | .fillWindow => s.fillWindow
  | .tick ms => s.tick ms
  | .ackReceived ackno windowSize => s.ackReceived ackno windowSize

/-- A segment queued by a tick, and the outstanding map in which the tick found it. -/
structure Retransmission where
  outstanding : List (ℕ × TCPSegment)
  segment : TCPSegment

/-- A sender with the bytes its stream accepted, the segments that `fill_window` queued, directly or
from `ack_received`, those that ticks queued, and the absolute acknowledgment numbers that were not
dropped. -/
structure History where
  sender : TCPSender
  written : Bytes
  sent : List TCPSegment
  resent : List Retransmission
  accepted : List ℕ

namespace History

def new (capacity : ℕ) (retxTimeout : UInt16) (fixedIsn : Option WrappingInt32)
    (random : UInt32) : History :=
  ⟨TCPSender.new capacity retxTimeout fixedIsn random, [], [], [], []⟩

/-- The segments that a call queues. -/
def queued (h : History) (op : Op) : List TCPSegment :=
  (h.sender.call op).segmentsOut.drop h.sender.segmentsOut.length

def step (h : History) (op : Op) : History :=
  let h' := { h with sender := h.sender.call op }
  match op with
  | .write data => { h' with written := h.written ++ data.take (h.sender.stream.write data).2 }
  | .endInput => h'
  | .fillWindow => { h' with sent := h.sent ++ h.queued op }
  | .tick _ =>
      { h' with resent := h.resent ++ (h.queued op).map fun seg => ⟨h.sender.outstanding, seg⟩ }
  | .ackReceived ackno _ =>
      { h' with
          sent := h.sent ++ h.queued op
          accepted :=
            if h.sender.absoluteAckno ackno ≤ h.sender.nextSeqno then
              h.accepted ++ [h.sender.absoluteAckno ackno]
            else h.accepted }

/-- The highest accepted absolute acknowledgment number. -/
def highestAckno (h : History) : ℕ := h.accepted.foldl max 0

/-- The segments sent, with the absolute numbers at which they start. -/
abbrev placed (h : History) : List (ℕ × TCPSegment) := Tiling.placed span 0 h.sent

/-- What the history of a sender says about its output. -/
structure Faithful (h : History) : Prop where
  /-- Nothing was queued but what is noted. -/
  queue : h.sender.segmentsOut.Perm (h.sent ++ h.resent.map fun r => r.segment)
  /-- The SYN, then bytes of the stream, a FIN or both, each starting where the one before it
  ended. -/
  tiles : ∀ e ∈ h.placed, IsTile h.sender.isn e.1 e.2
  next : h.sender.nextSeqno = Tiling.total span h.sent
  /-- The bytes sent are the bytes taken from the stream. -/
  bytes : payloads h.sent = h.written.take h.sender.stream.bytesRead
  /-- Only the last segment may carry the FIN. -/
  fin_last : ∀ seg ∈ h.sent.dropLast, seg.header.fin = false
  /-- The FIN is sent when the input has ended and every byte was sent, right behind the bytes. -/
  fin : ∀ e ∈ h.placed, e.2.header.fin = true →
    h.sender.stream.inputEnded = true ∧ payloads h.sent = h.written ∧
      e.1 + e.2.payload.length = h.sender.stream.bytesWritten + 1
  /-- The outstanding segments are the sent ones that the acknowledgments have not covered. -/
  outstanding : h.sender.outstanding =
    h.placed.filter fun e => decide (h.highestAckno < e.1 + e.2.lengthInSequenceSpace)
  inFlight : h.sender.bytesInFlight =
    h.sender.outstanding.head?.elim 0 fun e => h.sender.nextSeqno - e.1
  /-- A retransmission is the segment with the lowest number among those outstanding, as it was
  sent. -/
  resent : ∀ r ∈ h.resent, ∃ e ∈ h.placed, e ∈ r.outstanding ∧
    (∀ f ∈ r.outstanding, e.1 ≤ f.1) ∧ r.segment = e.2

/-- The invariant behind it. -/
structure Kept (h : History) : Prop where
  tiled : h.sender.Tiled h.sent h.written
  ackno : h.sender.ackno = h.highestAckno
  queue : h.sender.segmentsOut.Perm (h.sent ++ h.resent.map fun r => r.segment)
  resent : ∀ r ∈ h.resent, ∃ e ∈ h.placed, e ∈ r.outstanding ∧
    (∀ f ∈ r.outstanding, e.1 ≤ f.1) ∧ r.segment = e.2

namespace Kept

variable {h : History}

theorem new (capacity : ℕ) (retxTimeout : UInt16) (fixedIsn : Option WrappingInt32)
    (random : UInt32) : (History.new capacity retxTimeout fixedIsn random).Kept :=
  ⟨Tiled.new _ _ _ _, rfl, List.Perm.refl _, fun _ hr => absurd hr List.not_mem_nil⟩

/-- What a tick found outstanding stays among what was sent. -/
theorem resent_mono {sent : List TCPSegment} (hk : h.Kept) (more : List TCPSegment)
    (hsent : sent = h.sent ++ more) {r : Retransmission} (hr : r ∈ h.resent) :
    ∃ e ∈ Tiling.placed span 0 sent, e ∈ r.outstanding ∧ (∀ f ∈ r.outstanding, e.1 ≤ f.1) ∧
      r.segment = e.2 := by
  obtain ⟨e, he, hrest⟩ := hk.resent r hr
  refine ⟨e, ?_, hrest⟩
  rw [hsent, Tiling.placed_append]
  exact List.mem_append_left _ he

/-- A call that may send. -/
theorem send (hk : h.Kept) (op : Op) {more : List TCPSegment} {accepted : List ℕ}
    (hqueue : (h.sender.call op).segmentsOut = h.sender.segmentsOut ++ more)
    (htiled : (h.sender.call op).Tiled (h.sent ++ more) h.written)
    (hack : (h.sender.call op).ackno = accepted.foldl max 0) :
    { h with
        sender := h.sender.call op
        sent := h.sent ++ h.queued op
        accepted := accepted }.Kept := by
  have hmore : h.queued op = more := by rw [queued, hqueue, List.drop_left]
  rw [hmore]
  refine ⟨htiled, hack, ?_, fun r hr => hk.resent_mono more rfl hr⟩
  show (h.sender.call op).segmentsOut.Perm (h.sent ++ more ++ h.resent.map fun r => r.segment)
  rw [hqueue]
  refine (hk.queue.append_right more).trans ?_
  rw [List.append_assoc, List.append_assoc]
  exact List.perm_append_comm.append_left h.sent

theorem tick (hk : h.Kept) (ms : ℕ) : (h.step (.tick ms)).Kept := by
  have hframe := h.sender.tick_frame ms
  have htiled := hk.tiled.tick ms
  have hack : (h.sender.tick ms).ackno = h.highestAckno := hframe.ackno.trans hk.ackno
  rcases h.sender.tick_queued ms with hqueue | ⟨e, hhead, hqueue⟩
  · have hnone : h.queued (.tick ms) = [] := by
      show (h.sender.tick ms).segmentsOut.drop _ = []
      rw [hqueue, List.drop_length]
    have hresent : (h.step (.tick ms)).resent = h.resent := by
      show h.resent ++ (h.queued (.tick ms)).map _ = _
      rw [hnone, List.map_nil, List.append_nil]
    refine ⟨htiled, hack, ?_, fun r hr => hk.resent r (hresent ▸ hr)⟩
    rw [hresent]
    show (h.sender.tick ms).segmentsOut.Perm _
    rw [hqueue]
    exact hk.queue
  · have hone : h.queued (.tick ms) = [e.2] := by
      show (h.sender.tick ms).segmentsOut.drop _ = _
      rw [hqueue, List.drop_left]
    have hresent : (h.step (.tick ms)).resent = h.resent ++ [⟨h.sender.outstanding, e.2⟩] := by
      show h.resent ++ (h.queued (.tick ms)).map _ = _
      rw [hone, List.map_singleton]
    refine ⟨htiled, hack, ?_, fun r hr => ?_⟩
    · rw [hresent]
      show (h.sender.tick ms).segmentsOut.Perm _
      rw [hqueue, List.map_append, List.map_singleton, ← List.append_assoc]
      exact hk.queue.append_right [e.2]
    · rw [hresent] at hr
      rcases List.mem_append.mp hr with hr | hr
      · exact hk.resent r hr
      · rw [List.mem_singleton.mp hr]
        have hmem := List.mem_of_head? hhead
        refine ⟨e, ?_, hmem, SortedMap.head?_le hhead, rfl⟩
        rw [hk.tiled.kept] at hmem
        exact (List.mem_filter.mp hmem).1

theorem step (hk : h.Kept) (op : Op) : (h.step op).Kept := by
  cases op with
  | write data => exact ⟨hk.tiled.write data, hk.ackno, hk.queue, hk.resent⟩
  | endInput => exact ⟨hk.tiled.endInput, hk.ackno, hk.queue, hk.resent⟩
  | fillWindow =>
      obtain ⟨more, hqueue, htiled⟩ := hk.tiled.fillWindow
      exact hk.send .fillWindow hqueue htiled
        (h.sender.fillWindow_frame.ackno.trans hk.ackno)
  | tick ms => exact hk.tick ms
  | ackReceived ackno windowSize =>
      obtain ⟨more, hqueue, htiled⟩ := hk.tiled.ackReceived ackno windowSize
      refine hk.send (.ackReceived ackno windowSize) hqueue htiled ?_
      show (h.sender.ackReceived ackno windowSize).ackno = _
      rcases h.sender.ackReceived_cases ackno windowSize with ⟨hlt, heq⟩ | ⟨hle, heq⟩
      · rw [heq, if_neg (not_le.mpr hlt)]
        exact hk.ackno
      · rw [heq, stopTimer_eq, if_pos hle, List.foldl_append]
        show (h.sender.noteAck _ windowSize).fillWindow.ackno = max h.highestAckno _
        rw [(h.sender.noteAck _ windowSize).fillWindow_frame.ackno,
          (h.sender.noteAck_frame _ windowSize).ackno, hk.ackno]

theorem faithful (hk : h.Kept) : h.Faithful := by
  refine ⟨hk.queue, hk.tiled.tiles, hk.tiled.next, ?_, hk.tiled.fin_last,
    fun e he => hk.tiled.fin_number he, ?_, hk.tiled.bytesInFlight_eq, hk.resent⟩
  · rw [← hk.tiled.wrote.1, ← hk.tiled.wrote.2, List.take_left]
  · rw [← hk.ackno]
    exact hk.tiled.kept

end Kept

/-- **The output tiles the stream.**  After any calls the segments first sent are the SYN, the bytes
taken from the stream in order and the FIN behind the last of them; the outstanding ones are those
that no accepted acknowledgment covers; and every tick that sends again sends the first of them. -/
theorem run_faithful (capacity : ℕ) (retxTimeout : UInt16) (fixedIsn : Option WrappingInt32)
    (random : UInt32) (ops : List Op) :
    (StepSystem.run step (History.new capacity retxTimeout fixedIsn random) ops).Faithful :=
  (StepSystem.run_invariant (P := Kept) (fun _ op hk => hk.step op) ops
    (Kept.new capacity retxTimeout fixedIsn random)).faithful

example :
    let h := StepSystem.run step (new 10 1000 (some ⟨0⟩) 0) [.fillWindow, .ackReceived ⟨1⟩ 3,
      .write [7, 8], .endInput, .fillWindow, .tick 999, .tick 1]
    h.sent.map (fun seg => (seg.header.seqno.rawValue, seg.header.syn, seg.payload, seg.header.fin)) =
        [(0, true, [], false), (1, false, [7, 8], true)] ∧
      h.resent.map (fun r => r.segment.payload) = [[7, 8]] := by
  decide +kernel

end History

end TCPSender

end CourseNet
