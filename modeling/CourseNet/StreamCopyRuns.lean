import CourseNet.BidirectionalStreamCopy

/-!
# Runs of the copy

Whatever the polls and the system calls answer, each direction of the copy keeps its books: what was
written and what is buffered is what was read, in order, as long as the rule that writes was not hung
up; and every callback moves a byte or meets an end.
-/

namespace CourseNet

namespace StreamCopy

namespace Lane

/-- The books of a direction with the rules `source` and `sink`; `eof` is a flag of the descriptor it
reads, `closed` one of the descriptor it writes.  In a `steady` run no sink is hung up. -/
structure Ledger (steady : Prop) (source sink : RuleName) (rules : List RuleName)
    (eof closed : Bool) (l : Lane) : Prop where
  capacity : l.stream.capacity = 1048576
  error : l.stream.error = false
  grows : l.written ++ l.stream.buffer <+: l.read
  balanced : sink ∈ rules ∨ l.shutdown = true → l.written ++ l.stream.buffer = l.read
  shut : l.shutdown = true → l.stream.eof = true
  ended : l.stream.inputEnded = true →
    eof = true ∨ source ∉ rules ∨ (sink ∉ rules ∧ l.shutdown = false)
  gone : source ∉ rules ∨ sink ∉ rules → l.stream.inputEnded = true
  closes : steady → closed = true → l.shutdown = true
  stays : steady → sink ∉ rules → l.shutdown = true

/-- Every callback so far has moved a byte, but for one that has met the end. -/
structure Paced (source sink : RuleName) (calls : List (EventLoop.Call RuleName)) (eof : Bool)
    (l : Lane) : Prop where
  reads : EventLoop.callbacks source calls ≤ l.read.length + eof.toNat
  writes : EventLoop.callbacks sink calls ≤ l.written.length + l.shutdown.toNat

/-- The same, after a callback has thrown. -/
structure Bounded (source sink : RuleName) (calls : List (EventLoop.Call RuleName)) (l : Lane) :
    Prop where
  reads : EventLoop.callbacks source calls ≤ l.read.length + 1
  writes : EventLoop.callbacks sink calls ≤ l.written.length + 1

theorem Paced.bounded {source sink : RuleName} {calls : List (EventLoop.Call RuleName)} {eof : Bool}
    {l : Lane} (h : l.Paced source sink calls eof) : l.Bounded source sink calls :=
  ⟨h.reads.trans (Nat.add_le_add_left (Bool.toNat_le eof) _),
    h.writes.trans (Nat.add_le_add_left (Bool.toNat_le l.shutdown) _)⟩

theorem Paced.other {source sink : RuleName} {calls : List (EventLoop.Call RuleName)} {eof : Bool}
    {l : Lane} (h : l.Paced source sink calls eof) {c : EventLoop.Call RuleName}
    (hsource : c ≠ .callback source) (hsink : c ≠ .callback sink) :
    l.Paced source sink (calls ++ [c]) eof :=
  ⟨by rw [EventLoop.callbacks_other hsource]; exact h.reads,
    by rw [EventLoop.callbacks_other hsink]; exact h.writes⟩

section Moves

variable {steady : Prop} {source sink : RuleName} {rules rules' : List RuleName}
  {calls : List (EventLoop.Call RuleName)} {eof closed : Bool} {l l' : Lane}

theorem Ledger.congr (h : l.Ledger steady source sink rules eof closed)
    (hsource : source ∈ rules' ↔ source ∈ rules) (hsink : sink ∈ rules' ↔ sink ∈ rules) :
    l.Ledger steady source sink rules' eof closed where
  capacity := h.capacity
  error := h.error
  grows := h.grows
  balanced hin := h.balanced (hin.imp_left hsink.mp)
  shut := h.shut
  ended hend := by
    rw [hsource, hsink]
    exact h.ended hend
  gone hgone := by
    rw [hsource, hsink] at hgone
    exact h.gone hgone
  closes := h.closes
  stays hsteady hno := h.stays hsteady fun hin => hno (hsink.mpr hin)

/-- The rule that reads is cancelled. -/
theorem Ledger.eraseSource (h : l.Ledger steady source sink rules eof closed)
    (hsource : source ∉ rules') (hsink : sink ∈ rules' ↔ sink ∈ rules) :
    l.endInput.Ledger steady source sink rules' eof closed where
  capacity := h.capacity
  error := h.error
  grows := h.grows
  balanced hin := h.balanced (hin.imp_left hsink.mp)
  shut hshut := ByteStream.eof_iff.mpr ⟨rfl, (ByteStream.eof_iff.mp (h.shut hshut)).2⟩
  ended _ := Or.inr (Or.inl hsource)
  gone _ := rfl
  closes := h.closes
  stays hsteady hno := h.stays hsteady fun hin => hno (hsink.mpr hin)

/-- The rule that writes is cancelled. -/
theorem Ledger.eraseSink (h : l.Ledger steady source sink rules eof closed)
    (hsource : source ∈ rules' ↔ source ∈ rules) (hsink : sink ∉ rules')
    (hsteady : steady → l.shutdown = true) :
    l.endInput.Ledger steady source sink rules' eof closed where
  capacity := h.capacity
  error := h.error
  grows := h.grows
  balanced hin := h.balanced (Or.inr (hin.resolve_left hsink))
  shut hshut := ByteStream.eof_iff.mpr ⟨rfl, (ByteStream.eof_iff.mp (h.shut hshut)).2⟩
  ended _ := by
    rw [hsource]
    cases hshut : l.shutdown with
    | false => exact Or.inr (Or.inr ⟨hsink, hshut⟩)
    | true =>
        rcases h.ended (ByteStream.eof_iff.mp (h.shut hshut)).1 with heof | hgone | hno
        · exact Or.inl heof
        · exact Or.inr (Or.inl hgone)
        · exact absurd (hshut.symm.trans hno.2) (by decide)
  gone _ := rfl
  closes := h.closes
  stays hst _ := hsteady hst

/-- A read that returns. -/
theorem Ledger.filled {fd fd' : FileDescriptor} {got : Bytes}
    (h : l.Ledger steady source sink rules fd.eof closed) (hsource : source ∈ rules)
    (hopen : fd.eof = false) (hf : Filled l l' fd fd' got) :
    l'.Ledger steady source sink rules fd'.eof closed := by
  have hbuffer : l'.stream.buffer = (l.stream.write got).1.buffer := by
    rw [hf.stream]
    split <;> rfl
  have hended : l'.stream.inputEnded = (fd'.eof || l.stream.inputEnded) := by
    rw [hf.stream]
    split
    · rename_i heof
      rw [heof]
      rfl
    · rename_i heof
      rw [Bool.not_eq_true] at heof
      rw [heof, ByteStream.write_inputEnded, Bool.false_or]
  -- a stream that has ended before its source was cut off from its sink
  have hcut : l.stream.inputEnded = true → sink ∉ rules ∧ l.shutdown = false := fun hend =>
    ((h.ended hend).resolve_left (by simp [hopen])).resolve_left (not_not.mpr hsource)
  have hopened : l.stream.inputEnded = false → l'.stream.buffer = l.stream.buffer ++ got := by
    intro hend
    rw [hbuffer, ByteStream.write_buffer, ByteStream.write_snd, hend, h.error]
    show _ ++ got.take (min _ _) = _
    rw [min_eq_left hf.fits, List.take_length]
  have hclosed : l.stream.inputEnded = true → l'.stream.buffer = l.stream.buffer := by
    intro hend
    rw [hbuffer, ByteStream.write_eq_self_of_ended hend]
  have hwasBalanced : l.stream.inputEnded = false → l.written ++ l.stream.buffer = l.read :=
    fun hend => h.balanced <| Or.inl <| by
      by_contra hno
      exact absurd (h.gone (Or.inr hno)) (by simp [hend])
  constructor
  · rw [hf.stream]
    split
    · exact (ByteStream.write_capacity _ _).trans h.capacity
    · exact (ByteStream.write_capacity _ _).trans h.capacity
  · rw [hf.stream]
    split
    · exact (ByteStream.write_error _ _).trans h.error
    · exact (ByteStream.write_error _ _).trans h.error
  · rw [hf.written, hf.read]
    cases hend : l.stream.inputEnded with
    | false => rw [hopened hend, ← List.append_assoc, hwasBalanced hend]
    | true =>
        rw [hclosed hend]
        exact h.grows.trans (List.prefix_append _ _)
  · intro hin
    rw [hf.written, hf.read]
    cases hend : l.stream.inputEnded with
    | false => rw [hopened hend, ← List.append_assoc, hwasBalanced hend]
    | true =>
        rw [hf.shutdown] at hin
        exact absurd hin (by simp [hcut hend])
  · intro hshut
    rw [hf.shutdown] at hshut
    have heof := ByteStream.eof_iff.mp (h.shut hshut)
    exact absurd (hcut heof.1).2 (by simp [hshut])
  · intro hend
    rw [hended, Bool.or_eq_true] at hend
    rw [hf.shutdown]
    exact hend.imp_right fun hend => Or.inr (hcut hend)
  · intro hgone
    rw [hended, h.gone hgone, Bool.or_true]
  · rw [hf.shutdown]
    exact h.closes
  · rw [hf.shutdown]
    exact h.stays

/-- A write that returns. -/
theorem Ledger.drained {fd fd' : FileDescriptor} {n : ℕ}
    (h : l.Ledger steady source sink rules eof fd.closed) (hd : Drained l l' fd fd' n) :
    l'.Ledger steady source sink rules eof fd'.closed := by
  have hbytes : l'.written ++ l'.stream.buffer = l.written ++ l.stream.buffer := by
    rw [hd.written, hd.stream, ByteStream.popOutput_buffer, List.append_assoc,
      List.take_append_drop]
  have hended : l'.stream.inputEnded = l.stream.inputEnded := by
    rw [hd.stream, ByteStream.popOutput_inputEnded]
  constructor
  · rw [hd.stream]
    exact h.capacity
  · rw [hd.stream]
    exact h.error
  · rw [hbytes, hd.read]
    exact h.grows
  · rw [hbytes, hd.read, hd.shutdown]
    exact h.balanced
  · intro hshut
    rw [hd.shutdown] at hshut
    have heof := ByteStream.eof_iff.mp (h.shut hshut)
    rw [ByteStream.eof_iff, hended, hd.stream, ByteStream.popOutput_buffer, heof.2, List.drop_nil]
    exact ⟨heof.1, rfl⟩
  · rw [hended, hd.shutdown]
    exact h.ended
  · rw [hended]
    exact h.gone
  · rw [hd.closed, hd.shutdown]
    exact h.closes
  · rw [hd.shutdown]
    exact h.stays

/-- The end of what is written to. -/
theorem Ledger.ends (h : l.Ledger steady source sink rules eof closed) (hsink : sink ∈ rules)
    (heof : l.stream.eof = true) (closed' : Bool) :
    ({ l with shutdown := true } : Lane).Ledger steady source sink rules eof closed' where
  capacity := h.capacity
  error := h.error
  grows := h.grows
  balanced _ := h.balanced (Or.inl hsink)
  shut _ := heof
  ended hend := (h.ended hend).imp_right fun hor =>
    Or.inl (hor.resolve_right fun hno => hno.1 hsink)
  gone := h.gone
  closes _ _ := rfl
  stays _ _ := rfl

theorem Paced.filled {fd fd' : FileDescriptor} {got : Bytes}
    (h : l.Paced source sink calls fd.eof) (hne : source ≠ sink) (hopen : fd.eof = false)
    (hroom : 0 < l.stream.remainingCapacity) (hf : Filled l l' fd fd' got) :
    l'.Paced source sink (calls ++ [.callback source]) fd'.eof := by
  have hreads := h.reads
  rw [hopen] at hreads
  constructor
  · rw [EventLoop.callbacks_self, hf.read, List.length_append, hf.eof, hopen, Bool.false_or]
    cases got with
    | nil => simpa [hroom] using hreads
    | cons b got =>
        rw [List.length_cons]
        have hreads : EventLoop.callbacks source calls ≤ l.read.length := hreads
        omega
  · rw [EventLoop.callbacks_other (by simpa using hne), hf.written, hf.shutdown]
    exact h.writes

theorem Paced.drained {fd fd' : FileDescriptor} {n : ℕ} (h : l.Paced source sink calls eof)
    (hne : source ≠ sink) (hd : Drained l l' fd fd' n) (hbuffer : l.stream.buffer ≠ []) :
    l'.Paced source sink (calls ++ [.callback sink]) eof := by
  constructor
  · rw [EventLoop.callbacks_other (by simpa using hne.symm), hd.read]
    exact h.reads
  · have hpos := hd.progress hbuffer
    have hwrites := h.writes
    rw [EventLoop.callbacks_self, hd.written, List.length_append,
      List.length_take_of_le hd.buffered, hd.shutdown]
    omega

theorem Paced.ends {fd fd' : FileDescriptor} {n : ℕ} (h : l.Paced source sink calls eof)
    (hne : source ≠ sink) (hd : Drained l l' fd fd' n) (hshut : l.shutdown = false) :
    ({ l' with shutdown := true } : Lane).Paced source sink (calls ++ [.callback sink]) eof := by
  constructor
  · rw [EventLoop.callbacks_other (by simpa using hne.symm)]
    show _ ≤ l'.read.length + _
    rw [hd.read]
    exact h.reads
  · have hwrites := h.writes
    rw [hshut] at hwrites
    rw [EventLoop.callbacks_self]
    show _ ≤ l'.written.length + 1
    rw [hd.written, List.length_append]
    exact Nat.add_le_add_right (hwrites.trans (Nat.le_add_right _ _)) 1

/-- One callback too many, which has thrown. -/
theorem Paced.stopped {k : RuleName} (h : l.Paced source sink calls eof) (hread : l'.read = l.read)
    (hgrows : l.written.length ≤ l'.written.length) (heof : k = source → eof = false)
    (hshut : k = sink → l.shutdown = false) :
    l'.Bounded source sink (calls ++ [.callback k]) := by
  have hreads := h.reads
  have hwrites := h.writes
  constructor
  · rw [hread]
    by_cases hk : k = source
    · rw [heof hk] at hreads
      rw [hk, EventLoop.callbacks_self]
      exact Nat.add_le_add_right hreads 1
    · rw [EventLoop.callbacks_other (by simpa using hk)]
      exact h.bounded.reads
  · by_cases hk : k = sink
    · rw [hshut hk] at hwrites
      rw [hk, EventLoop.callbacks_self]
      exact Nat.add_le_add_right (hwrites.trans hgrows) 1
    · rw [EventLoop.callbacks_other (by simpa using hk)]
      exact h.bounded.writes.trans (Nat.add_le_add_right hgrows 1)

end Moves

end Lane

/-! ### The callbacks -/

/-- An error that the kernel reports. -/
def Exception.KernelError : Exception → Prop
  | .read | .shutdown | .close => True
  | .write outcome => outcome = .throws "writev"
  | .readMore _ => False

/-- A read returns at most what was asked for, and a write takes something of what it is given, if that
is anything. -/
structure Kernel.Conforms (k : Kernel) : Prop where
  inputRead : ∀ n got, k.inputRead n = some got → got.length ≤ n
  socketWrite : ∀ n m, k.socketWrite n = some m → m ≤ n ∧ (0 < n → 0 < m)
  socketRead : ∀ n got, k.socketRead n = some got → got.length ≤ n
  outputWrite : ∀ n m, k.outputWrite n = some m → m ≤ n ∧ (0 < n → 0 < m)

namespace Lane

variable {steady : Prop} {source sink : RuleName} {rules : List RuleName}
  {calls : List (EventLoop.Call RuleName)} {eof closed : Bool} {l : Lane} {fd : FileDescriptor}

/-- What a callback leaves of a direction, if it returns and if it throws. -/
structure After (steady : Prop) (source sink : RuleName) (rules : List RuleName)
    (calls : List (EventLoop.Call RuleName)) (eof closed : Bool) (l : Lane)
    (error : Option Exception) : Prop where
  ledger : l.Ledger steady source sink rules eof closed
  returns : error = none → l.Paced source sink calls eof
  throws : error ≠ none → l.Bounded source sink calls

/-- A callback of the other direction. -/
theorem Paced.after (h : l.Paced source sink calls eof)
    (hledger : l.Ledger steady source sink rules eof closed) {k : RuleName} (hsource : k ≠ source)
    (hsink : k ≠ sink) (error : Option Exception) :
    After steady source sink rules (calls ++ [.callback k]) eof closed l error :=
  have hother := h.other (c := .callback k) (by simpa using hsource) (by simpa using hsink)
  ⟨hledger, fun _ => hother, fun _ => hother.bounded⟩

theorem fill_after (hne : source ≠ sink) (hledger : l.Ledger steady source sink rules fd.eof closed)
    (hpaced : l.Paced source sink calls fd.eof) (hsource : source ∈ rules) (hopen : fd.eof = false)
    (hroom : 0 < l.stream.remainingCapacity) (answer : ℕ → Option Bytes) :
    After steady source sink rules (calls ++ [.callback source]) (l.fill fd answer).1.eof closed
      (l.fill fd answer).2.1 (l.fill fd answer).2.2 := by
  rcases l.fill_cases fd answer with ⟨fd', l', got, -, heq, hf⟩ | ⟨what, heq, -⟩
  · rw [heq]
    exact ⟨hledger.filled hsource hopen hf, fun _ => hpaced.filled hne hopen hroom hf,
      fun h => absurd rfl h⟩
  · rw [heq]
    exact ⟨hledger, by simp, fun _ =>
      hpaced.stopped rfl le_rfl (fun _ => hopen) fun h => absurd h hne⟩

/-- What a read leaves alone, and what it may throw. -/
theorem fill_frame (l : Lane) (fd : FileDescriptor) (answer : ℕ → Option Bytes) :
    (l.fill fd answer).1.closed = fd.closed ∧
      (l.pending = true → (l.fill fd answer).2.1.pending = true) ∧
      ((l.fill fd answer).2.2 = none → (l.fill fd answer).1.readCount ≠ fd.readCount) ∧
      ((∀ n got, answer n = some got → got.length ≤ n) →
        ∀ what, (l.fill fd answer).2.2 = some what → what.KernelError) := by
  rcases l.fill_cases fd answer with ⟨fd', l', got, -, heq, hf⟩ | ⟨what, heq, hwhat⟩
  · rw [heq]
    refine ⟨hf.closed, fun hpending => ?_, fun _ => ?_, by simp⟩
    · rw [pending, Bool.or_eq_true] at hpending ⊢
      have hbuffer : l'.stream.buffer = (l.stream.write got).1.buffer := by
        rw [hf.stream]
        split <;> rfl
      rcases hpending with hmore | hend
      · left
        rw [ByteStream.bufferEmpty, hbuffer, ByteStream.write_buffer]
        simpa [ByteStream.bufferEmpty] using fun h => absurd h (by
          simpa [ByteStream.bufferEmpty] using hmore)
      · right
        rw [Bool.and_eq_true, ByteStream.eof_iff] at hend
        rw [hf.shutdown, Bool.and_eq_true, ByteStream.eof_iff, hbuffer, hf.stream,
          ByteStream.write_eq_self_of_ended hend.1.1]
        refine ⟨⟨?_, hend.1.2⟩, hend.2⟩
        split
        · rfl
        · exact hend.1.1
    · show fd'.readCount ≠ fd.readCount
      rw [hf.readCount]
      grind
  · rw [heq]
    exact ⟨rfl, id, by simp, fun h what' heq' => Option.some.inj heq' ▸ hwhat h ▸ trivial⟩

/-- What ends what is written to: it throws and does nothing, or may count as another write. -/
structure Finishes (finish : FileDescriptor → FileDescriptor × Option Exception) : Prop where
  fails : ∀ fd what, (finish fd).2 = some what → (finish fd).1 = fd ∧ what.KernelError
  writeCount : ∀ fd, (finish fd).1.writeCount = fd.writeCount ∨
    (finish fd).1.writeCount = fd.writeCount + 1

theorem finishes_shutdownWrite (returns : Bool) : Finishes (shutdownWrite returns) := by
  cases returns
  · exact ⟨fun _ _ h => ⟨rfl, Option.some.inj h ▸ trivial⟩, fun _ => Or.inl rfl⟩
  · exact ⟨nofun, fun _ => Or.inr rfl⟩

theorem shutdownWrite_eof (returns : Bool) (fd : FileDescriptor) :
    (shutdownWrite returns fd).1.eof = fd.eof := by
  cases returns <;> rfl

theorem finishes_close (returns : Bool) : Finishes (close returns) := by
  cases returns
  · exact ⟨fun _ _ h => ⟨rfl, Option.some.inj h ▸ trivial⟩, fun _ => Or.inl rfl⟩
  · exact ⟨nofun, fun _ => Or.inl rfl⟩

variable {finish : FileDescriptor → FileDescriptor × Option Exception}

theorem drain_after (hfinish : Finishes finish) (hne : source ≠ sink)
    (hledger : l.Ledger steady source sink rules eof fd.closed)
    (hpaced : l.Paced source sink calls eof) (hsink : sink ∈ rules) (hpending : l.pending = true)
    (answer : ℕ → Option ℕ) :
    After steady source sink rules (calls ++ [.callback sink]) eof
      (l.drain fd answer finish).1.closed (l.drain fd answer finish).2.1
      (l.drain fd answer finish).2.2 := by
  have hshut : l.shutdown = false := by
    cases hshut : l.shutdown with
    | false => rfl
    | true =>
        have hnil := (ByteStream.eof_iff.mp (hledger.shut hshut)).2
        simp [pending, hshut, ByteStream.bufferEmpty, hnil] at hpending
  have hstopped : ∀ l' : Lane, l'.read = l.read → l.written.length ≤ l'.written.length →
      l'.Bounded source sink (calls ++ [.callback sink]) := fun l' hread hgrows =>
    hpaced.stopped hread hgrows (fun h => absurd h.symm hne) fun _ => hshut
  rcases l.drain_cases fd answer finish with ⟨fd', l', n, -, -, hd, heq⟩ | ⟨what, heq, -⟩
  · have hdrained := hledger.drained hd
    rw [heq]
    split
    · rename_i heof
      have hfails := hfinish.fails fd'
      generalize finish fd' = r at hfails
      obtain ⟨fd'', error⟩ := r
      cases error with
      | none =>
          exact ⟨hdrained.ends hsink heof _, fun _ => hpaced.ends hne hd hshut,
            fun h => absurd rfl h⟩
      | some what =>
          obtain ⟨rfl, -⟩ := hfails what rfl
          refine ⟨hdrained, by simp, fun _ => hstopped l' hd.read ?_⟩
          rw [hd.written, List.length_append]
          exact Nat.le_add_right _ _
    · rename_i heof
      refine ⟨hdrained, fun _ => hpaced.drained hne hd ?_, fun h => absurd rfl h⟩
      -- an empty buffer is pending only at the end, and stays there
      intro hnil
      refine heof (ByteStream.eof_iff.mpr ?_)
      rw [hd.stream, ByteStream.popOutput_inputEnded, ByteStream.popOutput_buffer, hnil,
        List.drop_nil]
      simpa [pending, hshut, ByteStream.bufferEmpty, hnil, ByteStream.eof] using hpending
  · rw [heq]
    exact ⟨hledger, by simp, fun _ => hstopped l rfl le_rfl⟩

/-- What a write leaves alone, and what it may throw. -/
theorem drain_frame (hfinish : Finishes finish) (l : Lane) (fd : FileDescriptor)
    (answer : ℕ → Option ℕ) :
    ((∀ fd, (finish fd).1.eof = fd.eof) → (l.drain fd answer finish).1.eof = fd.eof) ∧
      l.stream.remainingCapacity ≤ (l.drain fd answer finish).2.1.stream.remainingCapacity ∧
      ((l.drain fd answer finish).2.2 = none →
        (l.drain fd answer finish).1.writeCount ≠ fd.writeCount) ∧
      ((∀ n m, answer n = some m → m ≤ n ∧ (0 < n → 0 < m)) →
        ∀ what, (l.drain fd answer finish).2.2 = some what → what.KernelError) := by
  have hsucc : ∀ {n m : UInt32}, n = m + 1 ∨ n = m + 1 + 1 → n ≠ m := by
    intro n m h
    grind
  rcases l.drain_cases fd answer finish with ⟨fd', l', n, -, -, hd, heq⟩ | ⟨what, heq, hwhat⟩
  · have hroom : l.stream.remainingCapacity ≤ l'.stream.remainingCapacity := by
      rw [hd.stream, ByteStream.remainingCapacity, ByteStream.remainingCapacity,
        ByteStream.popOutput_capacity, ByteStream.popOutput_buffer, List.length_drop]
      omega
    rw [heq]
    split
    · have hfails := hfinish.fails fd'
      have hcount := hfinish.writeCount fd'
      have hsame : (∀ fd, (finish fd).1.eof = fd.eof) → (finish fd').1.eof = fd.eof :=
        fun h => (h fd').trans hd.eof
      rw [hd.writeCount] at hcount
      generalize finish fd' = r at hfails hcount hsame
      obtain ⟨fd'', error⟩ := r
      cases error with
      | none => exact ⟨hsame, hroom, fun _ => hsucc hcount, by simp⟩
      | some what =>
          exact ⟨hsame, hroom, by simp, fun _ what' h => Option.some.inj h ▸ (hfails what rfl).2⟩
    · exact ⟨fun _ => hd.eof, hroom, fun _ => hsucc (Or.inl hd.writeCount), by simp⟩
  · rw [heq]
    exact ⟨fun _ => rfl, le_rfl, by simp, fun h what' heq' => Option.some.inj heq' ▸ hwhat h ▸ rfl⟩

end Lane

/-! ### The loop -/

/-- What a rule that is polled finds when its turn comes. -/
def Ready : RuleName → StreamCopy → Prop
  | .inputIn, s => s.input.eof = false ∧ 0 < s.outbound.stream.remainingCapacity
  | .socketOut, s => s.outbound.pending = true
  | .socketIn, s => s.socket.eof = false ∧ 0 < s.inbound.stream.remainingCapacity
  | .outputOut, s => s.inbound.pending = true

/-- A rule that is not finished and is interested is ready. -/
theorem ready_of_interest (k : RuleName) (s : StreamCopy) (hfinished : (rule k).finished s = false)
    (hinterest : (rule k).interest s = true) : Ready k s := by
  cases k with
  | inputIn | socketIn =>
      simp only [EventLoop.Rule.finished, rule, Bool.or_eq_false_iff, beq_self_eq_true,
        Bool.true_and] at hfinished
      simp only [rule, Bool.and_eq_true, decide_eq_true_eq] at hinterest
      exact ⟨hfinished.1, hinterest.1.2⟩
  | socketOut | outputOut => exact hinterest

/-- The end of its input does not take anything from a direction. -/
theorem Lane.pending_endInput {l : Lane} (h : l.pending = true) : l.endInput.pending = true := by
  rw [Lane.pending, Bool.or_eq_true] at h ⊢
  refine h.imp_right fun h => ?_
  rw [Bool.and_eq_true, ByteStream.eof_iff] at h
  rw [Bool.and_eq_true, ByteStream.eof_iff]
  exact ⟨⟨rfl, h.1.2⟩, h.2⟩

theorem ready_cancel {j k : RuleName} (hne : j ≠ k) {s : StreamCopy} (h : Ready k s) :
    Ready k ((rule j).cancel s) := by
  cases k with
  | inputIn | socketIn => cases j <;> exact h
  | socketOut | outputOut =>
      cases j with
      | inputIn | socketIn => first | exact h | exact Lane.pending_endInput h
      | socketOut | outputOut => first | exact absurd rfl hne | exact h

theorem ready_callback {j k : RuleName} (hne : j ≠ k) (kernel : Kernel) {s : StreamCopy}
    (h : Ready k s) : Ready k ((rule j).callback kernel s).1 := by
  have hout := (Lane.drain_frame (Lane.finishes_shutdownWrite kernel.socketShutdown) s.outbound
    s.socket kernel.socketWrite)
  have hin := (Lane.drain_frame (Lane.finishes_close kernel.outputClose) s.inbound s.output
    kernel.outputWrite)
  cases j with
  | inputIn =>
      cases k with
      | inputIn => exact absurd rfl hne
      | socketOut => exact (Lane.fill_frame s.outbound s.input kernel.inputRead).2.1 h
      | socketIn | outputOut => exact h
  | socketOut =>
      cases k with
      | inputIn => exact ⟨h.1, h.2.trans_le hout.2.1⟩
      | socketOut => exact absurd rfl hne
      | socketIn => exact ⟨(hout.1 (Lane.shutdownWrite_eof _)).trans h.1, h.2⟩
      | outputOut => exact h
  | socketIn =>
      cases k with
      | inputIn | socketOut => exact h
      | socketIn => exact absurd rfl hne
      | outputOut => exact (Lane.fill_frame s.inbound s.socket kernel.socketRead).2.1 h
  | outputOut =>
      cases k with
      | inputIn | socketOut => exact h
      | socketIn => exact ⟨h.1, h.2.trans_le hin.2.1⟩
      | outputOut => exact absurd rfl hne

variable {steady conforms : Prop}

/-- The books of both directions. -/
structure Ledger (steady : Prop) (l : EventLoop.Loop RuleName StreamCopy) : Prop where
  rules : List.Sublist l.rules ruleNames
  outbound : l.state.outbound.Ledger steady .inputIn .socketOut l.rules l.state.input.eof
    l.state.socket.closed
  inbound : l.state.inbound.Ledger steady .socketIn .outputOut l.rules l.state.socket.eof
    l.state.output.closed

/-- A loop that runs. -/
structure Running (steady : Prop) (l : EventLoop.Loop RuleName StreamCopy) : Prop extends
    Ledger steady l where
  outboundPaced : l.state.outbound.Paced .inputIn .socketOut l.calls l.state.input.eof
  inboundPaced : l.state.inbound.Paced .socketIn .outputOut l.calls l.state.socket.eof

/-- A loop that an exception has left. -/
structure Stopped (steady conforms : Prop) (e : EventLoop.Error Exception)
    (l : EventLoop.Loop RuleName StreamCopy) : Prop extends Ledger steady l where
  outboundBounded : l.state.outbound.Bounded .inputIn .socketOut l.calls
  inboundBounded : l.state.inbound.Bounded .socketIn .outputOut l.calls
  awake : e ≠ .busyWait
  explains : conforms → e = .polledFd ∨ ∃ what, e = .callback what ∧ what.KernelError

/-- What a callback does to the two directions is what it does to the loop. -/
theorem holds_of_after {l : EventLoop.Loop RuleName StreamCopy} {error : Option Exception}
    (hrules : List.Sublist l.rules ruleNames)
    (houtbound : Lane.After steady .inputIn .socketOut l.rules l.calls l.state.input.eof
      l.state.socket.closed l.state.outbound error)
    (hinbound : Lane.After steady .socketIn .outputOut l.rules l.calls l.state.socket.eof
      l.state.output.closed l.state.inbound error)
    (hkernel : conforms → ∀ what, error = some what → what.KernelError) :
    EventLoop.Holds (Running steady) (Stopped steady conforms) l (error.map .callback) := by
  cases error with
  | none =>
      exact ⟨⟨hrules, houtbound.ledger, hinbound.ledger⟩, houtbound.returns rfl,
        hinbound.returns rfl⟩
  | some what =>
      exact ⟨⟨hrules, houtbound.ledger, hinbound.ledger⟩, houtbound.throws nofun,
        hinbound.throws nofun, nofun, fun h => Or.inr ⟨what, rfl, hkernel h what rfl⟩⟩

/-- A callback moves bytes of its own direction only. -/
theorem Running.callback {l : EventLoop.Loop RuleName StreamCopy} (h : Running steady l)
    {k : RuleName} (hk : k ∈ l.rules) (hready : Ready k l.state) (kernel : Kernel) :
    EventLoop.Holds (Running steady) (Stopped steady kernel.Conforms) (l.called rule kernel k)
        (((rule k).callback kernel l.state).2.map .callback) ∧
      (((rule k).callback kernel l.state).2 = none →
        (rule k).serviceCount ((rule k).callback kernel l.state).1 ≠
          (rule k).serviceCount l.state) := by
  cases k with
  | inputIn =>
      obtain ⟨-, -, hcount, hkernel⟩ :=
        Lane.fill_frame l.state.outbound l.state.input kernel.inputRead
      exact ⟨holds_of_after h.rules
        (Lane.fill_after (by decide) h.outbound h.outboundPaced hk hready.1 hready.2 kernel.inputRead)
        (h.inboundPaced.after h.inbound (k := .inputIn) nofun nofun _)
        (fun hc => hkernel hc.inputRead), hcount⟩
  | socketOut =>
      obtain ⟨heof, -, hcount, hkernel⟩ := Lane.drain_frame
        (Lane.finishes_shutdownWrite kernel.socketShutdown) l.state.outbound l.state.socket
        kernel.socketWrite
      have hinbound := h.inboundPaced.after h.inbound (k := .socketOut) nofun nofun
      rw [← heof (Lane.shutdownWrite_eof _)] at hinbound
      exact ⟨holds_of_after h.rules
        (Lane.drain_after (Lane.finishes_shutdownWrite _) (by decide) h.outbound h.outboundPaced hk
          hready kernel.socketWrite)
        (hinbound _) (fun hc => hkernel hc.socketWrite), hcount⟩
  | socketIn =>
      obtain ⟨hclosed, -, hcount, hkernel⟩ :=
        Lane.fill_frame l.state.inbound l.state.socket kernel.socketRead
      have houtbound := h.outboundPaced.after h.outbound (k := .socketIn) nofun nofun
      rw [← hclosed] at houtbound
      exact ⟨holds_of_after h.rules (houtbound _)
        (Lane.fill_after (by decide) h.inbound h.inboundPaced hk hready.1 hready.2 kernel.socketRead)
        (fun hc => hkernel hc.socketRead), hcount⟩
  | outputOut =>
      obtain ⟨-, -, hcount, hkernel⟩ := Lane.drain_frame
        (Lane.finishes_close kernel.outputClose) l.state.inbound l.state.output kernel.outputWrite
      exact ⟨holds_of_after h.rules
        (h.outboundPaced.after h.outbound (k := .outputOut) nofun nofun _)
        (Lane.drain_after (Lane.finishes_close _) (by decide) h.inbound h.inboundPaced hk hready
          kernel.outputWrite)
        (fun hc => hkernel hc.outputWrite), hcount⟩

/-- A cancel ends the stream of its direction. -/
theorem Running.cancel {ks js : List RuleName} {k : RuleName} {s : StreamCopy}
    {calls : List (EventLoop.Call RuleName)} (h : Running steady ⟨ks ++ k :: js, s, calls⟩)
    (hsocket : steady → k = .socketOut → s.outbound.shutdown = true)
    (houtput : steady → k = .outputOut → s.inbound.shutdown = true) :
    Running steady ⟨ks ++ js, (rule k).cancel s, calls ++ [.cancel k]⟩ := by
  have hnodup : (ks ++ k :: js).Nodup := (show ruleNames.Nodup by decide).sublist h.rules
  have hsublist : List.Sublist (ks ++ js) (ks ++ k :: js) :=
    (List.Sublist.refl ks).append (List.sublist_cons_self k js)
  have hself : k ∉ ks ++ js := (List.nodup_cons.mp (List.nodup_middle.mp hnodup)).1
  have hother : ∀ j, j ≠ k → (j ∈ ks ++ js ↔ j ∈ ks ++ k :: js) := fun j hj => by
    simp [hj]
  have houtbound := h.outboundPaced.other (c := .cancel k) nofun nofun
  have hinbound := h.inboundPaced.other (c := .cancel k) nofun nofun
  cases k with
  | inputIn =>
      exact ⟨⟨hsublist.trans h.rules, h.outbound.eraseSource hself (hother _ nofun),
        h.inbound.congr (hother _ nofun) (hother _ nofun)⟩, ⟨houtbound.reads, houtbound.writes⟩,
        hinbound⟩
  | socketOut =>
      exact ⟨⟨hsublist.trans h.rules,
        h.outbound.eraseSink (hother _ nofun) hself fun hs => hsocket hs rfl,
        h.inbound.congr (hother _ nofun) (hother _ nofun)⟩, ⟨houtbound.reads, houtbound.writes⟩,
        hinbound⟩
  | socketIn =>
      exact ⟨⟨hsublist.trans h.rules, h.outbound.congr (hother _ nofun) (hother _ nofun),
        h.inbound.eraseSource hself (hother _ nofun)⟩, houtbound,
        ⟨hinbound.reads, hinbound.writes⟩⟩
  | outputOut =>
      exact ⟨⟨hsublist.trans h.rules, h.outbound.congr (hother _ nofun) (hother _ nofun),
        h.inbound.eraseSink (hother _ nofun) hself fun hs => houtput hs rfl⟩, houtbound,
        ⟨hinbound.reads, hinbound.writes⟩⟩

/-- No rule that writes is hung up. -/
def Steady {ι : Type} : EventLoop.Poll RuleName ι → Prop
  | .ready revents _ => ∀ k ∈ [RuleName.socketOut, .outputOut],
      (revents k).pollHup = true → (revents k).pollOut = true
  | .timeout | .interrupted => True

/-- The kernel keeps its promises. -/
def Conforms : EventLoop.Poll RuleName Kernel → Prop
  | .ready _ kernel => kernel.Conforms
  | .timeout | .interrupted => True

/-- One call of `wait_next_event`. -/
theorem Running.waitNextEvent {l : EventLoop.Loop RuleName StreamCopy} (h : Running steady l)
    {answer : EventLoop.Poll RuleName Kernel} (hsteady : steady → Steady answer) :
    EventLoop.Holds (Running steady) (Stopped steady (Conforms answer))
      (EventLoop.waitNextEvent rule l answer).1
      (EventLoop.waitNextEvent rule l answer).2.error? := by
  have hnodup : l.rules.Nodup := (show ruleNames.Nodup by decide).sublist h.rules
  refine EventLoop.waitNextEvent_keeps Ready (fun ks k js s calls hfinished hl => ?_)
    (fun l k _ => ready_of_interest k l.state)
    (hnodup.imp fun hne s => ready_cancel (Ne.symm hne)) (fun _ => id) ?_ h
  · refine hl.cancel (fun hs hk => ?_) fun hs hk => ?_
    · subst hk
      exact hl.outbound.closes hs hfinished
    · subst hk
      exact hl.inbound.closes hs hfinished
  · rintro revents kernel rfl
    refine ⟨⟨fun l k _ _ hl => ⟨hl.toLedger, hl.outboundPaced.bounded, hl.inboundPaced.bounded,
        nofun, fun _ => Or.inl rfl⟩, fun ks k js s calls hk hl => hl.cancel ?_ ?_,
      fun l k hk hready _ hl => (hl.callback hk hready kernel).1,
      fun l k hk hready _ hl hreturns hcount _ =>
        absurd hcount ((hl.callback hk hready kernel).2 hreturns)⟩,
      hnodup.imp fun hne s hready => ⟨ready_cancel hne hready, ready_callback hne kernel hready⟩⟩
    · rintro hs rfl
      exact absurd (hsteady hs _ (by simp) hk.2.1) (Bool.eq_false_iff.mp hk.2.2)
    · rintro hs rfl
      exact absurd (hsteady hs _ (by simp) hk.2.1) (Bool.eq_false_iff.mp hk.2.2)

/-! ### Nothing left to poll -/

/-- What a rule that is neither finished nor interested has found. -/
def Idle : RuleName → StreamCopy → Prop
  | .inputIn, s => s.input.eof = false ∧ (rule .inputIn).interest s = false
  | .socketOut, s => s.outbound.pending = false
  | .socketIn, s => s.socket.eof = false ∧ (rule .socketIn).interest s = false
  | .outputOut, s => s.inbound.pending = false

theorem idle_of_interest (k : RuleName) (s : StreamCopy) (hfinished : (rule k).finished s = false)
    (hinterest : (rule k).interest s = false) : Idle k s := by
  cases k with
  | inputIn | socketIn =>
      refine ⟨?_, hinterest⟩
      simp only [EventLoop.Rule.finished, rule, Bool.or_eq_false_iff, beq_self_eq_true,
        Bool.true_and] at hfinished
      exact hfinished.1
  | socketOut | outputOut => exact hinterest

/-- A cancel does not wake a rule before it. -/
theorem idle_cancel : ruleNames.Pairwise fun k j => ∀ s : StreamCopy,
    Idle k s → Idle k ((rule j).cancel s) := by
  simp only [ruleNames, List.pairwise_cons, List.mem_cons, List.not_mem_nil, or_false,
    forall_eq_or_imp, forall_eq, List.Pairwise.nil, and_true, IsEmpty.forall_iff, implies_true]
  exact ⟨⟨fun _ h => h, fun _ h => h, fun _ h => h⟩, ⟨fun _ h => h, fun _ h => h⟩, fun _ h => h⟩

/-- A direction none of whose rules has anything to do. -/
theorem Lane.Ledger.drains {source sink : RuleName} {rules : List RuleName} {eof closed : Bool}
    {l : Lane} (h : l.Ledger steady source sink rules eof closed) (hsteady : steady)
    (hfull : source ∈ rules → eof = false ∧ l.stream.remainingCapacity = 0)
    (hidle : sink ∈ rules → l.pending = false) :
    source ∉ rules ∧ l.shutdown = true ∧ l.stream.eof = true ∧ l.written = l.read := by
  have hshut : l.shutdown = true ∧ source ∉ rules := by
    by_cases hsink : sink ∈ rules
    · have hquiet := hidle hsink
      rw [pending, Bool.or_eq_false_iff, Bool.not_eq_false', ByteStream.bufferEmpty,
        List.isEmpty_iff, Bool.and_eq_false_iff, Bool.not_eq_false'] at hquiet
      have hsource : source ∉ rules := fun hin => by
        have hroom := (hfull hin).2
        rw [ByteStream.remainingCapacity, h.capacity, hquiet.1] at hroom
        exact absurd hroom (by decide)
      have heof : l.stream.eof = true :=
        ByteStream.eof_iff.mpr ⟨h.gone (Or.inl hsource), hquiet.1⟩
      exact ⟨hquiet.2.resolve_left (by simp [heof]), hsource⟩
    · have hshut := h.stays hsteady hsink
      refine ⟨hshut, ?_⟩
      rcases h.ended (ByteStream.eof_iff.mp (h.shut hshut)).1 with heof | hgone | hno
      · exact fun hin => absurd heof (by simp [(hfull hin).1])
      · exact hgone
      · exact absurd hshut (by simp [hno.2])
  have heof := h.shut hshut.1
  have hbalanced := h.balanced (Or.inr hshut.1)
  rw [(ByteStream.eof_iff.mp heof).2, List.append_nil] at hbalanced
  exact ⟨hshut.2, hshut.1, heof, hbalanced⟩

/-- What a direction of the copy has done, whatever happened. -/
structure Lane.Faithful (source sink : RuleName) (rules : List RuleName)
    (calls : List (EventLoop.Call RuleName)) (l : Lane) : Prop where
  grows : l.written ++ l.stream.buffer <+: l.read
  pending : sink ∈ rules → l.written ++ l.stream.buffer = l.read
  shut : l.shutdown = true → l.written = l.read
  held : l.stream.buffer.length ≤ 1048576
  paced : l.Bounded source sink calls

theorem Lane.Ledger.faithful {source sink : RuleName} {rules : List RuleName} {eof closed : Bool}
    {l : Lane} (h : l.Ledger steady source sink rules eof closed)
    {calls : List (EventLoop.Call RuleName)} (hpaced : l.Bounded source sink calls) :
    l.Faithful source sink rules calls where
  grows := h.grows
  pending hin := h.balanced (Or.inl hin)
  shut hshut := by
    have hbalanced := h.balanced (Or.inr hshut)
    rwa [(ByteStream.eof_iff.mp (h.shut hshut)).2, List.append_nil] at hbalanced
  held := h.capacity ▸ l.stream.buffer_le
  paced := hpaced

end StreamCopy

namespace BidirectionalStreamCopy

open StreamCopy (RuleName Kernel Exception)

/-- The exception that left the loop. -/
def Phase.error? : Phase → Option (EventLoop.Error Exception)
  | .threw error => some error
  | .copying | .returned => none

/-- The books of the copy. -/
def Accounts (steady conforms : Prop) (c : BidirectionalStreamCopy) : Prop :=
  EventLoop.Holds (StreamCopy.Running steady) (StreamCopy.Stopped steady conforms) c.eventloop
    c.phase.error?

variable {steady conforms : Prop}

theorem start_accounts {socket : FileDescriptor} (hopen : steady → socket.closed = false) :
    (start socket).Accounts steady conforms := by
  have hall : ∀ k, k ∈ (start socket).eventloop.rules := fun k => by
    cases k <;> simp [start, StreamCopy.ruleNames]
  have hledger : ∀ (source sink : RuleName) (eof closed : Bool), (steady → closed = false) →
      StreamCopy.Lane.Ledger steady source sink (start socket).eventloop.rules eof closed
        { stream := ByteStream.new 1048576 } := fun source sink eof closed hclosed =>
    ⟨rfl, rfl, List.prefix_refl _, fun _ => rfl, nofun, nofun,
      fun hgone => absurd hgone (by simp [hall]), fun hs hc => absurd hc (by simp [hclosed hs]),
      fun _ hno => absurd (hall _) hno⟩
  exact ⟨⟨List.Sublist.refl _, hledger _ _ _ _ hopen, hledger _ _ _ _ fun _ => rfl⟩,
    ⟨Nat.zero_le _, Nat.zero_le _⟩, ⟨Nat.zero_le _, Nat.zero_le _⟩⟩

/-- One turn. -/
theorem Accounts.step {c : BidirectionalStreamCopy} (h : c.Accounts steady conforms)
    {answer : EventLoop.Poll RuleName Kernel} (hsteady : steady → StreamCopy.Steady answer)
    (hconforms : conforms → StreamCopy.Conforms answer) :
    (c.step answer).Accounts steady conforms := by
  unfold BidirectionalStreamCopy.step
  split
  · rename_i hphase
    unfold Accounts at h
    rw [hphase] at h
    have hwait := StreamCopy.Running.waitNextEvent h hsteady
    generalize EventLoop.waitNextEvent StreamCopy.rule c.eventloop answer = r at hwait
    obtain ⟨l, result⟩ := r
    cases result with
    | throws e => exact { hwait with explains := fun hc => hwait.explains (hconforms hc) }
    | exit => exact hwait
    | success => exact hwait
    | timeout => exact hwait
  · exact h
  · exact h

theorem run_accounts {socket : FileDescriptor} (hopen : steady → socket.closed = false)
    (answers : List (EventLoop.Poll RuleName Kernel))
    (hsteady : steady → ∀ a ∈ answers, StreamCopy.Steady a)
    (hconforms : conforms → ∀ a ∈ answers, StreamCopy.Conforms a) :
    (StepSystem.run step (start socket) answers).Accounts steady conforms := by
  have hrun : ∀ c : BidirectionalStreamCopy, c.Accounts steady conforms →
      (StepSystem.run step c answers).Accounts steady conforms := by
    induction answers with
    | nil => exact fun _ h => h
    | cons a answers ih =>
        intro c h
        refine ih (fun hs b hb => hsteady hs b (List.mem_cons_of_mem _ hb))
          (fun hc b hb => hconforms hc b (List.mem_cons_of_mem _ hb)) (c.step a) ?_
        exact h.step (fun hs => hsteady hs a List.mem_cons_self)
          fun hc => hconforms hc a List.mem_cons_self
  exact hrun _ (start_accounts hopen)

theorem Accounts.ledger {c : BidirectionalStreamCopy} (h : c.Accounts steady conforms) :
    StreamCopy.Ledger steady c.eventloop ∧
      c.eventloop.state.outbound.Bounded .inputIn .socketOut c.eventloop.calls ∧
      c.eventloop.state.inbound.Bounded .socketIn .outputOut c.eventloop.calls := by
  unfold Accounts at h
  cases herror : c.phase.error? with
  | none =>
      rw [herror] at h
      exact ⟨h.toLedger, h.outboundPaced.bounded, h.inboundPaced.bounded⟩
  | some e =>
      rw [herror] at h
      exact ⟨h.toLedger, h.outboundBounded, h.inboundBounded⟩

/-- **The copy keeps every byte.**  Whatever the polls and the system calls answer: what was written
in a direction, and what is buffered, at most a mebibyte, is the front of what was read, in order, and
all of it while the rule that writes has not been cancelled; what was shut down was written to the
end; every callback but the last has moved a byte; and the loop never stops for a busy wait, nor for
anything but an error that the kernel reports if the kernel keeps its promises. -/
theorem copy_faithful (socket : FileDescriptor) (answers : List (EventLoop.Poll RuleName Kernel)) :
    let c := StepSystem.run step (start socket) answers
    let s := c.eventloop.state
    s.outbound.Faithful .inputIn .socketOut c.eventloop.rules c.eventloop.calls ∧
      s.inbound.Faithful .socketIn .outputOut c.eventloop.rules c.eventloop.calls ∧
      ∀ e, c.phase = .threw e → e ≠ .busyWait ∧
        ((∀ a ∈ answers, StreamCopy.Conforms a) →
          e = .polledFd ∨ ∃ what, e = .callback what ∧ what.KernelError) := by
  intro c s
  have haccounts : c.Accounts False (∀ a ∈ answers, StreamCopy.Conforms a) :=
    run_accounts False.elim answers False.elim id
  obtain ⟨hledger, houtbound, hinbound⟩ := haccounts.ledger
  refine ⟨hledger.outbound.faithful houtbound, hledger.inbound.faithful hinbound, fun e he => ?_⟩
  unfold Accounts at haccounts
  rw [he] at haccounts
  exact ⟨haccounts.awake, haccounts.explains⟩

/-- A copy that has returned by itself has no rule left with something to do. -/
theorem step_idle {c : BidirectionalStreamCopy}
    (hrules : List.Sublist c.eventloop.rules StreamCopy.ruleNames)
    (hidle : c.phase = .returned → ∀ k ∈ c.eventloop.rules, StreamCopy.Idle k c.eventloop.state)
    {answer : EventLoop.Poll RuleName Kernel} (hanswer : answer ≠ .interrupted) :
    (c.step answer).phase = .returned →
      ∀ k ∈ (c.step answer).eventloop.rules, StreamCopy.Idle k (c.step answer).eventloop.state := by
  unfold BidirectionalStreamCopy.step
  split
  · have hexit := EventLoop.waitNextEvent_exit StreamCopy.idle_of_interest
      (StreamCopy.idle_cancel.sublist hrules) answer
    generalize EventLoop.waitNextEvent StreamCopy.rule c.eventloop answer = r at hexit
    obtain ⟨l, result⟩ := r
    cases result with
    | throws e => exact nofun
    | exit => exact fun _ => (hexit rfl).resolve_left hanswer
    | success => exact nofun
    | timeout => exact nofun
  · exact hidle
  · exact hidle

theorem run_idle {socket : FileDescriptor} {answers : List (EventLoop.Poll RuleName Kernel)}
    (hanswers : ∀ a ∈ answers, a ≠ .interrupted) :
    let c := StepSystem.run step (start socket) answers
    c.phase = .returned → ∀ k ∈ c.eventloop.rules, StreamCopy.Idle k c.eventloop.state := by
  induction answers using List.reverseRecOn with
  | nil => exact nofun
  | append_singleton answers a ih =>
      have haccounts : (StepSystem.run step (start socket) answers).Accounts False False :=
        run_accounts False.elim answers False.elim False.elim
      have hrules := haccounts.ledger.1.rules
      rw [StepSystem.run_snoc]
      exact step_idle hrules (ih fun b hb => hanswers b (List.mem_append_left _ hb))
        (hanswers a (by simp))

/-- What a copy that has nothing left to do has done. -/
theorem complete_of_idle {c : BidirectionalStreamCopy} (hledger : StreamCopy.Ledger steady c.eventloop)
    (hsteady : steady) (hidle : ∀ k ∈ c.eventloop.rules, StreamCopy.Idle k c.eventloop.state)
    (l : RuleName × StreamCopy.Lane)
    (hl : l ∈ [(RuleName.inputIn, c.eventloop.state.outbound),
      (.socketIn, c.eventloop.state.inbound)]) :
    l.1 ∉ c.eventloop.rules ∧ l.2.shutdown = true ∧ l.2.stream.eof = true ∧
      l.2.written = l.2.read := by
  -- both streams are free of errors, so a source is kept waiting by a full stream only
  have hfull : ∀ l : StreamCopy.Lane, l.stream.error = false →
      (!l.stream.error && decide (0 < l.stream.remainingCapacity)) = false →
        l.stream.remainingCapacity = 0 := fun l herror h => by
    simpa [herror] using h
  rcases List.mem_cons.mp hl with rfl | hl
  · refine hledger.outbound.drains hsteady (fun hin => ?_) (hidle .socketOut)
    obtain ⟨heof, hquiet⟩ := hidle .inputIn hin
    refine ⟨heof, hfull _ hledger.outbound.error ?_⟩
    simpa [StreamCopy.rule, hledger.inbound.error] using hquiet
  · rw [List.mem_singleton] at hl
    subst hl
    refine hledger.inbound.drains hsteady (fun hin => ?_) (hidle .outputOut)
    obtain ⟨heof, hquiet⟩ := hidle .socketIn hin
    refine ⟨heof, hfull _ hledger.inbound.error ?_⟩
    simpa [StreamCopy.rule, hledger.outbound.error] using hquiet

/-- **A copy that returns is complete.**  Over every run in which no poll is interrupted and no rule
that writes is hung up: when the function returns, both of its sources have come to their end, and
everything that was read from either was written, in order, before the socket was shut down for
writing and the standard output closed. -/
theorem copy_complete {socket : FileDescriptor} (hopen : socket.closed = false)
    (answers : List (EventLoop.Poll RuleName Kernel))
    (hanswers : ∀ a ∈ answers, a ≠ .interrupted ∧ StreamCopy.Steady a) :
    let c := StepSystem.run step (start socket) answers
    let s := c.eventloop.state
    c.phase = .returned → ∀ l ∈ [(RuleName.inputIn, s.outbound), (.socketIn, s.inbound)],
      l.1 ∉ c.eventloop.rules ∧ l.2.shutdown = true ∧ l.2.stream.eof = true ∧
        l.2.written = l.2.read := by
  intro c s hreturned
  have haccounts : c.Accounts True False := run_accounts (fun _ => hopen) answers
    (fun _ a ha => (hanswers a ha).2) False.elim
  exact complete_of_idle haccounts.ledger.1 trivial (run_idle (fun a ha => (hanswers a ha).1) hreturned)

/-- A byte in each direction, then the two ends. -/
def exchange : List (EventLoop.Poll RuleName Kernel) :=
  [.ready (fun _ => { pollIn := true, pollOut := true })
      { inputRead := fun _ => some [7], socketRead := fun _ => some [9] },
    .ready (fun _ => { pollIn := true, pollOut := true })
      { inputRead := fun _ => some [], socketWrite := some, socketRead := fun _ => some []
        outputWrite := some },
    .timeout]

theorem copy_complete_exchange :
    let s := (StepSystem.run step (start {}) exchange).eventloop.state
    s.outbound.read = [7] ∧ s.outbound.written = s.outbound.read ∧ s.outbound.shutdown = true := by
  have hcomplete := copy_complete (show ({} : FileDescriptor).closed = false from rfl) exchange
    (by simp [exchange, StreamCopy.Steady]) (by decide +kernel) _ List.mem_cons_self
  exact ⟨by decide +kernel, hcomplete.2.2.2, hcomplete.2.1⟩

end BidirectionalStreamCopy

end CourseNet
