import CourseNet.SocketFraming

/-!
# Which client inputs the server survives

A MESSAGE whose target is no decimal integer should be answered with INVALID.  The server leaves the
test to `std::stoi`, which nothing catches and which reads a number in front of other characters:
a target it rejects terminates the process, and one it reads in part is forwarded.  A reply to a
client that has closed its end terminates it too.  Without these three (`Tame`) the server survives
every stream: the ledger of a thread shows one INVALID reply for every ill-formed MESSAGE, and every
complete packet is processed.
-/

namespace CourseNet

namespace SocketServer

/-! ### The ledger of a thread -/

/-- One more observation: a packet or a `recv` opens an account, everything else is booked on the
last one. -/
def note : List (Option Packet × List Obs) → Obs → List (Option Packet × List Obs)
  | g, .received _ _ => (none, []) :: g
  | g, .extracted _ p => (some p, []) :: g
  | (q, os) :: g, o => (q, os ++ [o]) :: g
  | [], _ => []

/-- What the thread did about each packet, the last one first. -/
def ledger (l : List Obs) : List (Option Packet × List Obs) := l.foldl note []

theorem note_effect {o : Obs} (h : o.isEffect = true) (q : Option Packet) (os : List Obs)
    (g : List (Option Packet × List Obs)) : note ((q, os) :: g) o = (q, os ++ [o]) :: g := by
  cases o with
  | received conn chunk => cases h
  | extracted conn p => cases h
  | assigned conn id => rfl
  | replied conn sock peer p => rfl
  | signalled conn sock peer targetId payload => rfl
  | changed conn => rfl

theorem foldl_note_effects {obs : List Obs} (h : ∀ o ∈ obs, o.isEffect = true)
    (q : Option Packet) (os : List Obs) (g : List (Option Packet × List Obs)) :
    obs.foldl note ((q, os) :: g) = (q, os ++ obs) :: g := by
  induction obs generalizing os with
  | nil => rw [List.foldl_nil, List.append_nil]
  | cons o obs ih =>
      rw [List.foldl_cons, note_effect (h o List.mem_cons_self),
        ih fun o' ho' => h o' (List.mem_cons_of_mem _ ho'), List.append_assoc,
        List.singleton_append]

theorem ledger_append_effects {l obs : List Obs} (h : ∀ o ∈ obs, o.isEffect = true)
    {q : Option Packet} {os : List Obs} {g : List (Option Packet × List Obs)}
    (hl : ledger l = (q, os) :: g) : ledger (l ++ obs) = (q, os ++ obs) :: g := by
  rw [ledger, List.foldl_append, ← ledger, hl, foldl_note_effects h]

theorem ledger_take {l obs : List Obs} (h : ∀ o ∈ obs, o.isEffect = true) (c : ℕ) (p : Packet) :
    ledger (l ++ .extracted c p :: obs) = (some p, obs) :: ledger l := by
  rw [ledger, List.foldl_append, List.foldl_cons, note, foldl_note_effects h, List.nil_append]
  rfl

theorem ledger_recv (l : List Obs) (c : ℕ) (chunk : Bytes) :
    ledger (l ++ [.received c chunk]) = (none, []) :: ledger l := by
  rw [ledger, List.foldl_append]
  rfl

/-- If the account is that of an ill-formed MESSAGE then all that was done about it is one INVALID
reply, on the socket of its sender. -/
def Answered (c sock : ℕ) (g : Option Packet × List Obs) : Prop :=
  ∀ p, g.1 = some p → IllFormed p →
    ∃ text, g.2 = [.replied c sock (some c) ⟨PacketType.invalid, text⟩]

/-- The accounts on which the thread has nothing more to do. -/
def settled (t : Thread) (l : List Obs) : List (Option Packet × List Obs) :=
  if t.pc = .ready then ledger l else (ledger l).tail

/-! ### Tame schedules -/

/-- The thread is not about to extract a packet on which `std::stoi` throws, nor about to find a
client for a target that is no decimal integer. -/
def Thread.tame (clients : SortedMap ℕ ℤ) (t : Thread) : Bool :=
  match t.pc with
  | .ready => (Framing.split? t.recvBuffer).all fun r => !throws r.1
  | .locate _ target targetId _ =>
      (DecimalText.decimal? target).isSome || (findTarget clients targetId).isNone
  | _ => true

/-- Every step of a client thread is tame, and no thread sends to a client that has closed its
end. -/
def Tame (r : Run) : Event → Prop
  | .act conn _ => (r.server.threads.find? conn).all (Thread.tame r.server.clients) = true
  | .brokenPipe conn => ∀ t ∈ r.server.threads.find? conn, ¬r.server.Sends t
  | _ => True

instance (r : Run) : DecidablePred (Tame r)
  | .act _ _ => inferInstanceAs (Decidable (_ = true))
  | .brokenPipe _ => inferInstanceAs (Decidable (∀ t ∈ _, _))
  | .accept _ => isTrue trivial
  | .acceptor _ => isTrue trivial
  | .recv _ _ => isTrue trivial

theorem tame_of_ok {r : Run} {c : ℕ} {t : Thread} {text : Bytes} (h : Tame r (.act c text))
    (ht : r.server.threads.find? c = some t) : t.tame r.server.clients = true := by
  have h : (r.server.threads.find? c).all (Thread.tame r.server.clients) = true := h
  rw [ht] at h
  exact h

theorem throws_of_tame {clients : SortedMap ℕ ℤ} {t : Thread} (h : t.tame clients = true)
    (hpc : t.pc = .ready) {p : Packet} {rest : Bytes}
    (hsplit : Framing.split? t.recvBuffer = some (p, rest)) : throws p = false := by
  rw [Thread.tame, hpc] at h
  dsimp only at h
  rw [hsplit] at h
  simpa using h

/-- Only a packet on which `std::stoi` throws terminates the server. -/
theorem crashed_of_threadStep {s : Server} {c : ℕ} {t : Thread} {text : Bytes}
    (hs : s.crashed = false) (h : t.tame s.clients = true) :
    (threadStep s c t text).1.crashed = false := by
  unfold threadStep
  cases hpc : t.pc with
  | ready =>
      dsimp only
      split
      · exact hs
      · rename_i p rest hsplit
        obtain ⟨-, -, -, hcrash, -⟩ := handle_flow s c { t with recvBuffer := rest } p text
        have hthrow := throws_of_tame h hpc hsplit
        rw [hpc] at hcrash
        rw [hcrash, hs, hthrow]
        rfl
  | locate srcid target targetId content =>
      dsimp only
      split <;> exact hs
  | reply q => exact hs
  | forward sock srcid targetId content => exact hs
  | remove => exact hs
  | closing => exact hs
  | finished => exact hs
  | thrown => exact hs

theorem crashed_of_step {r : Run} {e : Event} (hr : r.server.crashed = false) (h : Tame r e) :
    (r.step e).server.crashed = false := by
  have hstep := r.stepOf e
  generalize r.step e = r' at hstep
  cases hstep with
  | idle => exact hr
  | accept halive hacceptor hfree => exact hr
  | @acceptor created halive =>
      show (acceptorStep r.server created).crashed = false
      unfold acceptorStep
      cases r.server.acceptor with
      | registered sock conn =>
          dsimp only
          split <;> exact hr
      | accepting => exact hr
      | accepted sock conn => exact hr
      | removing sock conn => exact hr
      | closing sock conn => exact hr
  | recv halive ht hwaits => exact hr
  | act halive ht => exact crashed_of_threadStep hr (tame_of_ok h ht)
  | brokenPipe halive ht hsends => exact absurd hsends (h _ ht)

/-! ### One INVALID reply for every ill-formed MESSAGE -/

/-- The accounts of a thread are settled, but for the one it is working on: if that is an ill-formed
MESSAGE, nothing was done about it yet and the thread is about to refuse it. -/
def Kept (c : ℕ) (t : Thread) (l : List Obs) : Prop :=
  (∀ p ∈ processed l, throws p = false) ∧
    if t.pc = .ready then ∀ g ∈ ledger l, Answered c t.sock g
    else ∃ q os gs, ledger l = (q, os) :: gs ∧
      (∀ p, q = some p → IllFormed p → os = [] ∧ t.pc.Refuses) ∧ ∀ g ∈ gs, Answered c t.sock g

namespace Kept

variable {s : Server} {c : ℕ} {t t' : Thread} {l obs : List Obs}

theorem new (c sock : ℕ) : Kept c ⟨sock, [], .ready⟩ [] :=
  ⟨nofun, by rw [if_pos rfl]; exact nofun⟩

/-- The account a busy thread is working on. -/
theorem busy (h : Kept c t l) (hpc : t.pc ≠ .ready) :
    ∃ q os gs, ledger l = (q, os) :: gs ∧
      (∀ p, q = some p → IllFormed p → os = [] ∧ t.pc.Refuses) ∧
      ∀ g ∈ gs, Answered c t.sock g := by
  have := h.2
  rwa [if_neg hpc] at this

theorem processed_effects (h : Kept c t l) (hobs : ∀ o ∈ obs, o.isEffect = true) :
    ∀ p ∈ processed (l ++ obs), throws p = false := by
  rw [processed_append, processed_of_effects hobs, List.append_nil]
  exact h.1

/-- A busy thread stays busy with the same account; what becomes of an ill-formed one is left to
show. -/
theorem stays_busy (h : Kept c t l) (hpc : t.pc ≠ .ready) (hsock : t'.sock = t.sock)
    (hpc' : t'.pc ≠ .ready) (hobs : ∀ o ∈ obs, o.isEffect = true)
    (hrefuses : t.pc.Refuses → obs = [] ∧ t'.pc.Refuses) : Kept c t' (l ++ obs) := by
  obtain ⟨q, os, gs, hledger, hopen, hgs⟩ := h.busy hpc
  refine ⟨h.processed_effects hobs, ?_⟩
  rw [if_neg hpc', hsock]
  refine ⟨q, os ++ obs, gs, ledger_append_effects hobs hledger, fun p hq hill => ?_, hgs⟩
  obtain ⟨hos, href⟩ := hopen p hq hill
  obtain ⟨hnone, href'⟩ := hrefuses href
  exact ⟨by rw [hos, hnone]; rfl, href'⟩

theorem recv (h : Kept c t l) (hwaits : t.Waits) (chunk : Bytes) :
    Kept c (t.afterRecv chunk) (l ++ [.received c chunk]) := by
  obtain ⟨hcalm, hall⟩ := h
  rw [if_pos hwaits.1] at hall
  refine ⟨by rw [processed_append]; simpa [processed] using hcalm, ?_⟩
  rw [ledger_recv]
  unfold Thread.afterRecv
  split
  · rw [if_neg (by nofun)]
    exact ⟨none, [], ledger l, rfl, nofun, hall⟩
  · rw [if_pos hwaits.1]
    intro g hg
    rcases List.mem_cons.mp hg with rfl | hg
    exacts [nofun, hall g hg]

/-- A thread takes a packet: an account is opened, and closed at once if nothing is to be done. -/
theorem takes (h : Kept c t l) (hpc : t.pc = .ready) {p : Packet} {rest : Bytes} {pc : Pc}
    (hobs : ∀ o ∈ obs, o.isEffect = true) (hthrow : throws p = false)
    (hrefuse : IllFormed p → obs = [] ∧ pc.Refuses) :
    Kept c ⟨t.sock, rest, pc⟩ (l ++ .extracted c p :: obs) := by
  obtain ⟨hcalm, hall⟩ := h
  rw [if_pos hpc] at hall
  have hprocessed : processed (l ++ Obs.extracted c p :: obs) = processed l ++ [p] := by
    rw [processed_append]
    exact congrArg (processed l ++ p :: ·) (processed_of_effects hobs)
  refine ⟨?_, ?_⟩
  · rw [hprocessed]
    intro p' hp'
    rcases List.mem_append.mp hp' with hp' | hp'
    exacts [hcalm p' hp', List.mem_singleton.mp hp' ▸ hthrow]
  · rw [ledger_take hobs]
    split
    · rename_i hready
      intro g hg
      rcases List.mem_cons.mp hg with rfl | hg
      · rintro _ ⟨⟩ hill
        obtain ⟨-, href⟩ := hrefuse hill
        rw [show pc = .ready from hready] at href
        exact href.elim
      · exact hall g hg
    · refine ⟨some p, obs, ledger l, rfl, ?_, hall⟩
      rintro _ ⟨⟩ hill
      exact hrefuse hill

/-- A reply on the thread's own connection closes the account. -/
theorem reply (h : Kept c t l) {q : Packet} (hpc : t.pc = .reply q) :
    Kept c { t with pc := .ready } (l ++ [.replied c t.sock (some c) q]) := by
  obtain ⟨q', os, gs, hledger, hopen, hgs⟩ := h.busy (by rw [hpc]; nofun)
  have heffect : ∀ o ∈ [Obs.replied c t.sock (some c) q], o.isEffect = true := fun o ho => by
    rw [List.mem_singleton.mp ho]
    rfl
  refine ⟨h.processed_effects heffect, ?_⟩
  rw [if_pos rfl, ledger_append_effects heffect hledger]
  intro g hg
  rcases List.mem_cons.mp hg with rfl | hg
  · intro p hp hill
    obtain ⟨hos, href⟩ := hopen p hp hill
    rw [hpc] at href
    refine ⟨q.payload, ?_⟩
    rw [hos, List.nil_append, ← show q.kind = PacketType.invalid from href]
  · exact hgs g hg

theorem move (h : Kept c t l) (howned : Owned s) (ht : s.threads.find? c = some t)
    (htame : t.tame s.clients = true) (hm : ThreadMove s c t t' obs) : Kept c t' (l ++ obs) := by
  cases hm with
  | rests => simpa using h
  | takes hpc hsplit hobs hflow hrefuse =>
      have hthrow := throws_of_tame htame hpc hsplit
      have hlisted := howned.listed ht (by rw [hpc]; exact ⟨nofun, nofun⟩)
      exact h.takes hpc hobs hthrow fun hill => hrefuse hill hthrow hlisted
  | replies hpc =>
      rw [howned.thread ht (by rw [hpc]; nofun)]
      exact h.reply hpc
  | misses hpc =>
      exact h.stays_busy (by rw [hpc]; nofun) rfl nofun nofun fun _ => ⟨rfl, rfl⟩
  | @finds srcid targetId target content sock hpc hfind =>
      refine h.stays_busy (by rw [hpc]; nofun) rfl nofun nofun fun href => ?_
      -- a target that is no decimal integer is not found in a tame step
      rw [hpc] at href
      have href : DecimalText.decimal? target = none := href
      rw [Thread.tame, hpc] at htame
      dsimp only at htame
      rw [hfind, href] at htame
      cases htame
  | forwards hpc =>
      refine h.stays_busy (by rw [hpc]; nofun) rfl nofun
        (fun o ho => by rw [List.mem_singleton.mp ho]; rfl) fun href => ?_
      rw [hpc] at href
      exact href.elim
  | removes hpc hobs =>
      refine h.stays_busy (by rw [hpc]; nofun) rfl nofun hobs fun href => ?_
      rw [hpc] at href
      exact href.elim
  | closes hpc =>
      refine h.stays_busy (by rw [hpc]; nofun) rfl nofun nofun fun href => ?_
      rw [hpc] at href
      exact href.elim

theorem settled (h : Kept c t l) : ∀ g ∈ settled t l, Answered c t.sock g := by
  unfold SocketServer.settled
  split
  · rename_i hpc
    have := h.2
    rwa [if_pos hpc] at this
  · rename_i hpc
    obtain ⟨q, os, gs, hledger, -, hgs⟩ := h.busy hpc
    rw [hledger]
    exact hgs

end Kept

/-! ### Every packet is processed -/

/-- The thread waits in `recv` or has ended. -/
def Thread.Rests (t : Thread) : Prop := t.Waits ∨ t.pc = .finished ∨ t.pc = .thrown

/-- The steps from here to the next test of the inner loop, or to the end. -/
def Pc.rank : Pc → ℕ
  | .locate _ _ _ _ => 3
  | .forward _ _ _ _ => 2
  | .reply _ => 1
  | .remove => 2
  | .closing => 1
  | _ => 0

/-- A bound on the steps the thread can make before it rests. -/
def Thread.work (t : Thread) : ℕ := 4 * t.recvBuffer.length + t.pc.rank

theorem rests_of_work {t : Thread} (h : t.work = 0) : t.Rests := by
  have hbuffer : t.recvBuffer = [] := List.length_eq_zero_iff.mp (by unfold Thread.work at h; omega)
  have hrank : t.pc.rank = 0 := by unfold Thread.work at h; omega
  have hsplit : Framing.split? t.recvBuffer = none := by rw [hbuffer]; rfl
  cases hpc : t.pc with
  | ready => exact Or.inl ⟨hpc, hsplit⟩
  | finished => exact Or.inr (Or.inl hpc)
  | thrown => exact Or.inr (Or.inr hpc)
  | reply q => rw [hpc] at hrank; cases hrank
  | locate srcid target targetId content => rw [hpc] at hrank; cases hrank
  | forward sock srcid targetId content => rw [hpc] at hrank; cases hrank
  | remove => rw [hpc] at hrank; cases hrank
  | closing => rw [hpc] at hrank; cases hrank

theorem rank_le (pc : Pc) : pc.rank ≤ 3 := by
  cases pc <;> simp [Pc.rank]

/-- A thread at rest does not move. -/
theorem ThreadMove.eq_of_rests {s : Server} {c : ℕ} {t t' : Thread} {obs : List Obs}
    (h : ThreadMove s c t t' obs) (hrests : t.Rests) : t' = t := by
  have hno : ∀ {pc : Pc}, t.pc = pc → pc ≠ .ready → pc ≠ .finished → pc ≠ .thrown → t' = t := by
    rintro _ rfl hready hfinished hthrown
    rcases hrests with hwaits | hpc | hpc
    exacts [absurd hwaits.1 hready, absurd hpc hfinished, absurd hpc hthrown]
  cases h with
  | rests => rfl
  | takes hpc hsplit =>
      rcases hrests with hwaits | hpc' | hpc'
      · rw [hwaits.2] at hsplit
        cases hsplit
      · rw [hpc] at hpc'
        cases hpc'
      · rw [hpc] at hpc'
        cases hpc'
  | replies hpc => exact hno hpc nofun nofun nofun
  | misses hpc => exact hno hpc nofun nofun nofun
  | finds hpc => exact hno hpc nofun nofun nofun
  | forwards hpc => exact hno hpc nofun nofun nofun
  | removes hpc => exact hno hpc nofun nofun nofun
  | closes hpc => exact hno hpc nofun nofun nofun

/-- A thread that does not rest gets on. -/
theorem ThreadMove.progress {s : Server} {c : ℕ} {t t' : Thread} {obs : List Obs}
    (h : ThreadMove s c t t' obs) (hbusy : ¬t.Rests) : t'.work < t.work := by
  cases h with
  | rests hrests => exact absurd hrests hbusy
  | @takes p rest pc obs hpc hsplit =>
      have hlen := Framing.split?_length hsplit
      have hrank := rank_le pc
      simp only [Thread.work]
      omega
  | replies hpc => simp [Thread.work, hpc, Pc.rank]
  | misses hpc => simp [Thread.work, hpc, Pc.rank]
  | finds hpc => simp [Thread.work, hpc, Pc.rank]
  | forwards hpc => simp [Thread.work, hpc, Pc.rank]
  | removes hpc => simp [Thread.work, hpc, Pc.rank]
  | closes hpc => simp [Thread.work, hpc, Pc.rank]

/-- A thread that is scheduled often enough comes to rest. -/
theorem rests_of_acts (c : ℕ) (texts : List Bytes) {r : Run} {t : Thread}
    (ht : r.server.threads.find? c = some t) (hcrash : r.server.crashed = false)
    (hok : StepSystem.Guarded Run.step Tame r (texts.map (Event.act c)))
    (hwork : t.Rests ∨ t.work ≤ texts.length) :
    ∃ t', (StepSystem.run Run.step r (texts.map (Event.act c))).server.threads.find? c = some t' ∧
      t'.Rests := by
  induction texts generalizing r t with
  | nil => exact ⟨t, ht, hwork.elim id fun h => rests_of_work (Nat.le_zero.mp h)⟩
  | cons text texts ih =>
      obtain ⟨htame, hrest⟩ := hok
      have hserver : (r.step (.act c text)).server = (threadStep r.server c t text).1 := by
        simp [Run.step, step, ht, hcrash]
      obtain ⟨t', ht'⟩ := Option.isSome_iff_exists.mp (threads_self ht text)
      have hmove := threadMove ht ht'
      refine ih (hserver ▸ ht') (crashed_of_step hcrash htame) hrest ?_
      by_cases hrests : t.Rests
      · exact Or.inl (hmove.eq_of_rests hrests ▸ hrests)
      · have hless := hmove.progress hrests
        have hwork := hwork.resolve_left hrests
        rw [List.length_cons] at hwork
        exact Or.inr (by omega)

/-- **The server survives tame schedules.**  In every interleaving in which no thread extracts a
MESSAGE on whose target `std::stoi` throws, finds a client for a target that is no decimal integer, or
sends to a client that has closed its end: nothing terminates the server; every ill-formed MESSAGE
gets exactly one INVALID reply on the socket of its sender, without a change to the map of clients;
and a thread that goes on for as long as its buffer requires has processed every complete packet of
its stream, up to a DISCONNECT. -/
theorem server_survives (es : List Event)
    (hes : StepSystem.Guarded Run.step Tame Run.new es) :
    let r := StepSystem.run Run.step Run.new es
    r.server.crashed = false ∧
    ∀ c t, r.server.threads.find? c = some t →
      (∀ g ∈ settled t (own c r.log), Answered c t.sock g) ∧
      ∀ texts : List Bytes, 4 * t.recvBuffer.length + 3 ≤ texts.length →
        StepSystem.Guarded Run.step Tame r (texts.map (Event.act c)) →
        let l := own c (StepSystem.run Run.step r (texts.map (Event.act c))).log
        processed l = Framing.cut (fun p => p.kind != PacketType.disconnect)
          (Framing.frames (chunks l).flatten).1 := by
  have hkept : ∀ {es' : List Event}, StepSystem.Guarded Run.step Tame Run.new es' →
      Keeps Kept (StepSystem.run Run.step Run.new es') := fun hes' =>
    thread_run (fun c sock => Kept.new c sock) (fun _ _ hwaits h => h.recv hwaits _)
      (fun howned ht hok _ h ht' => h.move howned ht (tame_of_ok hok ht) (threadMove ht ht')) hes'
  intro r
  have hcrash : r.server.crashed = false :=
    hes.invariant (P := fun r : Run => r.server.crashed = false)
      (fun _ _ hok h => crashed_of_step h hok) rfl
  refine ⟨hcrash, fun c t ht => ⟨((hkept hes).thread ht).settled, fun texts hlen hok => ?_⟩⟩
  obtain ⟨t', ht', hrests⟩ := rests_of_acts c texts ht hcrash hok (Or.inr (by
    have := rank_le t.pc
    unfold Thread.work
    omega))
  have hall := StepSystem.Guarded.append hes hok
  rw [← StepSystem.run_append] at ht' ⊢
  obtain ⟨htaken, -⟩ := thread_follows_recieve (es ++ texts.map (Event.act c)) ht'
    (hrests.imp_right fun h => by rcases h with h | h <;> rw [h] <;> rfl)
  intro l
  have hcalm := ((hkept hall).thread ht').1
  have hcut := (Framing.run_feed goesOn (chunks l)).1
  rw [← htaken]
  refine hcut.trans (Framing.cut_congr fun p hp => ?_)
  have hthrow : throws p = false := hcalm p (htaken ▸ hcut ▸ hp)
  rw [goesOn, hthrow, Bool.not_false, Bool.and_true]

/-- A MESSAGE without a target and one for an unknown client, both answered. -/
theorem server_survives_refusals :
    let es := [.accept 4, .acceptor true, .acceptor true, .recv 0 [6, 0, 1, 120, 6, 0, 2, 57, 36],
      .act 0 [], .act 0 [], .act 0 [], .act 0 [], .act 0 []]
    let r := StepSystem.run Run.step Run.new es
    r.server.crashed = false ∧ processed (own 0 r.log) = [⟨6, [120]⟩, ⟨6, [57, 36]⟩] := by
  have hes : StepSystem.Guarded Run.step Tame Run.new
      [.accept 4, .acceptor true, .acceptor true, .recv 0 [6, 0, 1, 120, 6, 0, 2, 57, 36],
        .act 0 [], .act 0 [], .act 0 [], .act 0 [], .act 0 []] := by decide +kernel
  exact ⟨(server_survives _ hes).1, by decide +kernel⟩

/-- The packet `x$` of one client terminates the server for all; and so do three MESSAGEs without a
target, if the client closes before the second is answered. -/
theorem server_dies :
    let es := [.accept 4, .acceptor true, .acceptor true, .recv 0 [6, 0, 2, 120, 36], .act 0 []]
    let closes := [.accept 4, .acceptor true, .acceptor true,
      .recv 0 [6, 0, 0, 6, 0, 0, 6, 0, 0], .act 0 [], .act 0 [], .act 0 [], .brokenPipe 0]
    (StepSystem.run Run.step Run.new es).server.crashed = true ∧
      (StepSystem.run Run.step Run.new closes).server.crashed = true ∧
      processed (own 0 (StepSystem.run Run.step Run.new closes).log) = [⟨6, []⟩, ⟨6, []⟩] := by
  decide +kernel

end SocketServer

end CourseNet
