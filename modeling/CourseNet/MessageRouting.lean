import CourseNet.ClientRegistry
import CourseNet.SocketThread

/-!
# A MESSAGE and the holder of its id

The thread of the sender takes the packet, looks the target up, sends the SIGNAL and answers, in
steps of its own, and between two of them the others do what they like.  If some client holds the
id at the lookup, the SIGNAL goes to its socket; if nobody does, the sender gets an INVALID reply,
except that the placeholder of a connection without an id passes for a client whose id is 0.
-/

namespace CourseNet

namespace SocketServer

/-- Events that are not steps of the thread of `c`. -/
def ByOthers (c : ℕ) (es : List Event) : Prop := ∀ e ∈ es, ∀ text, e ≠ .act c text

/-- `srcid$content`, with the id of the sender, or 0 if it has none. -/
def forwardPayload (r : Run) (c : ℕ) (content : Bytes) : Bytes :=
  DecimalText.toString ((lastId? c (registrations r.log)).getD 0) ++ 36 :: content

/-- The packet `p` of `c` was taken in `r` and the thread goes on in `r₂`: one SIGNAL for the client
`d`, who has it as one packet, and then a success reply, whatever the others do in between. -/
structure Forwarded (r r₂ : Run) (c : ℕ) (text : ℕ → Bytes) (sock : ℕ) (p : Packet)
    (d targetSock : ℕ) (k : ℤ) (payload : Bytes) : Prop where
  sent : ∃ peer,
    own c (r₂.step (.act c (text 2))).log =
      own c r.log ++ [.extracted c p, .signalled c targetSock peer k payload] ∧
    (∀ td, r₂.server.threads.find? d = some td → td.pc ≠ .finished → peer = some d) ∧
    ∀ es₃, ByOthers c es₃ →
      let r₃ := StepSystem.run Run.step (r₂.step (.act c (text 2))) es₃
      r₃.server.crashed = false →
      own c (r₃.step (.act c (text 3))).log =
        own c r.log ++ [.extracted c p, .signalled c targetSock peer k payload,
          .replied c sock (some c) ⟨PacketType.message, ascii "Message Sending Success"⟩]
  whole : Framing.frames (sendPacket targetSock PacketType.signal payload) =
    ([⟨PacketType.signal, payload⟩], [])

/-- What is asked of the MESSAGE `p` of `c` on `sock`, addressed to `k`, that is taken in `r`,
looked up in `r₁` and dealt with from `r₂` on. -/
structure MessageRouted (r r₁ r₂ : Run) (c : ℕ) (text : ℕ → Bytes) (sock : ℕ) (p : Packet) (k : ℤ)
    (content : Bytes) : Prop where
  distinct : ((registrations r₁.log).map Prod.snd).Nodup
  unique : ∀ {id sock₁ sock₂}, id ≠ 0 → r₁.server.clients.find? sock₁ = some id →
    r₁.server.clients.find? sock₂ = some id → sock₁ = sock₂
  forwarded : ∀ d td, Holds r₁ d k → r₁.server.threads.find? d = some td →
    Forwarded r r₂ c text sock p d td.sock k (forwardPayload r c content)
  refused : (∀ d, ¬Holds r₁ d k) →
    own c (r₂.step (.act c (text 2))).log =
      own c r.log ++ [.extracted c p,
        .replied c sock (some c) ⟨PacketType.invalid, ascii "Target not found"⟩]

/-! ### The others -/

section Steps

variable {r : Run} {c : ℕ} {t u : Thread} {obs : List Obs} {es : List Event}

/-- Nothing happens after a crash. -/
theorem step_of_crashed (h : r.server.crashed = true) (e : Event) : r.step e = r := by
  have hstep := r.stepOf e
  generalize r.step e = r' at hstep
  cases hstep with
  | idle => rfl
  | accept halive | acceptor halive | recv halive | act halive | brokenPipe halive =>
      rw [halive] at h
      cases h

theorem alive_of_run (h : (StepSystem.run Run.step r es).server.crashed = false) :
    r.server.crashed = false := by
  induction es generalizing r with
  | nil => exact h
  | cons e es ih =>
      have hstep := ih h
      by_contra hcrash
      have hcrash := Bool.eq_true_of_not_eq_false hcrash
      rw [step_of_crashed hcrash, hcrash] at hstep
      cases hstep

/-- A new thread is none of the old ones. -/
theorem acceptorStep_thread {s : Server} (howned : Owned s) (ht : s.threads.find? c = some t)
    (created : Bool) : (acceptorStep s created).threads.find? c = some t := by
  unfold acceptorStep
  cases hacc : s.acceptor with
  | registered sock conn =>
      obtain ⟨-, hnone, -⟩ := howned.held (by rw [hacc]; rfl)
      dsimp only
      split
      · refine (SortedMap.find?_assign _ _ _ _).trans ((if_neg ?_).trans ht)
        rintro rfl
        rw [hnone] at ht
        cases ht
      · exact ht
  | _ => exact ht

/-- The others neither move a thread that does not wait nor write into its log. -/
theorem others_step (howned : Owned r.server) (ht : r.server.threads.find? c = some t)
    (hpc : t.pc ≠ .ready) {e : Event} (he : ∀ text, e ≠ .act c text) :
    (r.step e).server.threads.find? c = some t ∧ own c (r.step e).log = own c r.log := by
  have hstep := r.stepOf e
  generalize r.step e = r' at hstep
  cases hstep with
  | idle => exact ⟨ht, rfl⟩
  | accept halive hacceptor hfree => exact ⟨ht, rfl⟩
  | acceptor halive => exact ⟨acceptorStep_thread howned ht _, rfl⟩
  | @recv conn chunk t' halive ht' hwaits =>
      have hne : c ≠ conn := by
        rintro rfl
        obtain rfl := Option.some.inj (ht.symm.trans ht')
        exact hpc hwaits.1
      refine ⟨(SortedMap.find?_assign _ _ _ _).trans ((if_neg hne).trans ht),
        own_append_other (fun o ho => ?_) hne⟩
      rw [List.mem_singleton.mp ho]
      rfl
  | @act conn text t' halive ht' =>
      have hne : c ≠ conn := by
        rintro rfl
        exact he text rfl
      refine ⟨(threads_other _ _ _ hne).trans ht, own_append_other (fun o ho => ?_) hne⟩
      rcases List.mem_append.mp ho with ho | ho
      · exact conn_of_threadStep ho
      · rw [conn_of_changes ho]
        rfl
  | brokenPipe halive ht' hsends => exact ⟨ht, rfl⟩

theorem others_run (howned : Owned r.server) (ht : r.server.threads.find? c = some t)
    (hpc : t.pc ≠ .ready) (hes : ByOthers c es) :
    (StepSystem.run Run.step r es).server.threads.find? c = some t ∧
      own c (StepSystem.run Run.step r es).log = own c r.log := by
  induction es generalizing r with
  | nil => exact ⟨ht, rfl⟩
  | cons e es ih =>
      obtain ⟨ht', hlog⟩ := others_step howned ht hpc (hes e List.mem_cons_self)
      obtain ⟨hthread, hown⟩ :=
        ih (howned.step e) ht' fun e he => hes e (List.mem_cons_of_mem _ he)
      exact ⟨hthread, hown.trans hlog⟩

/-- A thread keeps its socket. -/
theorem sock_step (howned : Owned r.server) (ht : r.server.threads.find? c = some t) (e : Event) :
    ∃ u, (r.step e).server.threads.find? c = some u ∧ u.sock = t.sock := by
  have hstep := r.stepOf e
  generalize r.step e = r' at hstep
  cases hstep with
  | idle => exact ⟨t, ht, rfl⟩
  | accept halive hacceptor hfree => exact ⟨t, ht, rfl⟩
  | acceptor halive => exact ⟨t, acceptorStep_thread howned ht _, rfl⟩
  | @recv conn chunk t' halive ht' hwaits =>
      by_cases hc : c = conn
      · subst hc
        obtain rfl := Option.some.inj (ht.symm.trans ht')
        exact ⟨_, (SortedMap.find?_assign _ _ _ _).trans (if_pos rfl), t.afterRecv_sock chunk⟩
      · exact ⟨t, (SortedMap.find?_assign _ _ _ _).trans ((if_neg hc).trans ht), rfl⟩
  | @act conn text t' halive ht' =>
      by_cases hc : c = conn
      · subst hc
        obtain rfl := Option.some.inj (ht.symm.trans ht')
        rcases threadStep_cases r.server c t text with hsame | ⟨u, hm, -⟩
        · exact ⟨t, by rw [hsame, ht], rfl⟩
        · exact ⟨u, by rw [hm.threads, SortedMap.find?_assign, if_pos rfl], hm.sock_eq⟩
      · exact ⟨t, (threads_other _ _ _ hc).trans ht, rfl⟩
  | brokenPipe halive ht' hsends => exact ⟨t, ht, rfl⟩

theorem sock_run (es : List Event) (howned : Owned r.server)
    (ht : r.server.threads.find? c = some t) :
    ∃ u, (StepSystem.run Run.step r es).server.threads.find? c = some u ∧ u.sock = t.sock := by
  induction es generalizing r t with
  | nil => exact ⟨t, ht, rfl⟩
  | cons e es ih =>
      obtain ⟨u, hu, hsock⟩ := sock_step howned ht e
      obtain ⟨v, hv, hsock'⟩ := ih (howned.step e) hu
      exact ⟨v, hv, hsock'.trans hsock⟩

theorem owned_run (howned : Owned r.server) : Owned (StepSystem.run Run.step r es).server :=
  StepSystem.run_invariant (P := fun r : Run => Owned r.server) (fun _ e h => h.step e) es howned

/-! ### The steps of the handling -/

/-- A step of the thread itself that leaves the shared maps alone. -/
theorem act_eq (ht : r.server.threads.find? c = some t) (halive : r.server.crashed = false)
    {text : Bytes} (hstep : threadStep r.server c t text =
      ({ r.server with threads := r.server.threads.assign c u }, obs)) :
    r.step (.act c text) =
      ⟨{ r.server with threads := r.server.threads.assign c u }, r.log ++ obs⟩ := by
  simp [Run.step, SocketServer.step, ht, halive, hstep]

/-- Such a step, with what the others do after it. -/
theorem turn (text : Bytes) (obs : List Obs) (es : List Event) (howned : Owned r.server)
    (ht : r.server.threads.find? c = some t) (halive : r.server.crashed = false)
    (hstep : threadStep r.server c t text =
      ({ r.server with threads := r.server.threads.assign c u }, obs))
    (hobs : ∀ o ∈ obs, o.conn = c) (hu : u.pc ≠ .ready) (hes : ByOthers c es) :
    (StepSystem.run Run.step r (.act c text :: es)).server.threads.find? c = some u ∧
      own c (StepSystem.run Run.step r (.act c text :: es)).log = own c r.log ++ obs := by
  have hact := act_eq ht halive hstep
  have hthread : (r.step (.act c text)).server.threads.find? c = some u := by
    rw [hact]
    exact (SortedMap.find?_assign _ _ _ _).trans (if_pos rfl)
  obtain ⟨hrun, hlog⟩ := others_run (howned.step _) hthread hu hes
  refine ⟨hrun, hlog.trans ?_⟩
  rw [hact]
  exact own_append_self hobs

/-- The packet is taken; the map tells the sender's id. -/
theorem take_message {s : Server} {regs : List (ℕ × ℤ)} (h : Registered s regs)
    (ht : s.threads.find? c = some t) (hpc : t.pc = .ready) {p : Packet} {rest : Bytes}
    (hsplit : Framing.split? t.recvBuffer = some (p, rest)) (hkind : p.kind = PacketType.message)
    {target content : Bytes} (hmessage : splitMessage p.payload = some (target, content)) {k : ℤ}
    (hstoi : DecimalText.stoi target = .ok k) (text : Bytes) :
    let u : Thread := ⟨t.sock, rest, .locate ((lastId? c regs).getD 0) target k content⟩
    threadStep s c t text = ({ s with threads := s.threads.assign c u }, [.extracted c p]) := by
  have hentry := h.entry ht (by rw [hpc]; exact ⟨nofun, nofun⟩)
  have hindex : index s.clients t.sock = ((lastId? c regs).getD 0, s.clients) := by
    rw [index, hentry]
  have hparse : parseMessage ((lastId? c regs).getD 0) p.payload =
      some (.locate ((lastId? c regs).getD 0) target k content) := by
    rw [parseMessage, hmessage]
    dsimp only
    rw [hstoi]
  rw [threadStep, hpc]
  dsimp only
  rw [hsplit]
  dsimp only
  rw [handle]
  dsimp only
  rw [hindex, hkind, if_neg (by decide), if_neg (by decide), if_neg (by decide), if_neg (by decide),
    if_pos rfl, hparse]

end Steps

/-- A packet arrives whole if its length has 16 bits. -/
theorem sendPacket_whole_iff (sock : ℕ) (p : Packet) :
    Framing.frames (sendPacket sock p.kind p.payload) = ([p], []) ↔ p.payload.length < 2 ^ 16 := by
  have hwire : sendPacket sock p.kind p.payload = Framing.wire [p] := by
    rw [sendPacket, if_neg (Int.natCast_nonneg sock).not_gt, packetBytes_eq, Framing.wire,
      List.flatMap_cons, List.flatMap_nil, List.append_nil]
  rw [hwire, Framing.frames_wire_iff, List.forall_mem_singleton]

section Handling

variable {r r₁ r₂ : Run} {c : ℕ} {t : Thread} {p : Packet} {rest target content : Bytes}
  {srcid k : ℤ} {es es₁ es₂ : List Event}

/-- The reply goes to the thread's own client. -/
theorem reply_spec (howned : Owned r.server) (halive : r.server.crashed = false) {sock : ℕ}
    {q : Packet} (ht : r.server.threads.find? c = some ⟨sock, rest, .reply q⟩) (text : Bytes) :
    own c (r.step (.act c text)).log = own c r.log ++ [.replied c sock (some c) q] := by
  have hdesc : r.server.descriptors.find? sock = some c := howned.thread ht nofun
  rw [act_eq (u := ⟨sock, rest, .ready⟩) ht halive rfl, ← hdesc]
  refine own_append_self fun o ho => ?_
  rw [List.mem_singleton.mp ho]
  rfl

/-- After a lookup that found a socket: the SIGNAL, and then the reply. -/
theorem forward_spec (howned : Owned r.server) (halive : r.server.crashed = false)
    {sock targetSock : ℕ}
    (ht : r.server.threads.find? c = some ⟨sock, rest, .forward targetSock srcid k content⟩)
    (text text' : Bytes) :
    let signal := Obs.signalled c targetSock (r.server.descriptors.find? targetSock) k
      (DecimalText.toString srcid ++ 36 :: content)
    own c (r.step (.act c text)).log = own c r.log ++ [signal] ∧
    ∀ es, ByOthers c es →
      let r' := StepSystem.run Run.step (r.step (.act c text)) es
      r'.server.crashed = false →
      own c (r'.step (.act c text')).log = own c r.log ++
        [signal, .replied c sock (some c)
          ⟨PacketType.message, ascii "Message Sending Success"⟩] := by
  intro signal
  have hturn := fun es => turn text [signal] es howned ht halive
    (u := ⟨sock, rest, .reply ⟨PacketType.message, ascii "Message Sending Success"⟩⟩) rfl
    (fun o ho => by rw [List.mem_singleton.mp ho]; rfl) nofun
  refine ⟨(hturn [] nofun).2, ?_⟩
  intro es hes r' halive'
  obtain ⟨ht', hlog⟩ := hturn es hes
  have howned' : Owned r'.server := owned_run (howned.step _)
  rw [reply_spec howned' halive' ht', show own c r'.log = _ from hlog, List.append_assoc]
  rfl

/-- Where the lookup leaves the thread. -/
theorem lookup_spec (howned : Owned r.server) (h : Registered r.server (registrations r.log))
    (ht : r.server.threads.find? c = some t) (hpc : t.pc = .ready)
    (hsplit : Framing.split? t.recvBuffer = some (p, rest)) (hkind : p.kind = PacketType.message)
    (hmessage : splitMessage p.payload = some (target, content))
    (hstoi : DecimalText.stoi target = .ok k) (hes₁ : ByOthers c es₁) (hes₂ : ByOthers c es₂)
    (text text' : Bytes) (hr₁ : r₁ = StepSystem.run Run.step r (.act c text :: es₁))
    (hr₂ : r₂ = StepSystem.run Run.step r₁ (.act c text' :: es₂))
    (halive : r₂.server.crashed = false) :
    own c r₂.log = own c r.log ++ [.extracted c p] ∧
      (findTarget r₁.server.clients k = none → r₂.server.threads.find? c =
        some ⟨t.sock, rest, .reply ⟨PacketType.invalid, ascii "Target not found"⟩⟩) ∧
      ∀ targetSock, findTarget r₁.server.clients k = some targetSock →
        r₂.server.threads.find? c = some ⟨t.sock, rest,
          .forward targetSock ((lastId? c (registrations r.log)).getD 0) k content⟩ := by
  have halive₁ : r₁.server.crashed = false := alive_of_run (hr₂ ▸ halive)
  have halive₀ : r.server.crashed = false := alive_of_run (hr₁ ▸ halive₁)
  have howned₁ : Owned r₁.server := hr₁ ▸ owned_run howned
  obtain ⟨ht₁, hlog₁⟩ := turn text [.extracted c p] es₁ howned ht halive₀
    (take_message h ht hpc hsplit hkind hmessage hstoi text)
    (fun o ho => by rw [List.mem_singleton.mp ho]; rfl) (by rintro ⟨⟩) hes₁
  rw [← hr₁] at ht₁ hlog₁
  cases hfind : findTarget r₁.server.clients k with
  | none =>
      obtain ⟨ht₂, hlog₂⟩ := turn text' [] es₂ howned₁ ht₁ halive₁
        (u := ⟨t.sock, rest, .reply ⟨PacketType.invalid, ascii "Target not found"⟩⟩)
        (by simp only [threadStep, hfind]) (fun _ ho => absurd ho List.not_mem_nil) (by rintro ⟨⟩)
        hes₂
      rw [← hr₂] at ht₂ hlog₂
      exact ⟨by rw [hlog₂, hlog₁, List.append_nil], fun _ => ht₂, by rintro _ ⟨⟩⟩
  | some targetSock =>
      obtain ⟨ht₂, hlog₂⟩ := turn text' [] es₂ howned₁ ht₁ halive₁
        (u := ⟨t.sock, rest,
          .forward targetSock ((lastId? c (registrations r.log)).getD 0) k content⟩)
        (by simp only [threadStep, hfind]) (fun _ ho => absurd ho List.not_mem_nil) (by rintro ⟨⟩)
        hes₂
      rw [← hr₂] at ht₂ hlog₂
      refine ⟨by rw [hlog₂, hlog₁, List.append_nil], by rintro ⟨⟩, ?_⟩
      rintro _ ⟨⟩
      exact ht₂

end Handling

/-- Distinct sockets have distinct ids, the placeholder apart. -/
theorem sock_eq_of_find? {r : Run} (h : Registered r.server (registrations r.log)) {id : ℤ}
    {sock₁ sock₂ : ℕ} (hne : id ≠ 0) (h₁ : r.server.clients.find? sock₁ = some id)
    (h₂ : r.server.clients.find? sock₂ = some id) : sock₁ = sock₂ := by
  obtain ⟨c, t, ht, rfl, hc⟩ := holds_of_find? h h₁ hne
  obtain ⟨d, u, hu, rfl, hd⟩ := holds_of_find? h h₂ hne
  obtain rfl := Holds.unique h hc hd
  rw [Option.some.inj (ht.symm.trans hu)]

/-- **A MESSAGE goes to the holder of the id.**  In any run, for any MESSAGE that a thread takes and
whose target parses to `k`, with any steps of the others between the steps of the thread, as long as
the process lives: the ids are distinct, the client that holds `k` at the lookup gets one SIGNAL
`srcid$content`, and if there is none the sender gets an INVALID reply; this if and only if it is
not the case that `k` is 0 and some connection has the placeholder, and a SIGNAL for a holder has a
length of 16 bits. -/
theorem message_routed_iff (es es₁ es₂ : List Event) (c : ℕ) (text : ℕ → Bytes) (t : Thread)
    (p : Packet) (rest target content : Bytes) (k : ℤ) :
    let r := StepSystem.run Run.step Run.new es
    let r₁ := StepSystem.run Run.step r (.act c (text 0) :: es₁)
    let r₂ := StepSystem.run Run.step r₁ (.act c (text 1) :: es₂)
    r.server.threads.find? c = some t → t.pc = .ready →
    Framing.split? t.recvBuffer = some (p, rest) → p.kind = PacketType.message →
    splitMessage p.payload = some (target, content) → DecimalText.stoi target = .ok k →
    ByOthers c es₁ → ByOthers c es₂ → r₂.server.crashed = false →
    (MessageRouted r r₁ r₂ c text t.sock p k content ↔
      ¬(k = 0 ∧ ∃ sock, r₁.server.clients.find? sock = some 0) ∧
      ((∃ d, Holds r₁ d k) → (forwardPayload r c content).length < 2 ^ 16)) := by
  intro r r₁ r₂ ht hpc hsplit hkind hmessage hstoi hes₁ hes₂ halive
  have howned : Owned r.server := Owned.run es
  have hreg : Registered r.server (registrations r.log) := Registered.run es
  have howned₁ : Owned r₁.server := owned_run howned
  have howned₂ : Owned r₂.server := owned_run howned₁
  have hreg₁ : Registered r₁.server (registrations r₁.log) := by
    have hrun := Registered.run (es ++ .act c (text 0) :: es₁)
    rwa [StepSystem.run_append] at hrun
  obtain ⟨hlog, hnone, hsome⟩ := lookup_spec howned hreg ht hpc hsplit hkind hmessage hstoi hes₁
    hes₂ (text 0) (text 1) rfl rfl halive
  constructor
  · intro h
    refine ⟨fun hzero => ?_, fun ⟨d, hd⟩ => ?_⟩
    · -- the placeholder is found, so there is a SIGNAL instead of the refusal
      obtain ⟨rfl, hplaceholder⟩ := hzero
      have hnobody : ∀ d, ¬Holds r₁ d 0 := fun d hd => lt_irrefl _ (Holds.pos hreg₁ hd)
      cases hfind : findTarget r₁.server.clients 0 with
      | none => exact ((findTarget_eq_none_iff hreg₁).mp hfind).2 ⟨rfl, hplaceholder⟩
      | some targetSock =>
          have hsignal :=
            (forward_spec howned₂ halive (hsome _ hfind) (text 2) (text 3)).1
          rw [hlog, h.refused hnobody, List.append_assoc] at hsignal
          nomatch List.append_cancel_left hsignal
    · obtain ⟨td, htd, -⟩ := hd.1
      exact (sendPacket_whole_iff td.sock ⟨PacketType.signal, _⟩).mp
        (h.forwarded d td hd htd).whole
  · rintro ⟨hzero, hlength⟩
    refine ⟨hreg₁.distinct, sock_eq_of_find? hreg₁, fun d td hd htd => ?_, fun hnobody => ?_⟩
    · have hfind := findTarget_of_holds hreg₁ hd htd
      obtain ⟨hsignal, hreply⟩ := forward_spec howned₂ halive (hsome _ hfind) (text 2) (text 3)
      refine ⟨⟨r₂.server.descriptors.find? td.sock, ?_, fun u hu hfinished => ?_, ?_⟩, ?_⟩
      · rw [hsignal, hlog, List.append_assoc]
        rfl
      · obtain ⟨v, hv, hsock⟩ := sock_run (.act c (text 1) :: es₂) howned₁ htd
        obtain rfl := Option.some.inj (hu.symm.trans hv)
        rw [← hsock]
        exact howned₂.thread hu hfinished
      · intro es₃ hes₃ r₃ halive₃
        rw [hreply es₃ hes₃ halive₃, hlog, List.append_assoc]
        rfl
      · exact (sendPacket_whole_iff td.sock ⟨PacketType.signal, _⟩).mpr (hlength ⟨d, hd⟩)
    · have hfind := (findTarget_eq_none_iff hreg₁).mpr ⟨hnobody, hzero⟩
      rw [reply_spec howned₂ halive (hnone hfind), hlog, List.append_assoc]
      rfl

/-- Two clients connect on the descriptors 4 and 5, the first has sent `2$hi`, and a third one is
accepted while its thread is at work. -/
theorem message_routed_two :
    let r := StepSystem.run Run.step Run.new
      [.accept 4, .acceptor true, .acceptor true, .accept 5, .acceptor true, .acceptor true,
        .recv 0 [1, 0, 0], .act 0 [], .act 0 [], .recv 1 [1, 0, 0], .act 1 [], .act 1 [],
        .recv 0 [6, 0, 4, 50, 36, 104, 105]]
    let r₁ := StepSystem.run Run.step r [.act 0 [], .accept 6]
    let r₂ := StepSystem.run Run.step r₁ [.act 0 [], .acceptor true]
    Holds r₁ 1 2 ∧
      MessageRouted r r₁ r₂ 0 (fun _ => []) 4 ⟨6, [50, 36, 104, 105]⟩ 2 [104, 105] := by
  intro r r₁ r₂
  refine ⟨⟨⟨⟨5, [], .ready⟩, by decide +kernel, nofun, nofun⟩, by decide +kernel⟩, ?_⟩
  refine (message_routed_iff _ [.accept 6] [.acceptor true] 0 (fun _ => [])
    ⟨4, [6, 0, 4, 50, 36, 104, 105], .ready⟩ ⟨6, [50, 36, 104, 105]⟩ [] [50] [104, 105] 2
    (by decide +kernel) rfl (by decide +kernel) rfl (by decide +kernel) (by decide +kernel) ?_ ?_
    (by decide +kernel)).mpr ⟨fun h => absurd h.1 (by decide), fun _ => by decide +kernel⟩
  · intro e he text
    rw [List.mem_singleton.mp he]
    nofun
  · intro e he text
    rw [List.mem_singleton.mp he]
    nofun

/-- A connection that never sent a CONNECT sends `0$hi`: it gets the SIGNAL itself, and a success
reply, although nobody holds the id 0. -/
theorem message_reaches_placeholder :
    let r := StepSystem.run Run.step Run.new
      [.accept 4, .acceptor true, .acceptor true, .recv 0 [6, 0, 4, 48, 36, 104, 105]]
    let r₁ := StepSystem.run Run.step r [.act 0 []]
    let r₂ := StepSystem.run Run.step r₁ [.act 0 []]
    own 0 (r₂.step (.act 0 [])).log = own 0 r.log ++
        [.extracted 0 ⟨6, [48, 36, 104, 105]⟩, .signalled 0 4 (some 0) 0 [48, 36, 104, 105]] ∧
      (∀ d, ¬Holds r₁ d 0) ∧
      ¬MessageRouted r r₁ r₂ 0 (fun _ => []) 4 ⟨6, [48, 36, 104, 105]⟩ 0 [104, 105] := by
  intro r r₁ r₂
  have hsignal : own 0 (r₂.step (.act 0 [])).log = own 0 r.log ++
      [.extracted 0 ⟨6, [48, 36, 104, 105]⟩, .signalled 0 4 (some 0) 0 [48, 36, 104, 105]] := by
    decide +kernel
  have hnobody : ∀ d, ¬Holds r₁ d 0 := by
    intro d hd
    have hnil : registrations r₁.log = [] := by decide +kernel
    have hlast := hd.2
    rw [hnil] at hlast
    cases hlast
  refine ⟨hsignal, hnobody, fun h => ?_⟩
  have hrefused := h.refused hnobody
  rw [hsignal] at hrefused
  nomatch List.append_cancel_left hrefused

end SocketServer

end CourseNet
