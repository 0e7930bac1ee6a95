import CourseNet.SocketThread

/-!
# Framing between the client and the server

Both receive loops cut a byte stream into packets the same way.  The client's goes on until the
connection ends; the server's returns at a DISCONNECT and dies of the exception of `std::stoi`.  The
loop of the server is `recieve`, and every thread of every run extracts what `recieve` does
(`thread_follows_recieve`).
-/

namespace CourseNet

/-! ### The client -/

namespace SocketClient

/-- What the receive thread of the client works with; `printed` are the packets its switch got. -/
structure Client where
  connected : Bool
  baseSock : ℤ
  recvBuffer : Bytes
  printed : List Packet

/-- One `recv` of `Recieve`, and the packets that are complete then. -/
def recieve (c : Client) (chunk : Bytes) : Client :=
  if c.connected = false then c
  else if chunk = [] then { c with connected := false, baseSock := -1 }
  else
    let r := Framing.frames (c.recvBuffer ++ chunk)
    { c with recvBuffer := r.2, printed := c.printed ++ r.1 }

/-- A client that just connected. -/
def Client.new (baseSock : ℤ) : Client := ⟨true, baseSock, [], []⟩

theorem run_recieve (baseSock : ℤ) (chunks : List Bytes) (hchunks : ∀ chunk ∈ chunks, chunk ≠ []) :
    StepSystem.run recieve (Client.new baseSock) chunks =
      ⟨true, baseSock, (Framing.frames chunks.flatten).2, (Framing.frames chunks.flatten).1⟩ := by
  induction chunks using List.reverseRecOn with
  | nil =>
      rw [List.flatten_nil, Framing.frames_of_none (show Framing.split? [] = none from rfl)]
      rfl
  | append_singleton chunks chunk ih =>
      have hopen : ¬true = false := by decide
      have hdata : chunk ≠ [] := hchunks chunk (List.mem_append_right _ List.mem_cons_self)
      rw [StepSystem.run_snoc, ih fun d hd => hchunks d (List.mem_append_left _ hd),
        List.flatten_append, List.flatten_singleton, Framing.frames_append, recieve, if_neg hopen,
        if_neg hdata]

end SocketClient

/-! ### The server -/

namespace SocketServer

/-- `Recieve` of the server, seen from the byte stream alone: one `recv` and the packets that are
complete then, up to one on which the loop ends. -/
def recieve : Framing.Receiver → Bytes → Framing.Receiver := Framing.feed goesOn

/-- What a thread received. -/
def chunks (l : List Obs) : List Bytes :=
  l.filterMap fun
    | .received _ chunk => some chunk
    | _ => none

/-- The packets a thread extracted. -/
def processed (l : List Obs) : List Packet :=
  l.filterMap fun
    | .extracted _ p => some p
    | _ => none

theorem chunks_of_effects {obs : List Obs} (h : ∀ o ∈ obs, o.isEffect = true) :
    chunks obs = [] := by
  refine List.filterMap_eq_nil_iff.mpr fun o ho => ?_
  cases o with
  | received conn chunk => cases h _ ho
  | extracted conn p => rfl
  | assigned conn id => rfl
  | replied conn sock peer p => rfl
  | signalled conn sock peer targetId payload => rfl
  | changed conn => rfl

theorem processed_of_effects {obs : List Obs} (h : ∀ o ∈ obs, o.isEffect = true) :
    processed obs = [] := by
  refine List.filterMap_eq_nil_iff.mpr fun o ho => ?_
  cases o with
  | received conn chunk => rfl
  | extracted conn p => cases h _ ho
  | assigned conn id => rfl
  | replied conn sock peer p => rfl
  | signalled conn sock peer targetId payload => rfl
  | changed conn => rfl

theorem chunks_append (l l' : List Obs) : chunks (l ++ l') = chunks l ++ chunks l' :=
  List.filterMap_append

theorem processed_append (l l' : List Obs) : processed (l ++ l') = processed l ++ processed l' :=
  List.filterMap_append

/-- A thread that drains its buffer from here on ends where the loop does. -/
def Follows (_ : ℕ) (t : Thread) (l : List Obs) : Prop :=
  ∃ live, Framing.drain goesOn ⟨t.recvBuffer, processed l, live⟩ =
      StepSystem.run recieve Framing.Receiver.new (chunks l) ∧
    (t.pc.runs = true → live = true) ∧
    (t.pc.runs = false → live = false ∨ Framing.split? t.recvBuffer = none)

/-- A move that takes no packet. -/
theorem Follows.of_effects {c : ℕ} {t t' : Thread} {l obs : List Obs} (h : Follows c t l)
    (hbuffer : t'.recvBuffer = t.recvBuffer) (hruns : t'.pc.runs = t.pc.runs)
    (hobs : ∀ o ∈ obs, o.isEffect = true) : Follows c t' (l ++ obs) := by
  unfold Follows
  rw [processed_append, chunks_append, processed_of_effects hobs, chunks_of_effects hobs,
    List.append_nil, List.append_nil, hbuffer, hruns]
  exact h

theorem Follows.move {s : Server} {c : ℕ} {t t' : Thread} {l obs : List Obs} (h : Follows c t l)
    (hm : ThreadMove s c t t' obs) : Follows c t' (l ++ obs) := by
  cases hm with
  | rests hrests => exact h.of_effects rfl rfl nofun
  | @takes p rest pc obs hpc hsplit hobs hflow =>
      obtain ⟨live, hdrain, hlive, -⟩ := h
      obtain rfl := hlive (by rw [hpc]; rfl)
      refine ⟨goesOn p, ?_, fun hruns => hflow.symm.trans hruns, fun hruns =>
        Or.inl (hflow.symm.trans hruns)⟩
      have hchunks : chunks (Obs.extracted c p :: obs) = chunks obs := rfl
      have hprocessed : processed (Obs.extracted c p :: obs) = p :: processed obs := rfl
      rw [processed_append, chunks_append, hchunks, hprocessed, processed_of_effects hobs,
        chunks_of_effects hobs, List.append_nil, ← hdrain]
      have hbuffer : Framing.split? (Framing.Receiver.mk t.recvBuffer (processed l) true).buffer =
          some (p, rest) := hsplit
      exact (Framing.drain_of_some rfl hbuffer).symm
  | replies hpc =>
      exact h.of_effects rfl (by rw [hpc]; rfl) fun o ho => by rw [List.mem_singleton.mp ho]; rfl
  | misses hpc => exact h.of_effects rfl (by rw [hpc]; rfl) nofun
  | finds hpc => exact h.of_effects rfl (by rw [hpc]; rfl) nofun
  | forwards hpc =>
      exact h.of_effects rfl (by rw [hpc]; rfl) fun o ho => by rw [List.mem_singleton.mp ho]; rfl
  | removes hpc hobs => exact h.of_effects rfl (by rw [hpc]; rfl) hobs
  | closes hpc => exact h.of_effects rfl (by rw [hpc]; rfl) nofun

theorem Follows.recv {c : ℕ} {t : Thread} {l : List Obs} (h : Follows c t l) (hwaits : t.Waits)
    (chunk : Bytes) : Follows c (t.afterRecv chunk) (l ++ [.received c chunk]) := by
  obtain ⟨live, hdrain, hlive, -⟩ := h
  obtain rfl := hlive (by rw [hwaits.1]; rfl)
  rw [Framing.drain_of_none hwaits.2] at hdrain
  have hlog : processed [Obs.received c chunk] = [] ∧ chunks [Obs.received c chunk] = [chunk] :=
    ⟨rfl, rfl⟩
  unfold Follows
  rw [processed_append, chunks_append, hlog.1, hlog.2, List.append_nil, StepSystem.run_snoc,
    ← hdrain, recieve, Framing.feed, if_pos rfl, Thread.afterRecv]
  refine ⟨true, ?_, fun _ => rfl, fun hruns => Or.inr ?_⟩
  · split
    · rename_i hempty
      rw [hempty, List.append_nil]
    · rfl
  · split at hruns
    · rw [if_pos (by assumption)]
      exact hwaits.2
    · rw [hwaits.1] at hruns
      cases hruns

/-- **Every thread follows the loop.**  In every run, what a thread that waits in `recv` or has left
its loop has extracted, and what it buffers, is what `recieve` makes of the chunks it received. -/
theorem thread_follows_recieve (es : List Event) {c : ℕ} {t : Thread}
    (ht : (StepSystem.run Run.step Run.new es).server.threads.find? c = some t)
    (hrests : t.Waits ∨ t.pc.runs = false) :
    let l := own c (StepSystem.run Run.step Run.new es).log
    let r := StepSystem.run recieve Framing.Receiver.new (chunks l)
    r.taken = processed l ∧ r.buffer = t.recvBuffer := by
  intro l r
  have hkeeps : Keeps Follows (StepSystem.run Run.step Run.new es) :=
    thread_run (fun c sock => ⟨true, Framing.drain_of_none rfl, fun _ => rfl, nofun⟩)
      (fun _ _ hwaits h => h.recv hwaits _) (fun _ ht _ _ h ht' => h.move (threadMove ht ht'))
      (StepSystem.Guarded.of_forall (fun _ _ => trivial) _ _)
  obtain ⟨live, hdrain, hlive, hdead⟩ := hkeeps.thread ht
  have hstill : Framing.drain goesOn ⟨t.recvBuffer, processed l, live⟩ =
      ⟨t.recvBuffer, processed l, live⟩ := by
    have hnone : Framing.split? t.recvBuffer = none → Framing.drain goesOn
        ⟨t.recvBuffer, processed l, live⟩ = ⟨t.recvBuffer, processed l, live⟩ := fun h =>
      Framing.drain_of_none (show Framing.split? (Framing.Receiver.mk _ _ _).buffer = none from h)
    rcases hrests with hwaits | hruns
    · exact hnone hwaits.2
    · rcases hdead hruns with rfl | hsplit
      · exact Framing.drain_of_dead rfl
      · exact hnone hsplit
  have hr : r = ⟨t.recvBuffer, processed l, live⟩ := hdrain.symm.trans hstill
  rw [hr]
  exact ⟨rfl, rfl⟩

end SocketServer

/-! ### Round trips -/

/-- What reaches the client of a list of packets the server sends it. -/
theorem SocketServer.sendPacket_wire {sock : ℤ} (hsock : 0 ≤ sock) (ps : List Packet) :
    (ps.flatMap fun p => SocketServer.sendPacket sock p.kind p.payload) = Framing.wire ps := by
  refine List.flatMap_congr fun p _ => ?_
  rw [SocketServer.sendPacket, if_neg (not_lt.mpr hsock), packetBytes_eq]

/-- What reaches the server of a list of packets a connected client sends. -/
theorem SocketClient.sendPacket_wire {baseSock : ℤ} (hsock : 0 ≤ baseSock) (ps : List Packet) :
    (ps.flatMap fun p => SocketClient.sendPacket true baseSock p.kind p.payload) =
      Framing.wire ps := by
  refine List.flatMap_congr fun p _ => ?_
  have hopen : ¬(true = false ∨ baseSock < 0) := by simpa using hsock
  rw [SocketClient.sendPacket, if_neg hopen, packetBytes_eq]

theorem SocketClient.round_trip {sock : ℤ} (hsock : 0 ≤ sock) (baseSock : ℤ)
    (ps : List Packet) {chunks : List Bytes} (hdata : ∀ chunk ∈ chunks, chunk ≠ [])
    (hchunks : chunks.flatten =
      ps.flatMap fun p => SocketServer.sendPacket sock p.kind p.payload) :
    (StepSystem.run SocketClient.recieve (SocketClient.Client.new baseSock) chunks).printed = ps ∧
        (StepSystem.run SocketClient.recieve (SocketClient.Client.new baseSock) chunks).recvBuffer
          = [] ↔
      ∀ p ∈ ps, p.payload.length < 2 ^ 16 := by
  rw [SocketServer.sendPacket_wire hsock] at hchunks
  rw [SocketClient.run_recieve baseSock chunks hdata, hchunks, ← Framing.frames_wire_iff,
    Prod.ext_iff]

/-- **Framing round trip.**  However the bytes are cut into chunks, the receive loop of the client
extracts exactly the packets the server sent it, with nothing left over, if and only if every
payload is shorter than `2 ^ 16`; and so does the loop of the server for the packets of a client, if
moreover no packet but the last one makes it return (DISCONNECT) or throw. -/
theorem framing_round_trip_iff (ps : List Packet) (chunks : List Bytes) :
    (∀ sock baseSock : ℤ, 0 ≤ sock → (∀ chunk ∈ chunks, chunk ≠ []) →
      (chunks.flatten = ps.flatMap fun p => SocketServer.sendPacket sock p.kind p.payload) →
      let c := StepSystem.run SocketClient.recieve (SocketClient.Client.new baseSock) chunks
      (c.printed = ps ∧ c.recvBuffer = [] ↔ ∀ p ∈ ps, p.payload.length < 2 ^ 16)) ∧
    ∀ baseSock : ℤ, 0 ≤ baseSock →
      (chunks.flatten =
        ps.flatMap fun p => SocketClient.sendPacket true baseSock p.kind p.payload) →
      let r := StepSystem.run SocketServer.recieve Framing.Receiver.new chunks
      (r.taken = ps ∧ r.buffer = [] ↔
        (∀ p ∈ ps, p.payload.length < 2 ^ 16) ∧
          ∀ p ∈ ps.dropLast, SocketServer.goesOn p = true) := by
  refine ⟨fun sock baseSock hsock hdata hchunks =>
    SocketClient.round_trip hsock baseSock ps hdata hchunks, fun baseSock hsock hchunks => ?_⟩
  rw [SocketClient.sendPacket_wire hsock] at hchunks
  exact Framing.run_feed_wire_iff ps chunks hchunks

/-- A SIGNAL in two chunks to the client, and a CONNECT and a DISCONNECT in one to the server. -/
theorem framing_round_trip_small :
    let c := StepSystem.run SocketClient.recieve (SocketClient.Client.new 3)
      [[2, 0], [4, 49, 36, 104, 105]]
    let r := StepSystem.run SocketServer.recieve Framing.Receiver.new [[1, 0, 0, 7, 0, 0]]
    (c.printed = [⟨PacketType.signal, [49, 36, 104, 105]⟩] ∧ c.recvBuffer = []) ∧
      r.taken = [⟨PacketType.connect, []⟩, ⟨PacketType.disconnect, []⟩] ∧ r.buffer = [] :=
  ⟨((framing_round_trip_iff [⟨PacketType.signal, [49, 36, 104, 105]⟩] _).1 5 3 (by decide)
      (by decide) (by decide +kernel)).mpr (by decide),
    ((framing_round_trip_iff [⟨PacketType.connect, []⟩, ⟨PacketType.disconnect, []⟩] _).2 3
      (by decide) (by decide +kernel)).mpr (by decide +kernel)⟩

/-- The client with the id 10 sends `2$` and 65533 bytes, which fits; the SIGNAL that forwards them
begins with `10$` and has 65536 bytes, so its length field is 0 and the receiver does not get it. -/
theorem framing_loses_forward :
    let content : Bytes := List.replicate 65533 97
    let forward : Packet := ⟨PacketType.signal, DecimalText.toString 10 ++ 36 :: content⟩
    let c := StepSystem.run SocketClient.recieve (SocketClient.Client.new 3)
      [SocketServer.sendPacket 5 forward.kind forward.payload]
    (50 :: 36 :: content).length < 2 ^ 16 ∧ ¬(c.printed = [forward] ∧ c.recvBuffer = []) := by
  intro content forward c
  have hlen : content.length = 65533 := List.length_replicate
  have hforward : forward.payload.length = 2 ^ 16 := by
    rw [show forward.payload = [49, 48] ++ 36 :: content from rfl, List.length_append,
      List.length_cons, List.length_cons, List.length_cons, List.length_nil, hlen]
    decide
  refine ⟨by rw [List.length_cons, List.length_cons, hlen]; decide, fun hboth => ?_⟩
  have hdata : ∀ chunk ∈ [SocketServer.sendPacket 5 forward.kind forward.payload],
      chunk ≠ [] := by
    intro chunk hchunk
    rw [List.mem_singleton.mp hchunk, SocketServer.sendPacket, if_neg (by decide)]
    exact List.cons_ne_nil _ _
  have hfits := (SocketClient.round_trip (by decide : (0 : ℤ) ≤ 5) 3 [forward] hdata
    (by rw [List.flatten_singleton, List.flatMap_singleton])).mp hboth
  exact absurd (hfits forward List.mem_cons_self) (by rw [hforward]; decide)

end CourseNet
