import CourseNet.BigEndian
import CourseNet.StepSystem
import Mathlib.Data.List.Induction

/-!
# Frames with a kind and a 16-bit length

A frame on the wire is its kind, the length of its payload in two bytes and the payload.  `split?`
takes one complete frame off the front of a buffer and `frames` as many as there are.  Because an
incomplete frame stays in the buffer, how a stream is cut into chunks does not matter
(`frames_append`); because the length has 16 bits, exactly the payloads shorter than `2 ^ 16` come
back whole (`frames_wire_iff`).  A `Receiver` runs the loop over the chunks and hands every frame
out, until a frame that ends the loop.
-/

namespace Framing

/-- A frame. -/
structure Frame where
  kind : UInt8
  payload : List UInt8
deriving DecidableEq

/-- The bytes of a frame; the length is kept modulo `2 ^ 16`. -/
def encode (f : Frame) : List UInt8 := f.kind :: (BigEndian.ofNat 2 f.payload.length ++ f.payload)

/-- The bytes of a list of frames, one after the other. -/
def wire (fs : List Frame) : List UInt8 := fs.flatMap encode

/-- The first frame of the buffer, if it is complete, and what follows it. -/
def split? : List UInt8 → Option (Frame × List UInt8)
  | kind :: hi :: lo :: rest =>
      let len := BigEndian.toNat [hi, lo]
      if rest.length < len then none else some (⟨kind, rest.take len⟩, rest.drop len)
  | _ => none

/-- A frame takes its payload and three bytes off the buffer. -/
theorem split?_length {buf : List UInt8} {f : Frame} {rest : List UInt8}
    (h : split? buf = some (f, rest)) :
    rest.length + (f.payload.length + 3) = buf.length := by
  match buf, h with
  | kind :: hi :: lo :: tail, h =>
      simp only [split?] at h
      split at h
      · cases h
      · obtain ⟨rfl, rfl⟩ := Prod.mk.inj (Option.some.inj h)
        rw [List.length_drop, List.length_take, List.length_cons, List.length_cons,
          List.length_cons]
        omega

/-- Later bytes do not change a frame that is complete. -/
theorem split?_append {buf : List UInt8} {f : Frame} {rest : List UInt8}
    (h : split? buf = some (f, rest)) (more : List UInt8) :
    split? (buf ++ more) = some (f, rest ++ more) := by
  match buf, h with
  | kind :: hi :: lo :: tail, h =>
      simp only [split?] at h
      split at h
      · cases h
      · rename_i hlen
        obtain ⟨rfl, rfl⟩ := Prod.mk.inj (Option.some.inj h)
        rw [List.cons_append, List.cons_append, List.cons_append, split?,
          if_neg (by rw [List.length_append]; omega), List.take_append_of_le_length (by omega),
          List.drop_append_of_le_length (by omega)]

/-- What the receiver takes for the first frame: the announced length counts. -/
theorem split?_encode (f : Frame) (rest : List UInt8) :
    split? (encode f ++ rest) = some (⟨f.kind, f.payload.take (f.payload.length % 2 ^ 16)⟩,
      f.payload.drop (f.payload.length % 2 ^ 16) ++ rest) := by
  have hle := Nat.mod_le f.payload.length (2 ^ 16)
  have hlen := BigEndian.toNat_ofNat 2 f.payload.length
  rw [show 256 ^ 2 = 2 ^ 16 from rfl] at hlen
  match h : BigEndian.ofNat 2 f.payload.length, BigEndian.length_ofNat 2 f.payload.length with
  | [hi, lo], _ =>
      rw [h] at hlen
      simp only [encode, h, List.cons_append, List.nil_append, split?, hlen]
      rw [if_neg (by rw [List.length_append]; omega), List.take_append_of_le_length hle,
        List.drop_append_of_le_length hle]

/-- All complete frames of the buffer, and the incomplete rest. -/
def frames (buf : List UInt8) : List Frame × List UInt8 :=
  match _h : split? buf with
  | none => ([], buf)
  | some (f, rest) => (f :: (frames rest).1, (frames rest).2)
termination_by buf.length
decreasing_by
  all_goals
    have := split?_length _h
    omega

theorem frames_of_none {buf : List UInt8} (h : split? buf = none) : frames buf = ([], buf) := by
  rw [frames]
  split
  · rfl
  · rename_i hsome
    rw [h] at hsome
    cases hsome

theorem frames_of_some {buf : List UInt8} {f : Frame} {rest : List UInt8}
    (h : split? buf = some (f, rest)) : frames buf = (f :: (frames rest).1, (frames rest).2) := by
  rw [frames]
  split
  · rename_i hnone
    rw [h] at hnone
    cases hnone
  · rename_i f' rest' hsome
    obtain ⟨rfl, rfl⟩ := Prod.mk.inj (Option.some.inj (h.symm.trans hsome))
    rfl

/-- **Chunks do not matter.**  The frames of a stream are those of its first part and those of what
that leaves together with the second part. -/
theorem frames_append (a b : List UInt8) :
    frames (a ++ b) =
      ((frames a).1 ++ (frames ((frames a).2 ++ b)).1, (frames ((frames a).2 ++ b)).2) := by
  induction hn : a.length using Nat.strong_induction_on generalizing a with
  | _ n ih =>
      cases hs : split? a with
      | none => rw [frames_of_none hs, List.nil_append]
      | some r =>
          obtain ⟨f, rest⟩ := r
          have hlt := split?_length hs
          rw [frames_of_some (split?_append hs b), ih rest.length (by omega) rest rfl,
            frames_of_some hs, List.cons_append]

theorem frames_encode (f : Frame) (hf : f.payload.length < 2 ^ 16) (rest : List UInt8) :
    frames (encode f ++ rest) = (f :: (frames rest).1, (frames rest).2) := by
  have hsplit := split?_encode f rest
  rw [Nat.mod_eq_of_lt hf, List.take_length, List.drop_length, List.nil_append] at hsplit
  exact frames_of_some hsplit

/-- **Round trip.**  The frames on the wire are the frames sent, with nothing left over, if and only
if every payload length fits its two bytes. -/
theorem frames_wire_iff (fs : List Frame) :
    frames (wire fs) = (fs, []) ↔ ∀ f ∈ fs, f.payload.length < 2 ^ 16 := by
  induction fs with
  | nil => simp [wire, frames_of_none (show split? [] = none from rfl)]
  | cons f fs ih =>
      rw [List.forall_mem_cons, wire, List.flatMap_cons]
      by_cases hf : f.payload.length < 2 ^ 16
      · rw [frames_encode f hf, and_iff_right hf, ← ih, wire, Prod.ext_iff, Prod.ext_iff]
        simp only [List.cons.injEq, true_and]
      · -- the receiver takes a shorter first frame
        rw [frames_of_some (split?_encode f _)]
        have hmod := Nat.mod_lt f.payload.length (show 0 < 2 ^ 16 by decide)
        constructor
        · intro h
          have hhead := (List.cons.inj (Prod.mk.inj h).1).1
          have hlen := congrArg (fun g => g.payload.length) hhead
          simp only [List.length_take] at hlen
          omega
        · exact fun h => absurd h.1 hf

/-- A list of frames that comes back as the first frames of its own wire has lengths that fit. -/
theorem fits_of_prefix {fs : List Frame} (rest : List UInt8)
    (h : fs <+: (frames (wire fs ++ rest)).1) : ∀ f ∈ fs, f.payload.length < 2 ^ 16 := by
  induction fs with
  | nil => exact fun f hf => absurd hf List.not_mem_nil
  | cons f fs ih =>
      rw [wire, List.flatMap_cons, List.append_assoc] at h
      have hf : f.payload.length < 2 ^ 16 := by
        rw [frames_of_some (split?_encode f _), List.cons_prefix_cons] at h
        have hlen := congrArg (fun g => g.payload.length) h.1
        have hmod := Nat.mod_lt f.payload.length (show 0 < 2 ^ 16 by decide)
        simp only [List.length_take] at hlen
        omega
      rw [frames_encode f hf, List.cons_prefix_cons] at h
      exact List.forall_mem_cons.mpr ⟨hf, ih h.2⟩

/-! ### The receive loop -/

/-- A receive loop: what it buffers, the frames it handed out, and whether it still runs. -/
structure Receiver where
  buffer : List UInt8
  taken : List Frame
  live : Bool

def Receiver.new : Receiver := ⟨[], [], true⟩

variable (stays : Frame → Bool)

/-- Hand out every complete frame, up to the first one that ends the loop. -/
def drain (r : Receiver) : Receiver :=
  if r.live then
    match _h : split? r.buffer with
    | none => r
    | some (f, rest) => drain ⟨rest, r.taken ++ [f], stays f⟩
  else r
termination_by r.buffer.length
decreasing_by
  have := split?_length _h
  omega

/-- One chunk: append it and drain the buffer. -/
def feed (r : Receiver) (chunk : List UInt8) : Receiver :=
  if r.live then drain stays { r with buffer := r.buffer ++ chunk } else r

/-- The frames up to the first one that ends the loop. -/
def cut : List Frame → List Frame
  | [] => []
  | f :: fs => if stays f then f :: cut fs else [f]

/-- The bytes the frames take on the wire. -/
def wireLength (fs : List Frame) : ℕ := (fs.map fun f => f.payload.length + 3).sum

theorem wire_length (fs : List Frame) : (wire fs).length = wireLength fs := by
  induction fs with
  | nil => rfl
  | cons f fs ih =>
      rw [wire, List.flatMap_cons, List.length_append, ← wire, ih, encode, List.length_cons,
        List.length_append, BigEndian.length_ofNat, wireLength, wireLength, List.map_cons,
        List.sum_cons]
      omega

variable {stays}

theorem drain_of_dead {r : Receiver} (h : r.live = false) : drain stays r = r := by
  rw [drain, h]
  rfl

theorem drain_of_none {r : Receiver} (h : split? r.buffer = none) : drain stays r = r := by
  rw [drain]
  split
  · split
    · rfl
    · rename_i hsome
      rw [h] at hsome
      cases hsome
  · rfl

theorem drain_of_some {r : Receiver} {f : Frame} {rest : List UInt8} (hlive : r.live = true)
    (h : split? r.buffer = some (f, rest)) :
    drain stays r = drain stays ⟨rest, r.taken ++ [f], stays f⟩ := by
  rw [drain, if_pos hlive]
  split
  · rename_i hnone
    rw [h] at hnone
    cases hnone
  · rename_i f' rest' hsome
    obtain ⟨rfl, rfl⟩ := Prod.mk.inj (Option.some.inj (h.symm.trans hsome))
    rfl

theorem cut_append_of_all {fs : List Frame} (h : fs.all stays = true) (gs : List Frame) :
    cut stays (fs ++ gs) = fs ++ cut stays gs := by
  induction fs with
  | nil => rfl
  | cons f fs ih =>
      rw [List.all_cons, Bool.and_eq_true] at h
      rw [List.cons_append, cut, if_pos h.1, ih h.2, List.cons_append]

theorem cut_append_of_not_all {fs : List Frame} (h : fs.all stays = false) (gs : List Frame) :
    cut stays (fs ++ gs) = cut stays fs := by
  induction fs with
  | nil => cases h
  | cons f fs ih =>
      rw [List.cons_append, cut, cut]
      by_cases hf : stays f = true
      · rw [List.all_cons, hf, Bool.true_and] at h
        rw [if_pos hf, if_pos hf, ih h]
      · rw [if_neg hf, if_neg hf]

theorem cut_prefix (stays : Frame → Bool) (fs : List Frame) : cut stays fs <+: fs := by
  induction fs with
  | nil => exact List.prefix_refl _
  | cons f fs ih =>
      rw [cut]
      split
      · exact List.cons_prefix_cons.mpr ⟨rfl, ih⟩
      · exact List.cons_prefix_cons.mpr ⟨rfl, List.nil_prefix⟩

/-- Two tests that agree on what is handed out hand out the same. -/
theorem cut_congr {stays' : Frame → Bool} {fs : List Frame}
    (h : ∀ f ∈ cut stays fs, stays f = stays' f) : cut stays fs = cut stays' fs := by
  induction fs with
  | nil => rfl
  | cons f fs ih =>
      have hf : stays f = stays' f := by
        refine h f ?_
        rw [cut]
        split <;> exact List.mem_cons_self
      rw [cut, cut, ← hf]
      split
      · rename_i hstays
        rw [ih fun g hg => h g (by rw [cut, if_pos hstays]; exact List.mem_cons_of_mem _ hg)]
      · rfl

/-- Nothing is cut off exactly if no frame but the last one may end the loop. -/
theorem cut_eq_self_iff (fs : List Frame) :
    cut stays fs = fs ↔ ∀ f ∈ fs.dropLast, stays f = true := by
  induction fs with
  | nil => simp [cut]
  | cons f fs ih =>
      rw [cut]
      cases fs with
      | nil => simp [cut]
      | cons g gs =>
          rw [List.dropLast_cons_cons, List.forall_mem_cons, ← ih]
          by_cases hf : stays f = true
          · simp [hf]
          · simp [hf]

/-- What draining a running loop does, in terms of the frames of its buffer. -/
theorem drain_spec (stays : Frame → Bool) (r : Receiver) (hlive : r.live = true) :
    (drain stays r).taken = r.taken ++ cut stays (frames r.buffer).1 ∧
      (drain stays r).live = (frames r.buffer).1.all stays ∧
      ((frames r.buffer).1.all stays = true → (drain stays r).buffer = (frames r.buffer).2) ∧
      (drain stays r).buffer.length + wireLength (drain stays r).taken ≤
        r.buffer.length + wireLength r.taken := by
  induction hn : r.buffer.length using Nat.strong_induction_on generalizing r with
  | _ n ih =>
      cases hs : split? r.buffer with
      | none =>
          rw [drain_of_none hs, frames_of_none hs]
          exact ⟨(List.append_nil _).symm, hlive, fun _ => rfl, hn ▸ le_refl _⟩
      | some p =>
          obtain ⟨f, rest⟩ := p
          have hlt := split?_length hs
          have hgrow : wireLength (r.taken ++ [f]) =
              wireLength r.taken + (f.payload.length + 3) := by
            simp [wireLength]
          rw [drain_of_some hlive hs, frames_of_some hs, List.all_cons, cut]
          cases hf : stays f with
          | false =>
              rw [drain_of_dead rfl]
              refine ⟨rfl, rfl, nofun, ?_⟩
              dsimp only
              omega
          | true =>
              obtain ⟨htaken, hlive', hbuffer, hle⟩ :=
                ih rest.length (by omega) ⟨rest, r.taken ++ [f], true⟩ rfl rfl
              refine ⟨?_, hlive', hbuffer, ?_⟩
              · rw [htaken, if_pos rfl, List.append_assoc, List.singleton_append]
              · dsimp only at hle
                omega

/-- **The loop over all chunks.**  It hands out the frames of the stream up to the first one that
ends it; while it runs it buffers what is left of the stream. -/
theorem run_feed (stays : Frame → Bool) (chunks : List (List UInt8)) :
    let r := StepSystem.run (feed stays) Receiver.new chunks
    r.taken = cut stays (frames chunks.flatten).1 ∧
      r.live = (frames chunks.flatten).1.all stays ∧
      (r.live = true → r.buffer = (frames chunks.flatten).2) ∧
      r.buffer.length + wireLength r.taken ≤ chunks.flatten.length := by
  induction chunks using List.reverseRecOn with
  | nil =>
      rw [List.flatten_nil, frames_of_none (show split? [] = none from rfl)]
      exact ⟨rfl, rfl, fun _ => rfl, le_refl _⟩
  | append_singleton chunks chunk ih =>
      obtain ⟨htaken, hlive, hbuffer, hle⟩ := ih
      rw [StepSystem.run_snoc, List.flatten_append, List.flatten_singleton, frames_append, feed]
      dsimp only
      generalize StepSystem.run (feed stays) Receiver.new chunks = r at *
      by_cases hr : r.live = true
      · have hall : (frames chunks.flatten).1.all stays = true := hlive.symm.trans hr
        have hwhole := cut_append_of_all hall []
        rw [List.append_nil, cut, List.append_nil] at hwhole
        obtain ⟨htaken', hlive', hbuffer', hle'⟩ :=
          drain_spec stays { r with buffer := r.buffer ++ chunk } hr
        rw [if_pos hr, List.all_append, hall, Bool.true_and, cut_append_of_all hall, ← hbuffer hr]
        refine ⟨?_, hlive', fun h => hbuffer' (hlive'.symm.trans h), ?_⟩
        · rw [htaken', htaken, hwhole]
        · rw [List.length_append] at hle' ⊢
          dsimp only at hle'
          omega
      · have hall : (frames chunks.flatten).1.all stays = false :=
          hlive.symm.trans (Bool.eq_false_of_not_eq_true hr)
        rw [if_neg hr, List.all_append, hall, Bool.false_and, cut_append_of_not_all hall]
        refine ⟨htaken, Bool.eq_false_of_not_eq_true hr, fun h => absurd h hr, ?_⟩
        rw [List.length_append]
        omega

/-- **Round trip through the loop.**  Whatever the chunks, the loop hands out exactly the frames
sent and is left with an empty buffer if and only if every payload length fits its two bytes and no
frame but the last one may end the loop. -/
theorem run_feed_wire_iff (fs : List Frame) (chunks : List (List UInt8))
    (hchunks : chunks.flatten = wire fs) :
    (StepSystem.run (feed stays) Receiver.new chunks).taken = fs ∧
        (StepSystem.run (feed stays) Receiver.new chunks).buffer = [] ↔
      (∀ f ∈ fs, f.payload.length < 2 ^ 16) ∧ ∀ f ∈ fs.dropLast, stays f = true := by
  obtain ⟨htaken, -, -, hle⟩ := run_feed stays chunks
  rw [hchunks] at htaken hle
  have hcut : (∀ f ∈ fs, f.payload.length < 2 ^ 16) →
      (StepSystem.run (feed stays) Receiver.new chunks).taken = cut stays fs := fun hfits => by
    rw [htaken, (frames_wire_iff fs).mpr hfits]
  constructor
  · rintro ⟨hfs, -⟩
    have hfits : ∀ f ∈ fs, f.payload.length < 2 ^ 16 := by
      refine fits_of_prefix [] ?_
      rw [List.append_nil]
      have hpre := cut_prefix stays (frames (wire fs)).1
      rwa [← htaken, hfs] at hpre
    exact ⟨hfits, (cut_eq_self_iff fs).mp ((hcut hfits).symm.trans hfs)⟩
  · rintro ⟨hfits, hstays⟩
    have hfs := (hcut hfits).trans ((cut_eq_self_iff fs).mpr hstays)
    refine ⟨hfs, ?_⟩
    rw [hfs, wire_length] at hle
    exact List.length_eq_zero_iff.mp (by omega)

end Framing
