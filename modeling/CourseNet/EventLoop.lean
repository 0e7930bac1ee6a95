import CourseNet.FileDescriptor
import CourseNet.StepSystem
import Mathlib.Data.List.Sublists

/-!
# The event loop

`EventLoop` of `eventloop.cc`.  The rules of a loop have names; what a rule does is a function of
its name, and the state `σ` is whatever the rules act on.  One call of `wait_next_event` erases the
rules that are finished, asks the others for their interest, polls, and serves what is ready.  What
`poll` answers and what the kernel answers to the callbacks' system calls (`ι`) are inputs.
-/

namespace CourseNet

namespace EventLoop

/-- `Direction`. -/
inductive Direction
  | dirIn
  | dirOut
deriving DecidableEq, Repr

/-- The `revents` of a `pollfd`. -/
structure Revents where
  pollIn : Bool := false
  pollOut : Bool := false
  pollErr : Bool := false
  pollHup : Bool := false
  pollNval : Bool := false
deriving DecidableEq, Repr

def Revents.has (r : Revents) : Direction → Bool
  | .dirIn => r.pollIn
  | .dirOut => r.pollOut

/-- `Rule`.  A callback returns what it throws, if anything. -/
structure Rule (σ ι ε : Type) where
  fd : σ → FileDescriptor
  direction : Direction
  callback : ι → σ → σ × Option ε
  interest : σ → Bool
  cancel : σ → σ

variable {κ σ ι ε : Type}

namespace Rule

def serviceCount (r : Rule σ ι ε) (s : σ) : UInt32 :=
  match r.direction with
  | .dirIn => (r.fd s).readCount
  | .dirOut => (r.fd s).writeCount

/-- No more reading on this rule, or its descriptor is closed. -/
def finished (r : Rule σ ι ε) (s : σ) : Bool :=
  r.direction == .dirIn && (r.fd s).eof || (r.fd s).closed

end Rule

/-- What leaves `wait_next_event` as an exception. -/
inductive Error (ε : Type)
  | polledFd
  | callback (what : ε)
  | busyWait
deriving DecidableEq, Repr

/-- `Result`, or an exception. -/
inductive Result (ε : Type)
  | success
  | timeout
  | exit
  | throws (error : Error ε)
deriving DecidableEq, Repr

/-- The exception, if it is one. -/
def Result.error? : Result ε → Option (Error ε)
  | .throws error => some error
  | _ => none

/-- What `poll` answers; `input` is for the callbacks.  An error other than an interruption is
dropped and leaves every `revents` empty. -/
inductive Poll (κ ι : Type)
  | timeout
  | interrupted
  | ready (revents : κ → Revents) (input : ι)

/-- What an observer sees of a rule. -/
inductive Call (κ : Type)
  | callback (rule : κ)
  | cancel (rule : κ)
deriving DecidableEq, Repr

/-- The rules that are left, what they act on, and the calls made so far. -/
structure Loop (κ σ : Type) where
  rules : List κ
  state : σ
  calls : List (Call κ)

variable (spec : κ → Rule σ ι ε)

/-- The loop that sets up the `pollfd`s: the rules that stay, each with whether it is interested. -/
def setUp : List κ → σ → List (κ × Bool) × σ × List (Call κ)
  | [], s => ([], s, [])
  | k :: ks, s =>
      if (spec k).finished s then
        let (polled, s, calls) := setUp ks ((spec k).cancel s)
        (polled, s, .cancel k :: calls)
      else
        let interested := (spec k).interest s
        let (polled, s, calls) := setUp ks s
        ((k, interested) :: polled, s, calls)

/-- The loop over the results of the poll.  An exception keeps the rules that it did not come to. -/
def serve (revents : κ → Revents) (input : ι) :
    List (κ × Bool) → σ → List κ × σ × List (Call κ) × Option (Error ε)
  | [], s => ([], s, [], none)
  | (k, events) :: polled, s =>
      let r := revents k
      if r.pollErr || r.pollNval then (k :: polled.map Prod.fst, s, [], some .polledFd)
      else
        let pollReady := events && r.has (spec k).direction
        if r.pollHup && events && !pollReady then
          let (ks, s, calls, error) := serve revents input polled ((spec k).cancel s)
          (ks, s, .cancel k :: calls, error)
        else if pollReady then
          match (spec k).callback input s with
          | (s', some what) =>
              (k :: polled.map Prod.fst, s', [.callback k], some (.callback what))
          | (s', none) =>
              if (spec k).serviceCount s' == (spec k).serviceCount s && (spec k).interest s' then
                (k :: polled.map Prod.fst, s', [.callback k], some .busyWait)
              else
                let (ks, s, calls, error) := serve revents input polled s'
                (k :: ks, s, .callback k :: calls, error)
        else
          let (ks, s, calls, error) := serve revents input polled s
          (k :: ks, s, calls, error)

/-- `wait_next_event`. -/
def waitNextEvent (l : Loop κ σ) (answer : Poll κ ι) : Loop κ σ × Result ε :=
  let (polled, s, calls) := setUp spec l.rules l.state
  let l : Loop κ σ := ⟨polled.map Prod.fst, s, l.calls ++ calls⟩
  if !polled.any Prod.snd then (l, .exit)
  else
    match answer with
    | .timeout => (l, .timeout)
    | .interrupted => (l, .exit)
    | .ready revents input =>
        let (ks, s, calls, error) := serve spec revents input polled l.state
        (⟨ks, s, l.calls ++ calls⟩, error.elim .success .throws)

/-! ### A rule of invariants

What a call of `wait_next_event` keeps of the whole loop, and what it may throw, from what each cancel
and each callback keeps.  `Ready k` is what a rule that is polled finds when its turn comes. -/

/-- `P` before an exception, and what `E` tells of the exception after it. -/
def Holds {τ : Type} (P : τ → Prop) (E : Error ε → τ → Prop) (s : τ) : Option (Error ε) → Prop
  | none => P s
  | some e => E e s

/-- The loop after a callback. -/
def Loop.called (l : Loop κ σ) (input : ι) (k : κ) : Loop κ σ :=
  ⟨l.rules, ((spec k).callback input l.state).1, l.calls ++ [.callback k]⟩

section LoopInvariants

variable {P : Loop κ σ → Prop} {Ready : κ → σ → Prop} {E : Error ε → Loop κ σ → Prop}
  {revents : κ → Revents} {input : ι}

variable (P) in
/-- `P` is kept by the cancel of a rule of which `C` holds. -/
def Erases (C : κ → σ → Prop) : Prop :=
  ∀ ks k js s calls, C k s → P ⟨ks ++ k :: js, s, calls⟩ →
    P ⟨ks ++ js, (spec k).cancel s, calls ++ [.cancel k]⟩

theorem setUp_keeps (herases : Erases spec P fun k s => (spec k).finished s = true)
    (ks : List κ) (kept : List κ) (s : σ) (calls : List (Call κ)) (hs : P ⟨kept ++ ks, s, calls⟩) :
    P ⟨kept ++ (setUp spec ks s).1.map Prod.fst, (setUp spec ks s).2.1,
      calls ++ (setUp spec ks s).2.2⟩ := by
  induction ks generalizing kept s calls with
  | nil =>
      rw [setUp, List.append_nil]
      exact hs
  | cons k ks ih =>
      rw [setUp]
      split
      · rename_i hfinished
        have hrest := ih kept _ _ (herases kept k ks s calls hfinished hs)
        rw [List.append_assoc, List.singleton_append] at hrest
        exact hrest
      · have hrest := ih (kept ++ [k]) s calls (by rwa [List.append_assoc, List.singleton_append])
        rw [List.append_assoc, List.singleton_append] at hrest
        exact hrest

/-- What the set-up finds of a rule, and the cancels after it keep. -/
theorem setUp_found {interested : Bool}
    (herases : Erases spec P fun k s => (spec k).finished s = true)
    (hfind : ∀ l k, P l → (spec k).finished l.state = false →
      (spec k).interest l.state = interested → Ready k l.state) {ks : List κ}
    (hcancel : ks.Pairwise fun k j => ∀ s, Ready k s → Ready k ((spec j).cancel s)) (kept : List κ)
    (s : σ) (calls : List (Call κ)) (hs : P ⟨kept ++ ks, s, calls⟩) :
    ∀ r ∈ (setUp spec ks s).1, r.2 = interested → Ready r.1 (setUp spec ks s).2.1 := by
  have hkeeps : ∀ (k : κ) (ks : List κ),
      (∀ j ∈ ks, ∀ s, Ready k s → Ready k ((spec j).cancel s)) →
      ∀ s, Ready k s → Ready k (setUp spec ks s).2.1 := by
    intro k ks
    induction ks with
    | nil => exact fun _ _ hs => hs
    | cons j ks ih =>
        intro h s hs
        have ih := ih fun i hi => h i (List.mem_cons_of_mem _ hi)
        rw [setUp]
        split
        · exact ih _ (h j List.mem_cons_self s hs)
        · exact ih s hs
  induction ks generalizing kept s calls with
  | nil => exact fun _ hr => absurd hr List.not_mem_nil
  | cons k ks ih =>
      obtain ⟨hk, hks⟩ := List.pairwise_cons.mp hcancel
      rw [setUp]
      split
      · rename_i hfinished
        exact ih hks kept _ _ (herases kept k ks s calls hfinished hs)
      · rename_i hfinished
        intro r hr hinterested
        rcases List.mem_cons.mp hr with rfl | hr
        · exact hkeeps k ks hk s
            (hfind ⟨_, s, calls⟩ k hs (Bool.not_eq_true _ ▸ hfinished) hinterested)
        · exact ih hks (kept ++ [k]) s calls
            (by rwa [List.append_assoc, List.singleton_append]) r hr hinterested

theorem setUp_sublist (ks : List κ) (s : σ) :
    List.Sublist ((setUp spec ks s).1.map Prod.fst) ks := by
  induction ks generalizing s with
  | nil => exact List.Sublist.refl _
  | cons k ks ih =>
      rw [setUp]
      split
      · exact (ih _).cons k
      · exact (ih s).cons_cons k

variable (revents input P Ready E) in
/-- Each rule that is ready keeps `P` or throws what `E` allows. -/
structure LoopServes : Prop where
  polled : ∀ l, ∀ k ∈ l.rules, ((revents k).pollErr || (revents k).pollNval) = true → P l →
    E .polledFd l
  cancel : Erases spec P fun k s => Ready k s ∧ (revents k).pollHup = true ∧
    (revents k).has (spec k).direction = false
  callback : ∀ l, ∀ k ∈ l.rules, Ready k l.state → (revents k).has (spec k).direction = true → P l →
    Holds P E (l.called spec input k) (((spec k).callback input l.state).2.map .callback)
  busy : ∀ l, ∀ k ∈ l.rules, Ready k l.state → (revents k).has (spec k).direction = true → P l →
    ((spec k).callback input l.state).2 = none →
    (spec k).serviceCount ((spec k).callback input l.state).1 = (spec k).serviceCount l.state →
    (spec k).interest ((spec k).callback input l.state).1 = true →
    E .busyWait (l.called spec input k)

variable (input Ready) in
/-- A rule does not take from another one what makes it ready. -/
def Apart (j k : κ) : Prop :=
  ∀ s, Ready k s → Ready k ((spec j).cancel s) ∧ Ready k ((spec j).callback input s).1

variable {spec} in
theorem LoopServes.serve (h : LoopServes spec P Ready E revents input) {polled : List (κ × Bool)}
    (hapart : (polled.map Prod.fst).Pairwise (Apart spec Ready input)) (kept : List κ) {s : σ}
    (calls : List (Call κ)) (hready : ∀ r ∈ polled, r.2 = true → Ready r.1 s)
    (hs : P ⟨kept ++ polled.map Prod.fst, s, calls⟩) :
    Holds P E
      ⟨kept ++ (serve spec revents input polled s).1, (serve spec revents input polled s).2.1,
        calls ++ (serve spec revents input polled s).2.2.1⟩
      (serve spec revents input polled s).2.2.2 := by
  induction polled generalizing kept s calls with
  | nil =>
      rw [EventLoop.serve]
      dsimp only
      rw [List.append_nil, List.append_nil]
      rwa [List.map_nil, List.append_nil] at hs
  | cons r polled ih =>
      obtain ⟨k, events⟩ := r
      rw [List.map_cons] at hapart hs
      obtain ⟨hk, hrest⟩ := List.pairwise_cons.mp hapart
      have hmem : k ∈ kept ++ k :: polled.map Prod.fst :=
        List.mem_append_right _ List.mem_cons_self
      have hlater := fun {s' : σ} (hkeeps : ∀ j ∈ polled.map Prod.fst, Ready j s → Ready j s') r hr
        hinterested => hkeeps r.1 (List.mem_map_of_mem hr)
          (hready r (List.mem_cons_of_mem _ hr) hinterested)
      rw [EventLoop.serve]
      dsimp only
      split
      · rename_i herror
        rw [List.append_nil]
        exact h.polled ⟨_, s, calls⟩ k hmem herror hs
      · split
        · rename_i hhup
          simp only [Bool.and_eq_true, Bool.not_eq_true', Bool.and_eq_false_iff] at hhup
          obtain ⟨⟨hhup, hevents⟩, hnotReady⟩ := hhup
          have hready := hready (k, events) List.mem_cons_self hevents
          have hend := ih hrest kept (calls ++ [.cancel k])
            (hlater fun j hj hreadyJ => (hk j hj s hreadyJ).1)
            (h.cancel kept k _ s calls
              ⟨hready, hhup, hnotReady.resolve_left (by simp [hevents])⟩ hs)
          rw [List.append_assoc, List.singleton_append] at hend
          exact hend
        · split
          · rename_i hpollReady
            obtain ⟨hevents, hhas⟩ := Bool.and_eq_true_iff.mp hpollReady
            have hready := hready (k, events) List.mem_cons_self hevents
            have hkeeps := h.callback ⟨_, s, calls⟩ k hmem hready hhas hs
            have hbusy := h.busy ⟨_, s, calls⟩ k hmem hready hhas hs
            have hothers := hlater fun j hj hreadyJ => (hk j hj s hreadyJ).2
            unfold Loop.called at hkeeps hbusy
            dsimp only at hkeeps hbusy
            generalize (spec k).callback input s = r at hkeeps hbusy hothers
            obtain ⟨s', what⟩ := r
            cases what with
            | some what => exact hkeeps
            | none =>
                dsimp only
                split
                · rename_i hsame
                  rw [Bool.and_eq_true, beq_iff_eq] at hsame
                  exact hbusy rfl hsame.1 hsame.2
                · have hend := ih hrest (kept ++ [k]) (calls ++ [.callback k]) hothers
                    (by rw [List.append_assoc, List.singleton_append]; exact hkeeps)
                  rw [List.append_assoc, List.append_assoc, List.singleton_append,
                    List.singleton_append] at hend
                  exact hend
          · have hend := ih hrest (kept ++ [k]) calls
              (fun r hr => hready r (List.mem_cons_of_mem _ hr))
              (by rwa [List.append_assoc, List.singleton_append])
            rw [List.append_assoc, List.singleton_append] at hend
            exact hend

variable {spec} (Ready) in
/-- A call of `wait_next_event`: `P` is kept by the set-up and `Q` by what follows. -/
theorem waitNextEvent_keeps {Q : Loop κ σ → Prop} {answer : Poll κ ι} {l : Loop κ σ}
    (herases : Erases spec P fun k s => (spec k).finished s = true)
    (hfind : ∀ l k, P l → (spec k).finished l.state = false → (spec k).interest l.state = true →
      Ready k l.state)
    (hcancel : l.rules.Pairwise fun k j => ∀ s, Ready k s → Ready k ((spec j).cancel s))
    (hthen : ∀ l, P l → Q l)
    (hserves : ∀ revents input, answer = .ready revents input →
      LoopServes spec Q Ready E revents input ∧ l.rules.Pairwise (Apart spec Ready input))
    (hl : P l) :
    Holds Q E (waitNextEvent spec l answer).1 (waitNextEvent spec l answer).2.error? := by
  have hsetUp := setUp_keeps spec herases l.rules [] l.state l.calls hl
  rw [List.nil_append] at hsetUp
  have hready := setUp_found spec herases hfind hcancel [] l.state l.calls hl
  unfold waitNextEvent
  dsimp only
  split
  · exact hthen _ hsetUp
  · cases answer with
    | timeout => exact hthen _ hsetUp
    | interrupted => exact hthen _ hsetUp
    | ready revents input =>
        obtain ⟨hserves, hapart⟩ := hserves revents input rfl
        have hend := hserves.serve (hapart.sublist (setUp_sublist spec l.rules l.state)) [] _
          hready (hthen _ hsetUp)
        rw [List.nil_append] at hend
        dsimp only
        generalize (EventLoop.serve spec revents input (setUp spec l.rules l.state).1
          (setUp spec l.rules l.state).2.1).2.2.2 = error at hend ⊢
        cases error with
        | none => exact hend
        | some e => exact hend

end LoopInvariants

/-! ### Invariants of the state

Where nothing depends on which rules are left or on when a rule was polled. -/

section Invariants

variable {spec} {revents : κ → Revents} {input : ι} {P : σ → Prop} {E : Error ε → σ → Prop}

variable (spec revents input P E) in
/-- Each rule keeps `P` or throws what `E` allows. -/
structure Serves : Prop where
  polled : ∀ k s, ((revents k).pollErr || (revents k).pollNval) = true → P s → E .polledFd s
  cancel : ∀ k s, (revents k).pollHup = true → (revents k).has (spec k).direction = false → P s →
    P ((spec k).cancel s)
  callback : ∀ k s, (revents k).has (spec k).direction = true → P s →
    Holds P E ((spec k).callback input s).1 (((spec k).callback input s).2.map .callback)
  busy : ∀ k s, (revents k).has (spec k).direction = true → P s →
    ((spec k).callback input s).2 = none →
    (spec k).serviceCount ((spec k).callback input s).1 = (spec k).serviceCount s →
    (spec k).interest ((spec k).callback input s).1 = true →
    E .busyWait ((spec k).callback input s).1

theorem Serves.loopServes (h : Serves spec revents input P E) :
    LoopServes spec (fun l => P l.state) (fun _ _ => True) (fun e l => E e l.state) revents input where
  polled l k _ herror hl := h.polled k l.state herror hl
  cancel _ k _ s _ hk hs := h.cancel k s hk.2.1 hk.2.2 hs
  callback l k _ _ hhas hl := by
    have hkeeps := h.callback k l.state hhas hl
    unfold Loop.called
    generalize (spec k).callback input l.state = r at hkeeps ⊢
    obtain ⟨s', what⟩ := r
    cases what <;> exact hkeeps
  busy l k _ _ hhas hl := h.busy k l.state hhas hl

/-- A call of `wait_next_event`. -/
theorem waitNextEvent_invariant {answer : Poll κ ι}
    (hcancel : ∀ k s, (spec k).finished s = true → P s → P ((spec k).cancel s))
    (hserves : ∀ revents input, answer = .ready revents input → Serves spec revents input P E)
    {l : Loop κ σ} (hl : P l.state) :
    Holds P E (waitNextEvent spec l answer).1.state (waitNextEvent spec l answer).2.error? := by
  have hkeeps : Holds (fun l : Loop κ σ => P l.state) (fun e l => E e l.state)
      (waitNextEvent spec l answer).1 (waitNextEvent spec l answer).2.error? :=
    waitNextEvent_keeps (fun _ _ => True) (fun _ k _ s _ hk hs => hcancel k s hk hs)
      (fun _ _ _ _ _ => trivial) (List.pairwise_of_forall fun _ _ _ _ => trivial) (fun _ => id)
      (fun revents input hanswer => ⟨(hserves revents input hanswer).loopServes,
        List.pairwise_of_forall fun _ _ _ _ => ⟨trivial, trivial⟩⟩) hl
  generalize (waitNextEvent spec l answer).2.error? = error at hkeeps ⊢
  cases error <;> exact hkeeps

/-! ### Nothing left to poll -/

/-- A call that exits was interrupted or has found no rule interested. -/
theorem waitNextEvent_exit {R : κ → σ → Prop}
    (hidle : ∀ k s, (spec k).finished s = false → (spec k).interest s = false → R k s)
    {l : Loop κ σ}
    (hcancel : l.rules.Pairwise fun k j => ∀ s, R k s → R k ((spec j).cancel s))
    (answer : Poll κ ι) (hexit : (waitNextEvent spec l answer).2 = .exit) :
    answer = .interrupted ∨ ∀ k ∈ (waitNextEvent spec l answer).1.rules,
      R k (waitNextEvent spec l answer).1.state := by
  have hset := setUp_found spec (P := fun _ => True) (fun _ _ _ _ _ _ _ => trivial)
    (fun l k _ => hidle k l.state) hcancel [] l.state l.calls trivial
  unfold waitNextEvent at hexit ⊢
  dsimp only at hexit ⊢
  split
  · rename_i hnone
    right
    intro k hk
    obtain ⟨r, hr, rfl⟩ := List.mem_map.mp hk
    refine hset r hr ?_
    by_contra htrue
    rw [Bool.not_eq_false] at htrue
    rw [Bool.not_eq_true', List.any_eq_false] at hnone
    exact hnone r hr htrue
  · rename_i hsome
    rw [if_neg hsome] at hexit
    cases answer with
    | timeout => cases hexit
    | interrupted => exact Or.inl rfl
    | ready revents input =>
        dsimp only at hexit
        generalize (EventLoop.serve spec revents input (setUp spec l.rules l.state).1
          (setUp spec l.rules l.state).2.1).2.2.2 = error at hexit
        cases error with
        | none => cases hexit
        | some e => cases hexit

end Invariants

/-! ### The life of a rule -/

section Life

variable [DecidableEq κ]

/-- The calls of one rule. -/
def Call.rule : Call κ → κ
  | .callback k => k
  | .cancel k => k

def callsOf (k : κ) (calls : List (Call κ)) : List (Call κ) := calls.filter fun c => c.rule == k

@[simp] theorem callsOf_append (k : κ) (xs ys : List (Call κ)) :
    callsOf k (xs ++ ys) = callsOf k xs ++ callsOf k ys := List.filter_append _ _

theorem callsOf_cons (k : κ) (c : Call κ) (calls : List (Call κ)) :
    callsOf k (c :: calls) = if c.rule = k then c :: callsOf k calls else callsOf k calls := by
  rw [callsOf, List.filter_cons]
  by_cases h : c.rule = k
  · rw [if_pos (by simpa using h), if_pos h, callsOf]
  · rw [if_neg (by simpa using h), if_neg h, callsOf]

/-- How often a rule's callback was called. -/
def callbacks (k : κ) (calls : List (Call κ)) : ℕ := calls.count (.callback k)

theorem callbacks_self (k : κ) (calls : List (Call κ)) :
    callbacks k (calls ++ [.callback k]) = callbacks k calls + 1 := by
  rw [callbacks, List.count_append, List.count_singleton_self, callbacks]

theorem callbacks_other {k : κ} {c : Call κ} (h : c ≠ .callback k) (calls : List (Call κ)) :
    callbacks k (calls ++ [c]) = callbacks k calls := by
  have hnone : [c].count (.callback k) = 0 :=
    List.count_eq_zero_of_not_mem (mt List.mem_singleton.mp h.symm)
  rw [callbacks, List.count_append, hnone, Nat.add_zero, callbacks]

/-- One of the two loops: it leaves some of the rules, in their order; a rule that stays has had at
most one callback, one that is gone was cancelled, and no other rule was called. -/
structure Phase (ks kept : List κ) (calls : List (Call κ)) : Prop where
  sublist : List.Sublist kept ks
  stays : ∀ k ∈ kept, callsOf k calls = [] ∨ callsOf k calls = [.callback k]
  goes : ∀ k ∈ ks, k ∉ kept → callsOf k calls = [.cancel k]
  quiet : ∀ k, k ∉ ks → callsOf k calls = []

namespace Phase

variable {k : κ} {ks kept : List κ} {calls : List (Call κ)}

theorem idle (ks : List κ) : Phase ks ks [] :=
  ⟨List.Sublist.refl _, fun _ _ => Or.inl rfl, fun _ hk hno => absurd hk hno, fun _ _ => rfl⟩

/-- A rule in front that is kept. -/
theorem keep (h : Phase ks kept calls) (hk : k ∉ ks) : Phase (k :: ks) (k :: kept) calls := by
  refine ⟨h.sublist.cons_cons k, fun j hj => ?_, fun j hj hno => ?_, fun j hj => ?_⟩
  · rcases List.mem_cons.mp hj with rfl | hj
    · exact Or.inl (h.quiet _ hk)
    · exact h.stays j hj
  · rw [List.mem_cons, not_or] at hno
    exact h.goes j ((List.mem_cons.mp hj).resolve_left hno.1) hno.2
  · exact h.quiet j fun hj' => hj (List.mem_cons_of_mem _ hj')

/-- A rule in front whose callback is called. -/
theorem call (h : Phase ks kept calls) (hk : k ∉ ks) :
    Phase (k :: ks) (k :: kept) (.callback k :: calls) := by
  have hkeep := h.keep hk
  have hother : ∀ j, j ≠ k → callsOf j (.callback k :: calls) = callsOf j calls := fun j hj => by
    rw [callsOf_cons]
    exact if_neg (Ne.symm hj)
  refine ⟨hkeep.sublist, fun j hj => ?_, fun j hj hno => ?_, fun j hj => ?_⟩
  · by_cases hjk : j = k
    · subst hjk
      right
      rw [callsOf_cons, h.quiet j hk]
      exact if_pos rfl
    · rw [hother j hjk]
      exact hkeep.stays j hj
  · rw [hother j fun hjk => hno (hjk ▸ List.mem_cons_self)]
    exact hkeep.goes j hj hno
  · rw [hother j fun hjk => hj (hjk ▸ List.mem_cons_self)]
    exact hkeep.quiet j hj

/-- A rule in front that is cancelled. -/
theorem cancel (h : Phase ks kept calls) (hk : k ∉ ks) :
    Phase (k :: ks) kept (.cancel k :: calls) := by
  have hother : ∀ j, j ≠ k → callsOf j (.cancel k :: calls) = callsOf j calls := fun j hj => by
    rw [callsOf_cons]
    exact if_neg (Ne.symm hj)
  refine ⟨h.sublist.cons k, fun j hj => ?_, fun j hj hno => ?_, fun j hj => ?_⟩
  · rw [hother j fun hjk => hk (hjk ▸ h.sublist.subset hj)]
    exact h.stays j hj
  · by_cases hjk : j = k
    · subst hjk
      rw [callsOf_cons, h.quiet j hk]
      exact if_pos rfl
    · rw [hother j hjk]
      exact h.goes j ((List.mem_cons.mp hj).resolve_left hjk) hno
  · rw [List.mem_cons, not_or] at hj
    rw [hother j hj.1]
    exact h.quiet j hj.2

end Phase

theorem setUp_phase {ks : List κ} (hks : ks.Nodup) (s : σ) :
    Phase ks ((setUp spec ks s).1.map Prod.fst) (setUp spec ks s).2.2 ∧
      ∀ k ∈ (setUp spec ks s).1.map Prod.fst, callsOf k (setUp spec ks s).2.2 = [] := by
  induction ks generalizing s with
  | nil => exact ⟨Phase.idle [], fun _ h => absurd h List.not_mem_nil⟩
  | cons k ks ih =>
      obtain ⟨hk, hks⟩ := List.nodup_cons.mp hks
      rw [setUp]
      split
      · obtain ⟨hphase, hnone⟩ := ih hks ((spec k).cancel s)
        refine ⟨hphase.cancel hk, fun j hj => ?_⟩
        dsimp only at hj ⊢
        rw [callsOf_cons, hnone j hj]
        refine if_neg fun hjk => hk ?_
        rw [show k = j from hjk]
        exact hphase.sublist.subset hj
      · obtain ⟨hphase, hnone⟩ := ih hks s
        refine ⟨hphase.keep hk, fun j hj => ?_⟩
        rcases List.mem_cons.mp hj with rfl | hj
        · exact hphase.quiet _ hk
        · exact hnone j hj

theorem serve_phase (revents : κ → Revents) (input : ι) {polled : List (κ × Bool)}
    (hpolled : (polled.map Prod.fst).Nodup) (s : σ) :
    Phase (polled.map Prod.fst) (serve spec revents input polled s).1
      (serve spec revents input polled s).2.2.1 := by
  induction polled generalizing s with
  | nil => exact Phase.idle []
  | cons r polled ih =>
      obtain ⟨k, events⟩ := r
      rw [List.map_cons] at hpolled ⊢
      obtain ⟨hk, hrest⟩ := List.nodup_cons.mp hpolled
      rw [serve]
      dsimp only
      split
      · exact (Phase.idle _).keep hk
      · split
        · exact (ih hrest _).cancel hk
        · split
          · generalize (spec k).callback input s = r
            obtain ⟨s', what⟩ := r
            cases what with
            | some what => exact (Phase.idle _).call hk
            | none =>
                dsimp only
                split
                · exact (Phase.idle _).call hk
                · exact (ih hrest s').call hk
          · exact (ih hrest s).keep hk

/-- A call of `wait_next_event` is one phase. -/
theorem waitNextEvent_phase {l : Loop κ σ} (hl : l.rules.Nodup) (answer : Poll κ ι) :
    ∃ calls, (waitNextEvent spec l answer).1.calls = l.calls ++ calls ∧
      Phase l.rules (waitNextEvent spec l answer).1.rules calls := by
  obtain ⟨hset, hnone⟩ := setUp_phase spec hl l.state
  unfold waitNextEvent
  dsimp only
  split
  · exact ⟨_, rfl, hset⟩
  · cases answer with
    | timeout => exact ⟨_, rfl, hset⟩
    | interrupted => exact ⟨_, rfl, hset⟩
    | ready revents input =>
        have hserve := serve_phase spec revents input (hl.sublist hset.sublist)
          (setUp spec l.rules l.state).2.1
        refine ⟨_, List.append_assoc _ _ _, hserve.sublist.trans hset.sublist, fun k hk => ?_,
          fun k hk hno => ?_, fun k hk => ?_⟩
        · rw [callsOf_append, hnone k (hserve.sublist.subset hk), List.nil_append]
          exact hserve.stays k hk
        · rw [callsOf_append]
          by_cases hstays : k ∈ (setUp spec l.rules l.state).1.map Prod.fst
          · rw [hnone k hstays, hserve.goes k hstays hno, List.nil_append]
          · rw [hset.goes k hk hstays, hserve.quiet k hstays, List.append_nil]
        · rw [callsOf_append, hset.quiet k hk,
            hserve.quiet k fun h => hk (hset.sublist.subset h), List.append_nil]

/-- What happens to a loop: a call of `wait_next_event`, or a change of the state from outside. -/
inductive Event (κ σ ι : Type)
  | wait (answer : Poll κ ι)
  | outside (change : σ → σ)

def step (l : Loop κ σ) : Event κ σ ι → Loop κ σ
  | .wait answer => (waitNextEvent spec l answer).1
  | .outside change => { l with state := change l.state }

/-- The rules that were added, after a run. -/
structure Lives (ks : List κ) (l : Loop κ σ) : Prop where
  sublist : List.Sublist l.rules ks
  calls : ∀ k ∈ ks, ∃ n, callsOf k l.calls =
    List.replicate n (.callback k) ++ if k ∈ l.rules then [] else [.cancel k]

variable {spec}

theorem Lives.step {ks : List κ} (hks : ks.Nodup) {l : Loop κ σ} (h : Lives ks l)
    (e : Event κ σ ι) : Lives ks (step spec l e) := by
  cases e with
  | outside change => exact ⟨h.sublist, h.calls⟩
  | wait answer =>
      show Lives ks (waitNextEvent spec l answer).1
      obtain ⟨calls, hcalls, hphase⟩ := waitNextEvent_phase spec (hks.sublist h.sublist) answer
      refine ⟨hphase.sublist.trans h.sublist, fun k hk => ?_⟩
      obtain ⟨n, hn⟩ := h.calls k hk
      rw [hcalls, callsOf_append, hn]
      by_cases hrule : k ∈ l.rules
      · rw [if_pos hrule, List.append_nil]
        by_cases hkept : k ∈ (waitNextEvent spec l answer).1.rules
        · rw [if_pos hkept]
          rcases hphase.stays k hkept with hnone | hone
          · exact ⟨n, by rw [hnone]⟩
          · refine ⟨n + 1, ?_⟩
            rw [hone, List.replicate_succ', List.append_nil]
        · rw [if_neg hkept, hphase.goes k hrule hkept]
          exact ⟨n, rfl⟩
      · have hgone : k ∉ (waitNextEvent spec l answer).1.rules :=
          fun hkept => hrule (hphase.sublist.subset hkept)
        rw [if_neg hrule, if_neg hgone, hphase.quiet k hrule, List.append_nil]
        exact ⟨n, rfl⟩

/-- **The life of a rule.**  Over every run of a loop with distinct rules, whatever the polls
answer, the callbacks do or throw and the owner changes in between: the rules that are left are in
their order, the calls of a rule that is left are callbacks only, and those of a rule that is gone are
callbacks and then one cancel, after which it is never called again. -/
theorem rule_life {ks : List κ} (hks : ks.Nodup) (s : σ) (events : List (Event κ σ ι)) :
    let l := StepSystem.run (step spec) ⟨ks, s, []⟩ events
    List.Sublist l.rules ks ∧ ∀ k ∈ ks, ∃ n, callsOf k l.calls =
      List.replicate n (.callback k) ++ if k ∈ l.rules then [] else [.cancel k] := by
  have hlives : Lives ks (StepSystem.run (step spec) ⟨ks, s, []⟩ events) :=
    StepSystem.run_invariant (fun _ e h => h.step hks e) events
      ⟨List.Sublist.refl ks, fun k hk => ⟨0, by simp [callsOf, hk]⟩⟩
  exact ⟨hlives.sublist, hlives.calls⟩

/-- A rule that reads once. -/
def once : Unit → Rule FileDescriptor Unit Unit := fun _ =>
  { fd := id
    direction := .dirIn
    callback := fun _ fd => (fd.registerRead, none)
    interest := fun _ => true
    cancel := id }

/-- When its descriptor is closed it is cancelled, by one call of the two that follow. -/
theorem rule_life_closed :
    let l := StepSystem.run (step once) ⟨[()], {}, []⟩
      [.wait (.ready (fun _ => { pollIn := true }) ()), .outside FileDescriptor.close,
        .wait .timeout, .wait .timeout]
    ∃ n, callsOf () l.calls = List.replicate n (.callback ()) ++ [.cancel ()] := by
  have hlife : ∀ events : List (Event Unit FileDescriptor Unit),
      ∃ n, callsOf () (StepSystem.run (step once) ⟨[()], {}, []⟩ events).calls =
        List.replicate n (.callback ()) ++
          if () ∈ (StepSystem.run (step once) ⟨[()], {}, []⟩ events).rules then []
          else [.cancel ()] :=
    fun events => (rule_life (List.nodup_singleton ()) {} events).2 () List.mem_cons_self
  exact hlife _

end Life

end EventLoop

end CourseNet
