import Mathlib.Data.List.Basic
import Mathlib.Tactic.Common

/-!
# Runs of a deterministic step function

A system is a step function `step : σ → ι → σ`; a run folds it over a list of inputs.  Four rules
are all the later modules use: an invariant of one step is an invariant of a run, an invariant of
the *allowed* steps is an invariant of a guarded run, a preorder that every step respects relates
the ends of a run, and a system whose steps are matched by steps of another one is simulated by
it.
-/

namespace StepSystem

variable {σ ι : Type*} (step : σ → ι → σ)

/-- The state after the inputs `is`, taken in order. -/
def run (s : σ) (is : List ι) : σ := is.foldl step s

@[simp] theorem run_nil (s : σ) : run step s [] = s := rfl

@[simp] theorem run_cons (s : σ) (i : ι) (is : List ι) :
    run step s (i :: is) = run step (step s i) is := rfl

theorem run_append (s : σ) (is js : List ι) :
    run step s (is ++ js) = run step (run step s is) js := List.foldl_append

theorem run_snoc (s : σ) (is : List ι) (i : ι) :
    run step s (is ++ [i]) = step (run step s is) i := by
  rw [run_append, run_cons, run_nil]

/-- A state the inputs can lead to. -/
def Reachable (init s : σ) : Prop := ∃ is, s = run step init is

/-- Every input of the run is allowed in the state it meets. -/
def Guarded (ok : σ → ι → Prop) : σ → List ι → Prop
  | _, [] => True
  | s, i :: is => ok s i ∧ Guarded ok (step s i) is

instance Guarded.instDecidable (ok : σ → ι → Prop) [∀ s i, Decidable (ok s i)] :
    ∀ (s : σ) (is : List ι), Decidable (Guarded step ok s is)
  | _, [] => isTrue trivial
  | s, i :: is =>
      @instDecidableAnd _ _ _ (Guarded.instDecidable ok (step s i) is)

variable {step}

theorem Guarded.of_forall {ok : σ → ι → Prop} (h : ∀ s i, ok s i) (s : σ) (is : List ι) :
    Guarded step ok s is := by
  induction is generalizing s with
  | nil => trivial
  | cons i is ih => exact ⟨h s i, ih (step s i)⟩

theorem Guarded.mono {ok ok' : σ → ι → Prop} (himp : ∀ s i, ok s i → ok' s i) {s : σ} {is : List ι}
    (h : Guarded step ok s is) : Guarded step ok' s is := by
  induction is generalizing s with
  | nil => trivial
  | cons i is ih => exact ⟨himp s i h.1, ih h.2⟩

theorem Guarded.append {ok : σ → ι → Prop} {s : σ} {is js : List ι} (h : Guarded step ok s is)
    (h' : Guarded step ok (run step s is) js) : Guarded step ok s (is ++ js) := by
  induction is generalizing s with
  | nil => exact h'
  | cons i is ih => exact ⟨h.1, ih h.2 h'⟩

theorem Guarded.snoc_iff {ok : σ → ι → Prop} {s : σ} {is : List ι} {i : ι} :
    Guarded step ok s (is ++ [i]) ↔ Guarded step ok s is ∧ ok (run step s is) i := by
  induction is generalizing s with
  | nil => simp [Guarded]
  | cons j is ih => rw [List.cons_append, Guarded, Guarded, ih, and_assoc, run_cons]

theorem run_invariant {P : σ → Prop} (hstep : ∀ s i, P s → P (step s i)) {s : σ} (is : List ι)
    (hs : P s) : P (run step s is) := by
  induction is generalizing s with
  | nil => exact hs
  | cons i is ih => exact ih (hstep s i hs)

theorem Reachable.invariant {P : σ → Prop} (hstep : ∀ s i, P s → P (step s i)) {init s : σ}
    (h : Reachable step init s) (hinit : P init) : P s := by
  obtain ⟨is, rfl⟩ := h
  exact run_invariant hstep is hinit

theorem Guarded.invariant {ok : σ → ι → Prop} {P : σ → Prop}
    (hstep : ∀ s i, ok s i → P s → P (step s i)) {s : σ} {is : List ι}
    (h : Guarded step ok s is) (hs : P s) : P (run step s is) := by
  induction is generalizing s with
  | nil => exact hs
  | cons i is ih => exact ih h.2 (hstep s i h.1 hs)

/-- A reflexive and transitive relation that holds across every step holds across every run. -/
theorem run_rel {R : σ → σ → Prop} (hrefl : ∀ s, R s s)
    (htrans : ∀ {s t u}, R s t → R t u → R s u) (hstep : ∀ s i, R s (step s i)) (s : σ)
    (is : List ι) : R s (run step s is) := by
  induction is generalizing s with
  | nil => exact hrefl s
  | cons i is ih => exact htrans (hstep s i) (ih (step s i))

/-! ### Simulation -/

/-- If every allowed step is matched by some allowed steps of a second system, so is every run. -/
theorem Guarded.simulate {τ κ : Type*} {step' : τ → κ → τ} {ok : σ → ι → Prop} {ok' : τ → κ → Prop}
    {R : σ → τ → Prop}
    (hstep : ∀ s t i, R s t → ok s i →
      ∃ js, Guarded step' ok' t js ∧ R (step s i) (run step' t js))
    {s : σ} {t : τ} {is : List ι} (h : Guarded step ok s is) (hR : R s t) :
    ∃ js, Guarded step' ok' t js ∧ R (run step s is) (run step' t js) := by
  induction is generalizing s t with
  | nil => exact ⟨[], trivial, hR⟩
  | cons i is ih =>
      obtain ⟨js, hjs, hR'⟩ := hstep s t i hR h.1
      obtain ⟨ks, hks, hend⟩ := ih h.2 hR'
      exact ⟨js ++ ks, hjs.append hks, by rwa [run_append]⟩

end StepSystem
