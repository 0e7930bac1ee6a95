import Mathlib.Data.List.Basic
import Mathlib.Order.Lattice

/-!
# The last of the best

Which element of a list a scan ends with that keeps a candidate until another one with at least its
key comes: among the elements that satisfy `p`, one whose key no other exceeds, and of these the
last.
-/

variable {α β : Type*} [LinearOrder β]

/-- The element `a`, at position `k`, is the last one of those with the greatest key that
satisfy `p`. -/
structure IsLastBest (p : α → Prop) (key : α → β) (l : List α) (k : ℕ) (a : α) : Prop where
  get : l[k]? = some a
  sat : p a
  best : ∀ b ∈ l, p b → key b ≤ key a
  last : ∀ j b, k < j → l[j]? = some b → p b → key b < key a

namespace IsLastBest

variable {p : α → Prop} {key : α → β} {l : List α} {k j : ℕ} {a b : α}

theorem mem (h : IsLastBest p key l k a) : a ∈ l := List.mem_of_getElem? h.get

theorem lt_length (h : IsLastBest p key l k a) : k < l.length :=
  (List.getElem?_eq_some_iff.mp h.get).1

/-- Of two, neither comes after the other. -/
theorem not_before (h : IsLastBest p key l k a) (h' : IsLastBest p key l j b) : ¬k < j :=
  fun hlt => (h.last j b hlt h'.get h'.sat).not_ge (h'.best a h.mem h.sat)

theorem unique (h : IsLastBest p key l k a) (h' : IsLastBest p key l j b) : k = j ∧ a = b := by
  obtain rfl : k = j :=
    Nat.le_antisymm (Nat.not_lt.mp (h'.not_before h)) (Nat.not_lt.mp (h.not_before h'))
  exact ⟨rfl, Option.some.inj (h.get.symm.trans h'.get)⟩

/-- The next element replaces the candidate. -/
theorem snoc_new (ha : p a) (hbest : ∀ b ∈ l, p b → key b ≤ key a) :
    IsLastBest p key (l ++ [a]) l.length a where
  get := List.getElem?_concat_length
  sat := ha
  best b hb hp := by
    rcases List.mem_append.mp hb with hb | hb
    · exact hbest b hb hp
    · rw [List.mem_singleton.mp hb]
  last j b hj hb _ := by
    rw [List.getElem?_eq_none (by simpa using Nat.succ_le_of_lt hj)] at hb
    nomatch hb

/-- The candidate outlives the next element. -/
theorem snoc_old (h : IsLastBest p key l k a) (hb : p b → key b < key a) :
    IsLastBest p key (l ++ [b]) k a where
  get := by rw [List.getElem?_append_left h.lt_length, h.get]
  sat := h.sat
  best c hc hp := by
    rcases List.mem_append.mp hc with hc | hc
    · exact h.best c hc hp
    · rw [List.mem_singleton.mp hc] at hp ⊢
      exact (hb hp).le
  last j c hj hc hp := by
    rcases Nat.lt_or_ge j l.length with hlt | hge
    · rw [List.getElem?_append_left hlt] at hc
      exact h.last j c hj hc hp
    · rw [List.getElem?_append_right hge] at hc
      obtain rfl : b = c := List.mem_singleton.mp (List.mem_of_getElem? hc) |>.symm
      exact hb hp

/-- Of equal elements the last one. -/
theorem replicate {n : ℕ} (hk : k + 1 = n) (ha : p a) :
    IsLastBest p key (List.replicate n a) k a := by
  have hlast : IsLastBest p key (List.replicate k a ++ [a]) _ a :=
    snoc_new ha fun b hb _ => (congrArg key (List.eq_of_mem_replicate hb)).le
  rwa [List.length_replicate, ← List.replicate_succ', hk] at hlast

end IsLastBest
