import Mathlib.Data.List.Infix
import Mathlib.Data.List.DropRight
import Mathlib.Tactic.Common

/-!
# Excerpts of a list

`Excerpt S i d` says that `d` is what `S` holds from index `i` on.  An empty list is an excerpt at
every index, also past the end; a non-empty one lies inside `S`.  The lemmas are the ways excerpts
are cut, glued to a prefix, and carried to a longer list.
-/

/-- The list `d` agrees with `S` from index `i` on. -/
def Excerpt {α : Type*} (S : List α) (i : ℕ) (d : List α) : Prop := d <+: S.drop i

namespace Excerpt

variable {α : Type*} {S T d : List α} {i : ℕ}

instance [DecidableEq α] (S : List α) (i : ℕ) (d : List α) : Decidable (Excerpt S i d) :=
  inferInstanceAs (Decidable (d <+: S.drop i))

@[simp] theorem nil (S : List α) (i : ℕ) : Excerpt S i [] := List.nil_prefix

theorem end_le (h : Excerpt S i d) (hd : d ≠ []) : i + d.length ≤ S.length := by
  have hlen := List.IsPrefix.length_le h
  have hpos := List.length_pos_iff.mpr hd
  rw [List.length_drop] at hlen
  omega

/-- An excerpt of a prefix is an excerpt of the whole. -/
theorem mono (hST : S <+: T) (h : Excerpt S i d) : Excerpt T i d := h.trans (hST.drop i)

theorem take (h : Excerpt S i d) (n : ℕ) : Excerpt S i (d.take n) := (List.take_prefix n d).trans h

theorem drop (h : Excerpt S i d) (n : ℕ) : Excerpt S (i + n) (d.drop n) := by
  have := List.IsPrefix.drop h n
  rwa [List.drop_drop] at this

/-- Glueing an excerpt to the prefix it starts at. -/
theorem take_append (h : Excerpt S i d) : S.take i ++ d = S.take (i + d.length) := by
  rw [List.take_add, ← List.prefix_iff_eq_take.mp h]

end Excerpt
