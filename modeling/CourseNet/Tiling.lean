import Mathlib.Algebra.Order.Ring.Nat
import Mathlib.Data.List.Basic
import Mathlib.Tactic.Common

/-!
# Consecutive intervals

`placed len start xs` lays items of given lengths one behind the other on the number line, from
`start` on; together they cover `total len xs` numbers.  `beyond` keeps the items that end past a
bound: they are consecutive themselves, so their lengths add up to the distance from the first of
them to the end.
-/

namespace Tiling

variable {α : Type*} (len : α → ℕ)

/-- The numbers that the items cover together. -/
def total (xs : List α) : ℕ := (xs.map len).sum

/-- The items with the numbers at which they start. -/
def placed : ℕ → List α → List (ℕ × α)
  | _, [] => []
  | start, x :: xs => (start, x) :: placed (start + len x) xs

/-- The placed items that end past `bound`. -/
def beyond (bound start : ℕ) (xs : List α) : List (ℕ × α) :=
  (placed len start xs).filter fun e => decide (bound < e.1 + len e.2)

variable {len}

theorem total_cons (x : α) (xs : List α) : total len (x :: xs) = len x + total len xs := by
  rw [total, List.map_cons, List.sum_cons]
  rfl

theorem total_append (xs ys : List α) : total len (xs ++ ys) = total len xs + total len ys := by
  rw [total, List.map_append, List.sum_append]
  rfl

theorem total_singleton (x : α) : total len [x] = len x := by
  rw [total, List.map_singleton, List.sum_singleton]

theorem placed_append (start : ℕ) (xs ys : List α) :
    placed len start (xs ++ ys) = placed len start xs ++ placed len (start + total len xs) ys := by
  induction xs generalizing start with
  | nil => rfl
  | cons x xs ih =>
      rw [List.cons_append, placed, placed, ih, total_cons, Nat.add_assoc]
      rfl

/-- The last item starts where the others end. -/
theorem placed_snoc (start : ℕ) (xs : List α) (x : α) :
    placed len start (xs ++ [x]) = placed len start xs ++ [(start + total len xs, x)] :=
  placed_append start xs [x]

theorem mem_of_mem_placed {start : ℕ} {xs : List α} {e : ℕ × α} (h : e ∈ placed len start xs) :
    e.2 ∈ xs := by
  induction xs generalizing start with
  | nil => exact absurd h List.not_mem_nil
  | cons x xs ih =>
      rcases List.mem_cons.mp h with rfl | h
      · exact List.mem_cons_self
      · exact List.mem_cons_of_mem _ (ih h)

/-- Every item lies within what is covered. -/
theorem placed_bounds {start : ℕ} {xs : List α} {e : ℕ × α} (h : e ∈ placed len start xs) :
    start ≤ e.1 ∧ e.1 + len e.2 ≤ start + total len xs := by
  induction xs generalizing start with
  | nil => exact absurd h List.not_mem_nil
  | cons x xs ih =>
      rw [total_cons]
      rcases List.mem_cons.mp h with rfl | h
      · refine ⟨le_refl _, ?_⟩
        show start + len x ≤ _
        omega
      · obtain ⟨hlo, hhi⟩ := ih h
        exact ⟨by omega, by omega⟩

theorem beyond_snoc {bound : ℕ} (start : ℕ) (xs : List α) {x : α}
    (h : bound < start + total len xs + len x) :
    beyond len bound start (xs ++ [x]) =
      beyond len bound start xs ++ [(start + total len xs, x)] := by
  rw [beyond, placed_snoc, List.filter_append, List.filter_singleton, decide_eq_true h]
  rfl

/-- A higher bound drops the items that it covers. -/
theorem beyond_filter (bound bound' start : ℕ) (xs : List α) :
    ((beyond len bound start xs).filter fun e => !decide (e.1 + len e.2 ≤ bound')) =
      beyond len (max bound bound') start xs := by
  rw [beyond, beyond, List.filter_filter]
  refine List.filter_congr fun e _ => ?_
  rw [← decide_not, ← Bool.decide_and, decide_eq_decide, not_le, max_lt_iff, and_comm]

/-- No item is dropped if the first one ends past the bound. -/
theorem beyond_of_lt {bound start : ℕ} {xs : List α} (h : bound < start) :
    beyond len bound start xs = placed len start xs := by
  refine List.filter_eq_self.mpr fun e he => decide_eq_true ?_
  have hlo := (placed_bounds he).1
  omega

theorem placed_total (start : ℕ) (xs : List α) :
    ((placed len start xs).map fun e => len e.2).sum = total len xs := by
  induction xs generalizing start with
  | nil => rfl
  | cons x xs ih => rw [placed, List.map_cons, List.sum_cons, ih, total_cons]

/-- The items past a bound reach from the first of them to the end. -/
theorem beyond_total (len : α → ℕ) (bound start : ℕ) (xs : List α) :
    ((beyond len bound start xs).map fun e => len e.2).sum =
      (beyond len bound start xs).head?.elim 0 fun e => start + total len xs - e.1 := by
  induction xs generalizing start with
  | nil => rfl
  | cons x xs ih =>
      rw [beyond, placed, List.filter_cons]
      by_cases h : bound < start + len x
      · have hrest : (placed len (start + len x) xs).filter
            (fun e => decide (bound < e.1 + len e.2)) = placed len (start + len x) xs :=
          beyond_of_lt h
        rw [if_pos (decide_eq_true h), hrest, List.map_cons, List.sum_cons, placed_total,
          List.head?_cons, total_cons]
        exact (Nat.add_sub_cancel_left _ _).symm
      · have hrest := ih (start + len x)
        rw [Nat.add_assoc, ← total_cons] at hrest
        rw [if_neg (by simpa using h)]
        exact hrest

end Tiling
