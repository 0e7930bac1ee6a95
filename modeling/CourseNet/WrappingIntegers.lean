import Mathlib.Algebra.Order.Group.Unbundled.Int
import Mathlib.Algebra.Order.Ring.Nat
import Mathlib.Tactic.Common

/-!
# 32-bit sequence numbers

`wrap` and `unwrap` of `wrapping_integers.cc`.  Absolute sequence numbers (`uint64_t`) are natural
numbers: a stream would need `2 ^ 64` bytes to leave that range.  The additions that can overflow
for an arbitrary checkpoint are reduced explicitly.
-/

namespace CourseNet

/-- A 32-bit integer relative to some initial sequence number. -/
structure WrappingInt32 where
  rawValue : UInt32
deriving DecidableEq, Repr

/-- `operator-(WrappingInt32, uint32_t)`: the point `b` steps before `a`. -/
def WrappingInt32.sub (a : WrappingInt32) (b : UInt32) : WrappingInt32 := ⟨a.rawValue - b⟩

/-- Absolute sequence number to relative one. -/
def wrap (n : ℕ) (isn : WrappingInt32) : WrappingInt32 := ⟨UInt32.ofNat n + isn.rawValue⟩

/-- Relative sequence number to the absolute one closest to `checkpoint`.  The source splices the
high word of the checkpoint with the offset, then moves by one period if that is closer. -/
def unwrap (n isn : WrappingInt32) (checkpoint : ℕ) : ℕ :=
  let offset := n.rawValue - isn.rawValue
  let t := checkpoint / 2 ^ 32 * 2 ^ 32 + offset.toNat
  let shift := 2 ^ 32
  if checkpoint < t then
    if shift / 2 < t - checkpoint then
      if shift ≤ t then t - shift else t
    else t
  else
    if shift / 2 < checkpoint - t then (t + shift) % 2 ^ 64 else t

theorem wrap_offset (x : ℕ) (isn : WrappingInt32) :
    ((wrap x isn).rawValue - isn.rawValue).toNat = x % 2 ^ 32 := by
  have hx : (wrap x isn).rawValue - isn.rawValue = UInt32.ofNat x := by
    rw [wrap, UInt32.add_sub_cancel]
  rw [hx, UInt32.toNat_ofNat']

theorem wrap_eq_iff {x : ℕ} {n isn : WrappingInt32} :
    wrap x isn = n ↔ x % 2 ^ 32 = (n.rawValue - isn.rawValue).toNat := by
  constructor
  · rintro rfl
    exact (wrap_offset x isn).symm
  · intro h
    obtain ⟨raw⟩ := n
    have hoff : UInt32.ofNat x = raw - isn.rawValue := by
      rw [← UInt32.toNat_inj, UInt32.toNat_ofNat', h]
    rw [wrap, hoff, UInt32.sub_add_cancel]

@[simp] theorem wrap_zero (isn : WrappingInt32) : wrap 0 isn = isn := by
  rw [wrap_eq_iff, UInt32.sub_self]
  rfl

/-- Whatever the checkpoint, `unwrap` is a preimage under `wrap`. -/
theorem wrap_unwrap (n isn : WrappingInt32) (checkpoint : ℕ) :
    wrap (unwrap n isn checkpoint) isn = n := by
  rw [wrap_eq_iff]
  have hlt := (n.rawValue - isn.rawValue).toNat_lt
  simp only [unwrap]
  split_ifs <;> omega

/-- Within half a period of the checkpoint `unwrap` recovers the wrapped number. -/
theorem unwrap_wrap {x checkpoint : ℕ} (isn : WrappingInt32) (hx : x < 2 ^ 64)
    (hlo : x < checkpoint + 2 ^ 31) (hhi : checkpoint < x + 2 ^ 31) :
    unwrap (wrap x isn) isn checkpoint = x := by
  simp only [unwrap, wrap_offset]
  split_ifs <;> omega

/-- At the checkpoint itself no bound is needed. -/
theorem unwrap_wrap_self (x : ℕ) (isn : WrappingInt32) : unwrap (wrap x isn) isn x = x := by
  simp only [unwrap, wrap_offset]
  split_ifs <;> omega

theorem wrap_inj {m n : ℕ} {isn : WrappingInt32} (hm : m < 2 ^ 32) (hn : n < 2 ^ 32)
    (h : wrap m isn = wrap n isn) : m = n := by
  have hmod := wrap_eq_iff.mp h
  rwa [wrap_offset, Nat.mod_eq_of_lt hm, Nat.mod_eq_of_lt hn] at hmod

/-- Far from the end of a period, one step back is one step back. -/
theorem wrap_eq_sub_one {n a : ℕ} {isn : WrappingInt32} (hn : n < 2 ^ 31) (ha : a < 2 ^ 31)
    (h : wrap n isn = (wrap a isn).sub 1) : n + 1 = a := by
  have hraw := congrArg (fun w : WrappingInt32 => w.rawValue.toNat) h
  have hone : (1 : UInt32).toNat = 1 := rfl
  have hbase := isn.rawValue.toNat_lt
  simp only [wrap, WrappingInt32.sub, UInt32.toNat_add, UInt32.toNat_sub, UInt32.toNat_ofNat',
    hone] at hraw
  omega

/-! ### The nearest preimage -/

/-- `r` is as close to the checkpoint as any 64-bit number that wraps to `n`. -/
def Nearest (n isn : WrappingInt32) (checkpoint r : ℕ) : Prop :=
  ∀ x : ℕ, x < 2 ^ 64 → wrap x isn = n → |(r : ℤ) - checkpoint| ≤ |(x : ℤ) - checkpoint|

/-- The addition of a period overflows: the checkpoint lies in the last period below `2 ^ 64`, and
its low word is more than half a period above the offset of `n`. -/
def PeriodOverflows (n isn : WrappingInt32) (checkpoint : ℕ) : Prop :=
  2 ^ 64 - 2 ^ 32 ≤ checkpoint ∧
    (n.rawValue - isn.rawValue).toNat + 2 ^ 31 < checkpoint % 2 ^ 32

section Nearest

variable {n isn : WrappingInt32} {checkpoint : ℕ}

theorem unwrap_nearest (hc : checkpoint < 2 ^ 64) (h : ¬PeriodOverflows n isn checkpoint) :
    Nearest n isn checkpoint (unwrap n isn checkpoint) := by
  intro x hx hwrap
  rw [wrap_eq_iff] at hwrap
  have hlt := (n.rawValue - isn.rawValue).toNat_lt
  rw [PeriodOverflows] at h
  simp only [unwrap, abs_eq_max_neg]
  generalize (n.rawValue - isn.rawValue).toNat = offset at *
  split_ifs <;> omega

/-- After the overflow the number with the high word of the checkpoint is closer. -/
theorem not_nearest (hc : checkpoint < 2 ^ 64) (h : PeriodOverflows n isn checkpoint) :
    ¬Nearest n isn checkpoint (unwrap n isn checkpoint) := by
  intro hnear
  have hlt := (n.rawValue - isn.rawValue).toNat_lt
  have hcloser := hnear (2 ^ 64 - 2 ^ 32 + (n.rawValue - isn.rawValue).toNat) (by omega)
    (by rw [wrap_eq_iff]; omega)
  rw [PeriodOverflows] at h
  simp only [unwrap, abs_eq_max_neg] at hcloser
  generalize (n.rawValue - isn.rawValue).toNat = offset at *
  split_ifs at hcloser <;> omega

end Nearest

/-- **`unwrap` is the nearest preimage.**  Whatever the checkpoint, `unwrap` gives a number that
wraps to `n`, and it recovers every number within half a period; no 64-bit preimage is closer if and
only if the addition of a period does not overflow. -/
theorem unwrap_nearest_iff (n isn : WrappingInt32) (checkpoint : ℕ) (hc : checkpoint < 2 ^ 64) :
    (wrap (unwrap n isn checkpoint) isn = n ∧ Nearest n isn checkpoint (unwrap n isn checkpoint) ∧
      ∀ x : ℕ, x < 2 ^ 64 → |(x : ℤ) - checkpoint| < 2 ^ 31 →
        unwrap (wrap x isn) isn checkpoint = x) ↔
      ¬PeriodOverflows n isn checkpoint := by
  constructor
  · intro h hover
    exact not_nearest hc hover h.2.1
  · intro h
    refine ⟨wrap_unwrap n isn checkpoint, unwrap_nearest hc h, fun x hx hdist => ?_⟩
    obtain ⟨hlo, hhi⟩ := abs_lt.mp hdist
    exact unwrap_wrap isn hx (by omega) (by omega)

/-- Four periods on, the number one step back from the checkpoint. -/
theorem unwrap_nearest_back :
    Nearest ⟨16⟩ ⟨17⟩ (4 * 2 ^ 32) (unwrap ⟨16⟩ ⟨17⟩ (4 * 2 ^ 32)) ∧
      unwrap ⟨16⟩ ⟨17⟩ (4 * 2 ^ 32) = 4 * 2 ^ 32 - 1 :=
  ⟨((unwrap_nearest_iff ⟨16⟩ ⟨17⟩ (4 * 2 ^ 32) (by decide)).mpr
    fun h => absurd h.1 (by decide)).2.1, by decide⟩

/-- At the last checkpoint the added period overflows: `unwrap` gives `0`, although
`2 ^ 64 - 2 ^ 32` wraps to the same number and is closer. -/
theorem unwrap_far :
    unwrap ⟨0⟩ ⟨0⟩ (2 ^ 64 - 1) = 0 ∧ wrap (2 ^ 64 - 2 ^ 32) ⟨0⟩ = ⟨0⟩ ∧
      ¬Nearest ⟨0⟩ ⟨0⟩ (2 ^ 64 - 1) (unwrap ⟨0⟩ ⟨0⟩ (2 ^ 64 - 1)) := by
  have hzero : unwrap ⟨0⟩ ⟨0⟩ (2 ^ 64 - 1) = 0 := by decide
  have hwrap : wrap (2 ^ 64 - 2 ^ 32) ⟨0⟩ = ⟨0⟩ := by decide
  refine ⟨hzero, hwrap, fun hnear => ?_⟩
  have hcloser := hnear (2 ^ 64 - 2 ^ 32) (by decide) hwrap
  rw [hzero] at hcloser
  exact absurd hcloser (by decide)

end CourseNet
