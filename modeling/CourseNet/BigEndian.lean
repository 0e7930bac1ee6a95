import Mathlib.Algebra.Order.Ring.Nat
import Mathlib.Data.List.Basic
import Mathlib.Tactic.Common
import Mathlib.Tactic.Ring

/-!
# Numbers in network byte order

`ofNat len v` is the big-endian encoding of `v` in `len` bytes and `toNat` reads any byte string
back.  Encoding keeps `v` modulo `256 ^ len`.
-/

namespace BigEndian

/-- The bytes of `v`, most significant first. -/
def ofNat (len v : ℕ) : List UInt8 :=
  (List.range len).map fun i => UInt8.ofNat (v >>> ((len - i - 1) * 8))

/-- The number the bytes spell. -/
def toNat (bytes : List UInt8) : ℕ := bytes.foldl (fun n b => n * 256 + b.toNat) 0

@[simp] theorem length_ofNat (len v : ℕ) : (ofNat len v).length = len := by
  rw [ofNat, List.length_map, List.length_range]

theorem ofNat_succ (len v : ℕ) :
    ofNat (len + 1) v = UInt8.ofNat (v >>> (len * 8)) :: ofNat len v := by
  rw [ofNat, List.range_succ_eq_map, List.map_cons, List.map_map, ofNat]
  congr 1
  apply List.map_congr_left
  intro i _
  rw [Function.comp_apply, show len + 1 - Nat.succ i - 1 = len - i - 1 from by omega]

/-- Reading continues from whatever was read before. -/
theorem foldl_ofNat (len v n : ℕ) :
    (ofNat len v).foldl (fun n b => n * 256 + b.toNat) n = n * 256 ^ len + v % 256 ^ len := by
  induction len generalizing n with
  | zero => simp [ofNat, Nat.mod_one]
  | succ len ih =>
      have hhigh : (UInt8.ofNat (v >>> (len * 8))).toNat = v / 256 ^ len % 256 := by
        rw [UInt8.toNat_ofNat', Nat.shiftRight_eq_div_pow, Nat.mul_comm, Nat.pow_mul]
      rw [ofNat_succ, List.foldl_cons, ih, hhigh, Nat.pow_succ, Nat.mod_mul]
      ring

/-- What was written is read back, up to the width. -/
theorem toNat_ofNat (len v : ℕ) : toNat (ofNat len v) = v % 256 ^ len := by
  rw [toNat, foldl_ofNat, Nat.zero_mul, Nat.zero_add]

/-- A byte string spells a number of its width. -/
theorem toNat_lt (bytes : List UInt8) : toNat bytes < 256 ^ bytes.length := by
  suffices hfold : ∀ n, bytes.foldl (fun n b => n * 256 + b.toNat) n <
      (n + 1) * 256 ^ bytes.length by simpa [toNat] using hfold 0
  induction bytes with
  | nil => simp
  | cons b bytes ih =>
      intro n
      have hb := b.toNat_lt
      rw [List.foldl_cons, List.length_cons, Nat.pow_succ', ← Nat.mul_assoc]
      exact (ih _).trans_le (Nat.mul_le_mul_right _ (by omega))

/-- The digits in front count as many times the width as they spell. -/
theorem foldl_eq (bytes : List UInt8) (n : ℕ) :
    bytes.foldl (fun n b => n * 256 + b.toNat) n = n * 256 ^ bytes.length + toNat bytes := by
  induction bytes generalizing n with
  | nil => simp [toNat]
  | cons b bytes ih =>
      rw [toNat, List.foldl_cons, List.foldl_cons, ih, ih (0 * 256 + b.toNat), List.length_cons,
        Nat.pow_succ]
      ring

/-- A byte string is the encoding of the number it spells. -/
theorem ofNat_toNat (bytes : List UInt8) : ofNat bytes.length (toNat bytes) = bytes := by
  suffices hall : ∀ n, ofNat bytes.length (n * 256 ^ bytes.length + toNat bytes) = bytes by
    simpa using hall 0
  induction bytes with
  | nil => exact fun n => rfl
  | cons b bytes ih =>
      intro n
      have hspell : n * 256 ^ (bytes.length + 1) + toNat (b :: bytes) =
          (n * 256 + b.toNat) * 256 ^ bytes.length + toNat bytes := by
        rw [toNat, List.foldl_cons, foldl_eq, Nat.pow_succ]
        ring
      have hhead : UInt8.ofNat (((n * 256 + b.toNat) * 256 ^ bytes.length + toNat bytes) >>>
          (bytes.length * 8)) = b := by
        rw [Nat.shiftRight_eq_div_pow, Nat.mul_comm bytes.length, Nat.pow_mul, Nat.add_comm,
          Nat.add_mul_div_right _ _ (Nat.pow_pos (by decide)), Nat.div_eq_of_lt (toNat_lt bytes)]
        have hb := b.toNat_lt
        refine UInt8.toNat_inj.mp ?_
        rw [UInt8.toNat_ofNat']
        omega
      rw [List.length_cons, hspell, ofNat_succ, hhead, ih]

end BigEndian
