import Mathlib.Algebra.Order.Ring.Int
import Mathlib.Data.List.TakeWhile
import Mathlib.Tactic.Common

/-!
# Integers as decimal text

`toString` and `stoi` are `std::to_string` and `std::stoi` for a 32-bit `int`.  `stoi` is lenient:
it skips white space, stops at the first character that is no digit, and throws only if there was no
digit at all or the value does not fit.  `decimal?` accepts exactly the texts that are a decimal
integer, and agrees with `stoi` on them.
-/

namespace DecimalText

/-- The two exceptions of `std::stoi`. -/
inductive StoiError
  | invalidArgument
  | outOfRange
deriving DecidableEq

def isSpace (b : UInt8) : Bool := b == 32 || (9 ≤ b && b ≤ 13)

def isDigit (b : UInt8) : Bool := 48 ≤ b && b ≤ 57

/-- The number a string of digits spells. -/
def value (ds : List UInt8) : ℕ := ds.foldl (fun n d => n * 10 + (d.toNat - 48)) 0

/-- An optional sign: whether it was a minus, and the rest. -/
def sign : List UInt8 → Bool × List UInt8
  | 45 :: ds => (true, ds)
  | 43 :: ds => (false, ds)
  | ds => (false, ds)

def signed (negative : Bool) (ds : List UInt8) : ℤ :=
  if negative then -(value ds : ℤ) else value ds

/-- The range of `int`. -/
def Fits (v : ℤ) : Prop := -2 ^ 31 ≤ v ∧ v < 2 ^ 31

instance : DecidablePred Fits := fun _ => inferInstanceAs (Decidable (_ ∧ _))

/-- `std::stoi`. -/
def stoi (s : List UInt8) : Except StoiError ℤ :=
  let (negative, rest) := sign (s.dropWhile isSpace)
  let digits := rest.takeWhile isDigit
  if digits = [] then .error .invalidArgument
  else if Fits (signed negative digits) then .ok (signed negative digits)
  else .error .outOfRange

/-- The value of a text that is a decimal integer in the range of `int`. -/
def decimal? (s : List UInt8) : Option ℤ :=
  let (negative, digits) := sign s
  if digits ≠ [] ∧ digits.all isDigit ∧ Fits (signed negative digits) then
    some (signed negative digits)
  else none

/-- `std::to_string`. -/
def toString : ℤ → List UInt8
  | .ofNat n => (Nat.toDigits 10 n).map fun c => UInt8.ofNat c.toNat
  | .negSucc n => 45 :: (Nat.toDigits 10 (n + 1)).map fun c => UInt8.ofNat c.toNat

example : stoi [32, 43, 49, 50, 120] = .ok 12 ∧ decimal? [32, 43, 49, 50, 120] = none := by decide

end DecimalText
