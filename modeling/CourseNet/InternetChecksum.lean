import CourseNet.BigEndian

/-!
# The Internet checksum

A running 32-bit sum of big-endian 16-bit words; the parity tells whether the next byte is the low
half of a word, so bytes may be added in pieces of any length.  `value` folds the sum to 16 bits and
complements it.  On numbers, `wordSum` is what a byte string contributes and `fold` is the residue
modulo `65535` that represents a nonzero multiple by `65535` itself.
-/

/-- The running sum, and whether an odd number of bytes was added. -/
structure InternetChecksum where
  sum : UInt32
  parity : Bool
deriving DecidableEq, Repr

namespace InternetChecksum

def new (initialSum : UInt32) : InternetChecksum := ⟨initialSum, false⟩

/-- One turn of the loop of `add`. -/
def addByte (c : InternetChecksum) (b : UInt8) : InternetChecksum where
  sum := c.sum + (if c.parity then b.toUInt16 else b.toUInt16 <<< 8).toUInt32
  parity := !c.parity

def add (c : InternetChecksum) (data : List UInt8) : InternetChecksum := data.foldl addByte c

/-- The loop `while (ret > 0xffff)`, for at most the given number of turns. -/
def foldLoop : ℕ → UInt32 → UInt32
  | 0, ret => ret
  | turns + 1, ret =>
      if 0xffff < ret then foldLoop turns ((ret >>> 16) + (ret &&& 0xffff)) else ret

/-- The one's complement of the folded sum; every turn makes the sum smaller, so `sum` turns are
enough. -/
def value (c : InternetChecksum) : UInt16 := (~~~(foldLoop c.sum.toNat c.sum)).toUInt16

/-! ### The sum -/

/-- What a byte string adds when `parity` says that its first byte is the low half of a word. -/
def wordSum : Bool → List UInt8 → ℕ
  | _, [] => 0
  | true, b :: bytes => b.toNat + wordSum false bytes
  | false, b :: bytes => b.toNat * 256 + wordSum true bytes

/-- The parity after `n` more bytes. -/
def parityAfter (parity : Bool) (n : ℕ) : Bool := if n % 2 = 0 then parity else !parity

theorem parityAfter_succ (parity : Bool) (n : ℕ) :
    parityAfter (!parity) n = parityAfter parity (n + 1) := by
  unfold parityAfter
  rcases Nat.mod_two_eq_zero_or_one n with h | h
  · rw [if_pos h, if_neg (by omega)]
  · rw [if_neg (by omega), if_pos (by omega), Bool.not_not]

theorem wordSum_append (parity : Bool) (xs ys : List UInt8) :
    wordSum parity (xs ++ ys) =
      wordSum parity xs + wordSum (parityAfter parity xs.length) ys := by
  induction xs generalizing parity with
  | nil => simp [wordSum, parityAfter]
  | cons b xs ih =>
      rw [List.cons_append, List.length_cons, ← parityAfter_succ]
      cases parity
      · rw [wordSum, wordSum, ih, Nat.add_assoc, Bool.not_false]
      · rw [wordSum, wordSum, ih, Nat.add_assoc, Bool.not_true]

/-- Every word is at most `65535`; a low half alone is at most `255`. -/
theorem wordSum_le (bytes : List UInt8) :
    wordSum false bytes ≤ 65535 * ((bytes.length + 1) / 2) ∧
      wordSum true bytes ≤ 255 + 65535 * (bytes.length / 2) := by
  induction bytes with
  | nil => exact ⟨Nat.zero_le _, Nat.zero_le _⟩
  | cons b bytes ih =>
      have hb := b.toNat_lt
      rw [wordSum, wordSum, List.length_cons]
      omega

/-- A 16-bit field at an even offset adds its value. -/
theorem wordSum_field (v : ℕ) (bytes : List UInt8) :
    wordSum false (BigEndian.ofNat 2 v ++ bytes) = v % 65536 + wordSum false bytes := by
  have hfield : BigEndian.ofNat 2 v = [UInt8.ofNat (v >>> 8), UInt8.ofNat (v >>> 0)] := rfl
  rw [hfield, List.cons_append, List.singleton_append, wordSum, wordSum, UInt8.toNat_ofNat',
    UInt8.toNat_ofNat', Nat.shiftRight_eq_div_pow, Nat.shiftRight_zero]
  omega

theorem addByte_sum (c : InternetChecksum) (b : UInt8) :
    (c.addByte b).sum.toNat = (c.sum.toNat + wordSum c.parity [b]) % 2 ^ 32 := by
  have hb := b.toNat_lt
  rw [addByte, UInt32.toNat_add, UInt16.toNat_toUInt32]
  cases c.parity
  · have hshift : (b.toUInt16 <<< 8).toNat = b.toNat * 256 := by
      rw [UInt16.toNat_shiftLeft, UInt8.toNat_toUInt16, Nat.shiftLeft_eq,
        show UInt16.toNat 8 % 16 = 8 from rfl]
      exact Nat.mod_eq_of_lt (by omega)
    rw [if_neg Bool.false_ne_true, hshift, wordSum, wordSum, Nat.add_zero]
  · rw [if_pos rfl, UInt8.toNat_toUInt16, wordSum, wordSum, Nat.add_zero]

theorem add_append (c : InternetChecksum) (xs ys : List UInt8) :
    c.add (xs ++ ys) = (c.add xs).add ys := List.foldl_append

/-- Bytes may be added in pieces. -/
theorem foldl_add (c : InternetChecksum) (pieces : List (List UInt8)) :
    pieces.foldl add c = c.add pieces.flatten := by
  induction pieces generalizing c with
  | nil => rfl
  | cons piece pieces ih => rw [List.foldl_cons, ih, List.flatten_cons, add_append]

/-- The running sum after any bytes, modulo its width. -/
theorem add_sum (c : InternetChecksum) (data : List UInt8) :
    (c.add data).sum.toNat = (c.sum.toNat + wordSum c.parity data) % 2 ^ 32 := by
  induction data generalizing c with
  | nil => simp [add, wordSum, Nat.mod_eq_of_lt c.sum.toNat_lt]
  | cons b data ih =>
      show ((c.addByte b).add data).sum.toNat = _
      have happend := wordSum_append c.parity [b] data
      rw [List.singleton_append] at happend
      rw [ih, addByte_sum, happend, Nat.mod_add_mod, Nat.add_assoc]
      rfl

/-! ### Folding -/

/-- The representative of `n` modulo `65535` in `1 .. 65535`, and zero for zero. -/
def fold (n : ℕ) : ℕ := if n = 0 then 0 else (n - 1) % 65535 + 1

theorem fold_le (n : ℕ) : fold n ≤ 65535 := by
  unfold fold
  split <;> omega

theorem fold_of_le {n : ℕ} (h : n ≤ 65535) : fold n = n := by
  unfold fold
  split <;> omega

/-- One turn: the high half is carried into the low half. -/
theorem foldTurn_toNat (ret : UInt32) :
    ((ret >>> 16) + (ret &&& 0xffff)).toNat = ret.toNat / 65536 + ret.toNat % 65536 := by
  have hret := ret.toNat_lt
  have hlow : ret.toNat &&& 65535 = ret.toNat % 65536 := Nat.and_two_pow_sub_one_eq_mod _ 16
  have hhigh : (ret >>> 16).toNat = ret.toNat / 65536 := by
    rw [UInt32.toNat_shiftRight, Nat.shiftRight_eq_div_pow]
    rfl
  rw [UInt32.toNat_add, UInt32.toNat_and, hhigh, show (0xffff : UInt32).toNat = 65535 from rfl,
    hlow]
  exact Nat.mod_eq_of_lt (by omega)

/-- The loop stops at 16 bits. -/
theorem foldLoop_of_le {ret : UInt32} (h : ret.toNat ≤ 65535) (turns : ℕ) :
    foldLoop turns ret = ret := by
  cases turns with
  | zero => rfl
  | succ turns =>
      rw [foldLoop, if_neg fun hlarge => ?_]
      have hlarge' : 65535 < ret.toNat := UInt32.lt_iff_toNat_lt.mp hlarge
      omega

theorem foldLoop_of_lt {ret : UInt32} (h : 65535 < ret.toNat) (turns : ℕ) :
    foldLoop (turns + 1) ret = foldLoop turns ((ret >>> 16) + (ret &&& 0xffff)) := by
  have hlarge : 0xffff < ret := UInt32.lt_iff_toNat_lt.mpr h
  rw [foldLoop, if_pos hlarge]

/-- The halves of a number have its representative. -/
theorem fold_halves (n : ℕ) : fold (n / 65536 + n % 65536) = fold n := by
  unfold fold
  split_ifs <;> omega

/-- A 32-bit sum is folded to the representative in two turns, and stays there. -/
theorem foldLoop_two_turns (turns : ℕ) (ret : UInt32) :
    (foldLoop (turns + 2) ret).toNat = fold ret.toNat := by
  have hret := ret.toNat_lt
  have hturn := foldTurn_toNat ret
  rcases Nat.lt_or_ge 65535 ret.toNat with hlarge | hsmall
  · rw [foldLoop_of_lt hlarge, ← fold_halves ret.toNat, ← hturn]
    rcases Nat.lt_or_ge 65535 ((ret >>> 16) + (ret &&& 0xffff)).toNat with hlarge' | hsmall'
    · have hturn' := foldTurn_toNat ((ret >>> 16) + (ret &&& 0xffff))
      rw [foldLoop_of_lt hlarge', ← fold_halves, ← hturn', foldLoop_of_le (by omega),
        fold_of_le (by omega)]
    · rw [foldLoop_of_le hsmall', fold_of_le hsmall']
  · rw [foldLoop_of_le hsmall, fold_of_le hsmall]

/-- The loop ends with the representative. -/
theorem foldLoop_toNat (turns : ℕ) {ret : UInt32} (h : ret.toNat ≤ turns) :
    (foldLoop turns ret).toNat = fold ret.toNat := by
  match turns with
  | 0 => rw [foldLoop_of_le (by omega), fold_of_le (by omega)]
  | 1 => rw [foldLoop_of_le (by omega), fold_of_le (by omega)]
  | turns + 2 => exact foldLoop_two_turns turns ret

/-- The value is the complement of the folded sum. -/
theorem value_toNat (c : InternetChecksum) : c.value.toNat = 65535 - fold c.sum.toNat := by
  have hloop := foldLoop_toNat c.sum.toNat (le_refl c.sum.toNat)
  have hle := fold_le c.sum.toNat
  rw [value, UInt32.toNat_toUInt16, UInt32.toNat_not, hloop, show UInt32.size = 4294967296 from rfl]
  omega

/-- A sum verifies when it is a nonzero multiple of `65535`. -/
theorem value_eq_zero_iff (c : InternetChecksum) :
    c.value = 0 ↔ c.sum.toNat ≠ 0 ∧ c.sum.toNat % 65535 = 0 := by
  have hvalue := c.value_toNat
  have hiff : c.value = 0 ↔ c.value.toNat = 0 := by
    rw [← UInt16.toNat_inj]
    rfl
  rw [hiff, hvalue, fold]
  split <;> omega

/-- **A checksum verifies itself.**  Adding the value to the sum it was computed from gives a sum
that verifies. -/
theorem value_verifies {c c' : InternetChecksum}
    (h : c'.sum.toNat = c.sum.toNat + c.value.toNat) : c'.value = 0 := by
  rw [value_eq_zero_iff, h, value_toNat, fold]
  split <;> omega

/-! ### One's complement -/

/-- The 16-bit words of a byte string; an odd last byte is the high half of a word. -/
def words : List UInt8 → List ℕ
  | [] => []
  | [high] => [high.toNat * 256]
  | high :: low :: bytes => (high.toNat * 256 + low.toNat) :: words bytes

theorem words_sum (bytes : List UInt8) : (words bytes).sum = wordSum false bytes := by
  induction bytes using words.induct with
  | case1 => rfl
  | case2 high => simp [words, wordSum]
  | case3 high low bytes ih =>
      rw [words, List.sum_cons, ih, wordSum, wordSum, Nat.add_assoc]

theorem words_le {bytes : List UInt8} {w : ℕ} (h : w ∈ words bytes) : w ≤ 65535 := by
  induction bytes using words.induct with
  | case1 => exact absurd h List.not_mem_nil
  | case2 high =>
      have hhigh := high.toNat_lt
      rw [List.mem_singleton.mp h]
      omega
  | case3 high low bytes ih =>
      rcases List.mem_cons.mp h with rfl | h
      · have hhigh := high.toNat_lt
        have hlow := low.toNat_lt
        omega
      · exact ih h

/-- Addition of 16-bit words with end-around carry. -/
def endAround (x y : ℕ) : ℕ := if x + y ≤ 65535 then x + y else x + y - 65535

/-- The one's-complement sum of words. -/
def onesSum (ws : List ℕ) : ℕ := ws.foldl endAround 0

/-- Folding turns addition into addition with end-around carry. -/
theorem fold_add (m n : ℕ) : fold (m + n) = endAround (fold m) (fold n) := by
  unfold fold endAround
  split_ifs <;> omega

theorem foldl_endAround {ws : List ℕ} (h : ∀ w ∈ ws, w ≤ 65535) (n : ℕ) :
    ws.foldl endAround (fold n) = fold (n + ws.sum) := by
  induction ws generalizing n with
  | nil => rfl
  | cons w ws ih =>
      have hw : fold w = w := fold_of_le (h w List.mem_cons_self)
      rw [List.foldl_cons, List.sum_cons, ← Nat.add_assoc,
        ← ih (fun v hv => h v (List.mem_cons_of_mem _ hv)), fold_add, hw]

/-- The one's-complement sum is the folded sum. -/
theorem onesSum_eq {ws : List ℕ} (h : ∀ w ∈ ws, w ≤ 65535) : onesSum ws = fold ws.sum := by
  have hfold := foldl_endAround h 0
  rwa [Nat.zero_add] at hfold

/-! ### A field for the checksum -/

section

variable {c : InternetChecksum} {front rest : List UInt8}

/-- What a byte string with a 16-bit field at an even offset contributes. -/
theorem wordSum_with_field (v : ℕ) (hfront : front.length % 2 = 0) :
    wordSum false (front ++ (BigEndian.ofNat 2 v ++ rest)) =
      wordSum false front + (v % 65536 + wordSum false rest) := by
  have hparity : parityAfter false front.length = false := if_pos hfront
  rw [wordSum_append, hparity, wordSum_field]

/-- **A checksum field filled in.**  The value over a byte string with zero in the field, written
into the field, makes the byte string verify, as long as the sum leaves room for one more word. -/
theorem filled_verifies (front rest : List UInt8) (hc : c.parity = false)
    (hfront : front.length % 2 = 0)
    (hroom : c.sum.toNat + wordSum false (front ++ (BigEndian.ofNat 2 0 ++ rest)) ≤
      2 ^ 32 - 2 ^ 16) :
    (c.add (front ++ (BigEndian.ofNat 2
      (c.add (front ++ (BigEndian.ofNat 2 0 ++ rest))).value.toNat ++ rest))).value = 0 := by
  have hvalue := (c.add (front ++ (BigEndian.ofNat 2 0 ++ rest))).value.toNat_lt
  refine value_verifies (c := c.add (front ++ (BigEndian.ofNat 2 0 ++ rest))) ?_
  rw [wordSum_with_field _ hfront] at hroom
  rw [add_sum, add_sum, hc, wordSum_with_field _ hfront, wordSum_with_field _ hfront,
    Nat.mod_eq_of_lt hvalue, Nat.mod_eq_of_lt (by omega), Nat.mod_eq_of_lt (by omega)]
  omega

/-- The room in terms of the lengths. -/
theorem add_filled_verifies (front rest : List UInt8) (hc : c.parity = false)
    (hfront : front.length % 2 = 0)
    (hroom : c.sum.toNat + 65535 * ((front.length + rest.length) / 2 + 2) < 2 ^ 32) :
    (c.add (front ++ (BigEndian.ofNat 2
      (c.add (front ++ (BigEndian.ofNat 2 0 ++ rest))).value.toNat ++ rest))).value = 0 := by
  refine filled_verifies front rest hc hfront ?_
  have hleFront := (wordSum_le front).1
  have hleRest := (wordSum_le rest).1
  rw [wordSum_with_field _ hfront]
  omega

end

end InternetChecksum
