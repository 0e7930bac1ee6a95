import CourseNet.InternetChecksum

/-!
# The checksum of a packet in pieces

`TCPSegment::serialize` and its siblings add a header and a payload one after the other and write
the value into a field of the header.  The value depends on the concatenation alone, it is the
complement of the one's-complement sum, and the packet with the field filled in verifies.
-/

namespace CourseNet

open InternetChecksum

/-- The 16-bit words that the initial sum and the bytes contribute. -/
def checksumWords (initialSum : UInt32) (bytes : List UInt8) : List ℕ :=
  initialSum.toNat / 65536 :: initialSum.toNat % 65536 :: words bytes

theorem checksumWords_le {initialSum : UInt32} {bytes : List UInt8} {w : ℕ}
    (h : w ∈ checksumWords initialSum bytes) : w ≤ 65535 := by
  have hsum := initialSum.toNat_lt
  rcases List.mem_cons.mp h with rfl | h
  · omega
  rcases List.mem_cons.mp h with rfl | h
  · omega
  · exact words_le h

/-- The folded sum is the one's-complement sum, if the running sum does not overflow. -/
theorem fold_add_sum {initialSum : UInt32} {bytes : List UInt8}
    (hroom : initialSum.toNat + (words bytes).sum < 2 ^ 32) :
    fold ((new initialSum).add bytes).sum.toNat = onesSum (checksumWords initialSum bytes) := by
  have hsum : ((new initialSum).add bytes).sum.toNat =
      initialSum.toNat + (words bytes).sum := by
    rw [add_sum, words_sum]
    exact Nat.mod_eq_of_lt (words_sum bytes ▸ hroom)
  rw [hsum, onesSum_eq fun w hw => checksumWords_le hw, checksumWords, List.sum_cons,
    List.sum_cons, ← Nat.add_assoc, fold_add, ← fold_halves initialSum.toNat, ← fold_add]

/-- **The checksum of pieces.**  For every initial sum and every list of byte strings whose words
leave room in the running sum: adding the pieces in order gives the value of their concatenation;
from its second turn on the folding loop has stopped, at the one's-complement sum, and the value is
the complement of it; and if a two-byte field at an even offset was zero, writing the value into it
makes the whole verify. -/
theorem checksum_of_pieces (initialSum : UInt32) (pieces : List (List UInt8))
    (hroom : initialSum.toNat + (words pieces.flatten).sum < 2 ^ 32 - 2 ^ 16) :
    let whole := (new initialSum).add pieces.flatten
    (pieces.foldl add (new initialSum)).value = whole.value ∧
    (∀ turns, (foldLoop (turns + 2) whole.sum).toNat =
        onesSum (checksumWords initialSum pieces.flatten) ∧
      ¬0xffff < foldLoop (turns + 2) whole.sum) ∧
    whole.value.toNat = 65535 - onesSum (checksumWords initialSum pieces.flatten) ∧
    ∀ front rest, front.length % 2 = 0 → pieces.flatten = front ++ 0 :: 0 :: rest →
      ((new initialSum).add
        (front ++ (BigEndian.ofNat 2 whole.value.toNat ++ rest))).value = 0 := by
  intro whole
  have hfold : fold whole.sum.toNat = onesSum (checksumWords initialSum pieces.flatten) :=
    fold_add_sum (hroom.trans (by decide))
  refine ⟨congrArg value (foldl_add _ pieces), fun turns => ?_, ?_,
    fun front rest hfront hzero => ?_⟩
  · have hloop := foldLoop_two_turns turns whole.sum
    have hle := fold_le whole.sum.toNat
    refine ⟨hloop.trans hfold, fun hlarge => ?_⟩
    have hlarge' : 65535 < (foldLoop (turns + 2) whole.sum).toNat :=
      UInt32.lt_iff_toNat_lt.mp hlarge
    omega
  · rw [← hfold]
    exact whole.value_toNat
  · have hwhole : whole = (new initialSum).add (front ++ (BigEndian.ofNat 2 0 ++ rest)) := by
      show (new initialSum).add pieces.flatten = _
      rw [hzero]
      rfl
    rw [hwhole]
    refine filled_verifies front rest rfl hfront ?_
    rw [words_sum, hzero] at hroom
    exact hroom.le

/-- Three pieces of odd length with the field across two of them. -/
theorem checksum_of_pieces_odd :
    let pieces : List (List UInt8) := [[1, 2, 0], [0, 255, 7, 8], [9]]
    let whole := (new 0x7fff1234).add pieces.flatten
    (pieces.foldl add (new 0x7fff1234)).value = whole.value ∧
      ((new 0x7fff1234).add
        ([1, 2] ++ (BigEndian.ofNat 2 whole.value.toNat ++ [255, 7, 8, 9]))).value = 0 := by
  have hall := checksum_of_pieces 0x7fff1234 [[1, 2, 0], [0, 255, 7, 8], [9]] (by decide)
  exact ⟨hall.1, hall.2.2.2 [1, 2] [255, 7, 8, 9] rfl rfl⟩

end CourseNet
