import MachinedRs.Foundation.Bytes
import Mathlib.Algebra.Order.Ring.Int

/-!
# Numbers of a fixed width

Signed arithmetic that refuses to overflow, the bytes of an unsigned word, and
the loss of a conversion to a finer unit and back.
-/

namespace Foundation

section Checked

variable {bits : Nat} {value : Int}

/-- The value lies in the range of signed words. -/
def FitsSigned (bits : Nat) (value : Int) : Prop :=
  -2 ^ (bits - 1) ≤ value ∧ value < 2 ^ (bits - 1)

instance (bits : Nat) (value : Int) : Decidable (FitsSigned bits value) :=
  inferInstanceAs (Decidable (_ ∧ _))

/-- The result of an operation on signed words, unless it overflows. -/
def checked (bits : Nat) (value : Int) : Option Int :=
  if FitsSigned bits value then some value else none

theorem checked_of_fits (fits : FitsSigned bits value) :
    checked bits value = some value :=
  if_pos fits

end Checked

section Words

/-- A number cut down to the lowest bits of an unsigned word. -/
def wrapU32 (value : Int) : UInt32 :=
  UInt32.ofNat (value % 2 ^ 32).toNat

theorem toNat_wrapU32 (value : Int) :
    ((wrapU32 value).toNat : Int) = value % 2 ^ 32 := by
  have nonneg : 0 ≤ value % 2 ^ 32 := Int.emod_nonneg value (by decide)
  have below : value % 2 ^ 32 < 2 ^ 32 := Int.emod_lt_of_pos value (by decide)
  rw [wrapU32, UInt32.toNat_ofNat_of_lt' (by
    change (value % 2 ^ 32).toNat < 2 ^ 32
    omega)]
  exact Int.toNat_of_nonneg nonneg

/-- The bytes of a word, the most significant first. -/
def toBeBytes (word : UInt32) : Bytes :=
  (places 256 4 word.toNat).map UInt8.ofNat

def fromBeBytes (bytes : Bytes) : UInt32 :=
  UInt32.ofNat (ofPlaces 256 (bytes.map UInt8.toNat))

@[simp] theorem length_toBeBytes (word : UInt32) :
    (toBeBytes word).length = 4 := by
  rw [toBeBytes, List.length_map, length_places]

theorem fromBeBytes_toBeBytes (word : UInt32) :
    fromBeBytes (toBeBytes word) = word := by
  have same : (toBeBytes word).map UInt8.toNat = places 256 4 word.toNat := by
    rw [toBeBytes, List.map_map]
    refine (List.map_congr_left ?_).trans (List.map_id _)
    intro place member
    exact UInt8.toNat_ofNat_of_lt' (lt_of_mem_places (by decide) member)
  have small : word.toNat < 256 ^ 4 := word.toNat_lt
  rw [fromBeBytes, same, ofPlaces_places small, UInt32.ofNat_toNat]

end Words

section Rescaling

/-- Counting in a finer unit and back, rounding down both times, loses at most
one. -/
theorem rescale_bounds {coarse fine : Int} (positive : 0 < coarse)
    (finer : coarse ≤ fine) (value : Int) :
    value - 1 ≤ value * fine / coarse * coarse / fine ∧
      value * fine / coarse * coarse / fine ≤ value := by
  have finePositive : 0 < fine := Int.lt_of_lt_of_le positive finer
  have below : value * fine / coarse * coarse ≤ value * fine :=
    Int.ediv_mul_le (value * fine) (Int.ne_of_gt positive)
  have above : value * fine < value * fine / coarse * coarse + coarse := by
    have next := Int.lt_ediv_add_one_mul_self (value * fine) positive
    rwa [Int.add_mul, Int.one_mul] at next
  constructor
  · apply Int.le_ediv_of_mul_le finePositive
    rw [Int.sub_mul, Int.one_mul]
    omega
  · exact Int.ediv_le_of_le_mul finePositive below

/-- Halving towards zero. -/
theorem tdiv_two_bounds (value : Int) :
    value - 1 ≤ 2 * value.tdiv 2 ∧ 2 * value.tdiv 2 ≤ value + 1 := by
  have whole := Int.mul_tdiv_add_tmod value 2
  have above := Int.tmod_lt_of_pos value (show (0 : Int) < 2 by decide)
  have below := Int.lt_tmod_of_pos value (show (0 : Int) < 2 by decide)
  omega

end Rescaling

end Foundation
