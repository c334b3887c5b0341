import TdPrinter.Foundation.Arithmetic

/-!
# lround

Rounding to the nearest integer is off by at most a half, and by exactly a half in both
directions.
-/

namespace TdPrinter

variable {R : Type*} [Field R] [LinearOrder R] [IsStrictOrderedRing R] [FloorRing R]

theorem abs_lround_sub_le (x : R) : |(lround x : R) - x| ≤ 1 / 2 := by
  unfold lround
  split
  · have hlow := Int.lt_floor_add_one (x + 1 / 2)
    have hhigh := Int.floor_le (x + 1 / 2)
    rw [abs_le]
    constructor <;> linarith
  · have hlow := Int.lt_floor_add_one (-x + 1 / 2)
    have hhigh := Int.floor_le (-x + 1 / 2)
    push_cast
    rw [abs_le]
    constructor <;> linarith

@[simp]
theorem lround_intCast (k : ℤ) : lround (k : R) = k := by
  have hclose := abs_lround_sub_le (k : R)
  have hcast : |((lround (k : R) - k : ℤ) : R)| ≤ 1 / 2 := by
    push_cast
    exact hclose
  rw [← Int.cast_abs] at hcast
  have hlt : ((|lround (k : R) - k| : ℤ) : R) < 1 := hcast.trans_lt one_half_lt_one
  have habs : |lround (k : R) - k| < 1 := by exact_mod_cast hlt
  have hzero := Int.abs_lt_one_iff.mp habs
  omega

theorem lround_half : lround (1 / 2 : R) = 1 := by
  have hpos : (0 : R) ≤ 1 / 2 := by positivity
  rw [lround, if_pos hpos, add_halves, Int.floor_one]

theorem lround_neg_half : lround (-(1 / 2) : R) = -1 := by
  have hneg : ¬ (0 : R) ≤ -(1 / 2) := by
    rw [not_le, neg_lt_zero]
    positivity
  rw [lround, if_neg hneg, neg_neg, add_halves, Int.floor_one]

end TdPrinter
