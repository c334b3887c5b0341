import Mathlib.Algebra.Order.Ring.Abs
import Mathlib.Tactic.Linarith
import Mathlib.Tactic.Ring

/-!
# Smoothing and clamped sums

Two parts of a digital controller over an ordered field.  A first-order filter moves its state
towards each input by a fixed factor, so that its distance from a range the inputs stay in shrinks
geometrically.  A clamped sum adds up its inputs and is cut off at two bounds, so that inputs of one
sign bring it to a bound at a linear rate, whatever it was before.
-/

namespace TdPrinter

variable {K : Type*} [Field K]

/-- The state `y` of a filter with factor `a` after the input `u`. -/
def smooth (a y u : K) : K := y + a * (u - y)

theorem smooth_eq (a y u : K) : smooth a y u = (1 - a) * y + a * u := by
  rw [smooth]
  ring

variable [LinearOrder K]

/-- The sum `s` after `x` has been added, between `lo` and `hi`. -/
def clampAdd (lo hi s x : K) : K := max lo (min hi (s + x))

theorem le_clampAdd (lo hi s x : K) : lo ≤ clampAdd lo hi s x := le_max_left _ _

theorem clampAdd_le {lo hi : K} (h : lo ≤ hi) (s x : K) : clampAdd lo hi s x ≤ hi :=
  max_le h (min_le_left _ _)

variable [IsStrictOrderedRing K]

/-! ## Smoothing -/

section Smooth

variable {a y u lo hi c d : K}

/-- A lower bound of the state and the inputs is kept. -/
theorem le_smooth (ha : 0 ≤ a) (ha' : a ≤ 1) (hy : lo ≤ y) (hu : lo ≤ u) : lo ≤ smooth a y u := by
  rw [smooth_eq]
  calc lo = (1 - a) * lo + a * lo := by ring
    _ ≤ (1 - a) * y + a * u :=
        add_le_add (mul_le_mul_of_nonneg_left hy (sub_nonneg.mpr ha'))
          (mul_le_mul_of_nonneg_left hu ha)

theorem smooth_le (ha : 0 ≤ a) (ha' : a ≤ 1) (hy : y ≤ hi) (hu : u ≤ hi) : smooth a y u ≤ hi := by
  rw [smooth_eq]
  calc (1 - a) * y + a * u ≤ (1 - a) * hi + a * hi :=
        add_le_add (mul_le_mul_of_nonneg_left hy (sub_nonneg.mpr ha'))
          (mul_le_mul_of_nonneg_left hu ha)
    _ = hi := by ring

/-- An input above `lo` takes the part `a` off what the state is short of `lo`. -/
theorem sub_smooth_le (ha : 0 ≤ a) (ha' : a ≤ 1) (hy : lo - y ≤ c) (hu : lo ≤ u) :
    lo - smooth a y u ≤ (1 - a) * c := by
  rw [smooth_eq]
  calc lo - ((1 - a) * y + a * u) = (1 - a) * (lo - y) + a * (lo - u) := by ring
    _ ≤ (1 - a) * c + a * 0 :=
        add_le_add (mul_le_mul_of_nonneg_left hy (sub_nonneg.mpr ha'))
          (mul_le_mul_of_nonneg_left (by linarith) ha)
    _ = (1 - a) * c := by ring

/-- The distance from an input that does not change. -/
theorem abs_smooth_sub_le (ha' : a ≤ 1) (hy : |y - u| ≤ c) : |smooth a y u - u| ≤ (1 - a) * c := by
  rw [smooth_eq, show (1 - a) * y + a * u - u = (1 - a) * (y - u) by ring, abs_mul,
    abs_of_nonneg (sub_nonneg.mpr ha')]
  exact mul_le_mul_of_nonneg_left hy (sub_nonneg.mpr ha')

theorem abs_smooth_le (ha : 0 ≤ a) (ha' : a ≤ 1) (hy : |y| ≤ c) (hu : |u| ≤ d) :
    |smooth a y u| ≤ (1 - a) * c + a * d := by
  rw [smooth_eq]
  calc |(1 - a) * y + a * u| ≤ |(1 - a) * y| + |a * u| := abs_add_le _ _
    _ = (1 - a) * |y| + a * |u| := by
        rw [abs_mul, abs_mul, abs_of_nonneg ha, abs_of_nonneg (sub_nonneg.mpr ha')]
    _ ≤ (1 - a) * c + a * d :=
        add_le_add (mul_le_mul_of_nonneg_left hy (sub_nonneg.mpr ha'))
          (mul_le_mul_of_nonneg_left hu ha)

end Smooth

/-! ## Clamped sums -/

section ClampAdd

variable {lo hi s x r : K} {n : ℕ}

/-- Under inputs of `-r` and less the sum falls at the rate `r` until it is at the bound. -/
theorem clampAdd_falls (hr : 0 ≤ r) (hs : s ≤ max lo (hi - r * n)) (hx : x ≤ -r) :
    clampAdd lo hi s x ≤ max lo (hi - r * (n + 1 : ℕ)) := by
  refine max_le (le_max_left _ _) ((min_le_right _ _).trans ?_)
  push_cast
  rcases le_max_iff.mp hs with hlow | hhigh
  · exact (show s + x ≤ lo by linarith).trans (le_max_left _ _)
  · exact (show s + x ≤ hi - r * (n + 1) by linarith).trans (le_max_right _ _)

/-- Under inputs of `r` and more it rises at this rate. -/
theorem clampAdd_rises (hr : 0 ≤ r) (hs : min hi (lo + r * n) ≤ s) (hx : r ≤ x) :
    min hi (lo + r * (n + 1 : ℕ)) ≤ clampAdd lo hi s x := by
  refine le_trans (le_min (min_le_left _ _) ?_) (le_max_right _ _)
  push_cast
  rcases min_le_iff.mp hs with hhigh | hlow
  · exact (min_le_left _ _).trans (by linarith)
  · exact (min_le_right _ _).trans (by linarith)

end ClampAdd

end TdPrinter
