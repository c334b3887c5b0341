import Mathlib.Algebra.Order.Floor.Ring
import Mathlib.Algebra.Order.Field.Basic
import Mathlib.Data.Rat.Floor
import Mathlib.Data.Rat.Sqrt
import Mathlib.Analysis.SpecialFunctions.Sqrt

/-!
# Arithmetic of the firmware

The motion code computes with `float`.  The development replaces that type by an
arbitrary linearly ordered field `R` with floor and a square root function: the
results about step counting, queues and positions hold whatever `R` is, and those
about speeds take `R` to be the real numbers, which is exact arithmetic.  Rational
numbers make every definition executable; their square root is exact on squares
of rationals.

The counters of the step generator are 32-bit; `wrap32` is the value that such a
counter holds after an operation.
-/

namespace TdPrinter

/-- The C library's `sqrtf`. -/
class Sqrtf (R : Type*) where
  sqrtf : R → R

export Sqrtf (sqrtf)

/-- An exact square root on the nonnegative numbers. -/
class LawfulSqrtf (R : Type*) [Field R] [LinearOrder R] [Sqrtf R] : Prop where
  sqrtf_nonneg : ∀ x : R, 0 ≤ sqrtf x
  sqrtf_mul_self : ∀ x : R, 0 ≤ x → sqrtf x * sqrtf x = x

noncomputable instance : Sqrtf ℝ := ⟨Real.sqrt⟩

instance : LawfulSqrtf ℝ where
  sqrtf_nonneg := Real.sqrt_nonneg
  sqrtf_mul_self _ := Real.mul_self_sqrt

instance : Sqrtf ℚ := ⟨Rat.sqrt⟩

/-! ## The numerals of the firmware's formulas

One instance for each: a numeral is then the same term in every module, and a lemma about it
applies, whatever else of the library the module imports. -/

instance two_atLeastTwo : Nat.AtLeastTwo 2 := inferInstance
instance three_atLeastTwo : Nat.AtLeastTwo 3 := inferInstance
instance four_atLeastTwo : Nat.AtLeastTwo 4 := inferInstance
instance five_atLeastTwo : Nat.AtLeastTwo 5 := inferInstance
instance seven_atLeastTwo : Nat.AtLeastTwo 7 := inferInstance
instance ten_atLeastTwo : Nat.AtLeastTwo 10 := inferInstance
instance sixty_atLeastTwo : Nat.AtLeastTwo 60 := inferInstance
instance hundred_atLeastTwo : Nat.AtLeastTwo 100 := inferInstance
instance leastRate_atLeastTwo : Nat.AtLeastTwo 120 := inferInstance
instance byte_atLeastTwo : Nat.AtLeastTwo 256 := inferInstance
instance threeHundred_atLeastTwo : Nat.AtLeastTwo 300 := inferInstance
instance fiveHundred_atLeastTwo : Nat.AtLeastTwo 500 := inferInstance
instance thousand_atLeastTwo : Nat.AtLeastTwo 1000 := inferInstance
instance timerClkDiv50_atLeastTwo : Nat.AtLeastTwo 480000 := inferInstance
instance timerClk_atLeastTwo : Nat.AtLeastTwo 24000000 := inferInstance

/-! ## Counters and rounding -/

/-- The value a 32-bit signed counter holds. -/
def wrap32 (x : ℤ) : ℤ := x.bmod 4294967296

theorem wrap32_of_bounds {x : ℤ} (hlow : -2 ^ 31 ≤ x) (hhigh : x < 2 ^ 31) : wrap32 x = x := by
  rw [wrap32, Int.bmod_def]
  split <;> omega

/-- `lround`: to the nearest integer, halfway cases away from zero. -/
def lround {R : Type*} [Field R] [LinearOrder R] [FloorRing R] (x : R) : ℤ :=
  if 0 ≤ x then ⌊x + 1 / 2⌋ else -⌊-x + 1 / 2⌋

end TdPrinter
