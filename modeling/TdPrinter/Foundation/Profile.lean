import TdPrinter.Foundation.Arithmetic
import Mathlib.Algebra.Order.Floor.Ring
import Mathlib.Tactic.Linarith
import Mathlib.Tactic.Ring

/-!
# Speed profiles of constant acceleration

Under constant acceleration `a` the square of the speed changes by `2 * a` in each
step of the way.  A trapezoid is given by the two steps at which its phases end: the
speed grows before step `up`, is held before step `down` and falls from there on.

`speedSquare` follows the square of the speed step by step.  The lemmas give its value
in each of the three phases, its peak, and the range in which it ends when the phases
are cut at whole steps.
-/

namespace TdPrinter

variable {R : Type*} [Field R]

/-- The square of the speed after `k` steps. -/
def speedSquare (start a : R) (up down : ℤ) : ℕ → R
  | 0 => start
  | k + 1 =>
      if (k : ℤ) < up then speedSquare start a up down k + 2 * a
      else if (k : ℤ) < down then speedSquare start a up down k
      else speedSquare start a up down k - 2 * a

variable {start a : R} {up down : ℤ}

theorem speedSquare_accelerating {k : ℕ} (hk : (k : ℤ) ≤ up) :
    speedSquare start a up down k = start + 2 * a * k := by
  induction k with
  | zero => simp [speedSquare]
  | succ k ih =>
      have hbefore : (k : ℤ) < up := by omega
      rw [speedSquare, if_pos hbefore, ih hbefore.le]
      push_cast
      ring

theorem speedSquare_cruising {k : ℕ} (hup : 0 ≤ up) (hk : up ≤ k) (hdown : (k : ℤ) ≤ down) :
    speedSquare start a up down k = start + 2 * a * up := by
  induction k with
  | zero =>
      obtain rfl : up = 0 := by omega
      simp [speedSquare]
  | succ k ih =>
      rcases eq_or_lt_of_le hk with rfl | hlt
      · rw [speedSquare_accelerating le_rfl]
        push_cast
        ring
      · have hheld : (k : ℤ) < down := by omega
        rw [speedSquare, if_neg (by omega), if_pos hheld, ih (by omega) hheld.le]

theorem speedSquare_braking {k : ℕ} (hup : 0 ≤ up) (hle : up ≤ down) (hk : down ≤ k) :
    speedSquare start a up down k = start + 2 * a * up - 2 * a * (k - down) := by
  induction k with
  | zero =>
      have hdown : down = 0 := by omega
      rw [speedSquare_cruising hup (by omega) hdown.ge, hdown]
      simp
  | succ k ih =>
      rcases eq_or_lt_of_le hk with hend | hlt
      · rw [speedSquare_cruising hup (by omega) hend.ge, hend]
        push_cast
        ring
      · rw [speedSquare, if_neg (by omega), if_neg (by omega), ih (by omega)]
        push_cast
        ring

variable [LinearOrder R] [IsStrictOrderedRing R]

theorem speedSquare_le_peak (ha : 0 ≤ a) (hup : 0 ≤ up) (hle : up ≤ down) (k : ℕ) :
    speedSquare start a up down k ≤ start + 2 * a * up := by
  rcases le_or_gt (k : ℤ) up with hbefore | hbefore
  · rw [speedSquare_accelerating hbefore]
    have hsteps : (k : R) ≤ up := by exact_mod_cast hbefore
    have := mul_le_mul_of_nonneg_left hsteps (mul_nonneg zero_le_two ha)
    linarith
  · rcases le_or_gt (k : ℤ) down with hheld | hheld
    · exact (speedSquare_cruising hup hbefore.le hheld).le
    · rw [speedSquare_braking hup hle hheld.le]
      have hsteps : (down : R) ≤ k := by exact_mod_cast hheld.le
      have := mul_nonneg (mul_nonneg zero_le_two ha) (sub_nonneg.mpr hsteps)
      linarith

/-- Two speeds that are both raised to a least speed do not move apart. -/
theorem abs_sq_max_sub_le {v w least : R} (hv : 0 ≤ v) (hle : v ≤ w) :
    |max v least ^ 2 - max w least ^ 2| ≤ w ^ 2 - v ^ 2 := by
  have hsq : ∀ {x y : R}, 0 ≤ x → x ≤ y → x ^ 2 ≤ y ^ 2 := fun hx hxy =>
    pow_le_pow_left₀ hx hxy 2
  have hmax := hsq (le_max_of_le_left hv) (max_le_max_right least hle)
  rw [abs_of_nonpos (sub_nonpos.mpr hmax), neg_sub]
  rcases le_total v least with hslow | hfast
  · rcases le_total w least with hslow' | hfast'
    · rw [max_eq_right hslow, max_eq_right hslow', sub_self]
      exact sub_nonneg.mpr (hsq hv hle)
    · rw [max_eq_right hslow, max_eq_left hfast']
      exact sub_le_sub_left (hsq hv hslow) _
  · rw [max_eq_left hfast, max_eq_left (hfast.trans hle)]

/-! ## Whole steps -/

section

variable [FloorRing R] {c : R}

theorem mul_ceil_div (hc : 0 < c) (x : R) : x ≤ c * ⌈x / c⌉ ∧ c * ⌈x / c⌉ < x + c := by
  have hcancel : c * (x / c) = x := mul_div_cancel₀ x hc.ne'
  constructor
  · calc x = c * (x / c) := hcancel.symm
      _ ≤ c * ⌈x / c⌉ := mul_le_mul_of_nonneg_left (Int.le_ceil _) hc.le
  · calc c * ⌈x / c⌉ < c * (x / c + 1) := mul_lt_mul_of_pos_left (Int.ceil_lt_add_one _) hc
      _ = x + c := by rw [mul_add, hcancel, mul_one]

theorem mul_floor_div (hc : 0 < c) (x : R) : x - c < c * ⌊x / c⌋ ∧ c * ⌊x / c⌋ ≤ x := by
  have hcancel : c * (x / c) = x := mul_div_cancel₀ x hc.ne'
  constructor
  · calc x - c = c * (x / c - 1) := by rw [mul_sub, hcancel, mul_one]
      _ < c * ⌊x / c⌋ := mul_lt_mul_of_pos_left (Int.sub_one_lt_floor _) hc
  · calc c * ⌊x / c⌋ ≤ c * (x / c) := mul_le_mul_of_nonneg_left (Int.floor_le _) hc.le
      _ = x := hcancel

end

end TdPrinter
