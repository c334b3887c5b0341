import TdPrinter.Foundation.Profile
import TdPrinter.Motion.Planner

/-!
# The shape of a trapezoid

`calculate_trapezoid_for_block` cuts the way of a block at two whole steps.  Where the
way is long enough the block accelerates to its nominal rate, cruises and brakes; the
acceleration is rounded up to whole steps and the braking down.  Where it is not, the
block brakes from the step at which both ramps meet, rounded up, and from one of the
ends of the way if they meet outside.

`trapezoid_shape` says what this amounts to under constant acceleration: the rate stays
within one step of the nominal rate, and ends within two steps of the exit rate if that
can be reached at all.  `masterStep_le_decelAfter` is about an exit rate above the nominal one,
which nothing in the planner excludes: the way to brake is negative then.
-/

namespace TdPrinter

section

variable {R : Type*} [Field R] [LinearOrder R] [IsStrictOrderedRing R] [FloorRing R]

omit [LinearOrder R] [IsStrictOrderedRing R] [FloorRing R] in
/-- The square of the rate after `k` steps of the block, under constant
acceleration. -/
def MotionLine.rateSquare (b : MotionLine R) (k : ℕ) : R :=
  speedSquare (b.entryRate ^ 2) b.accelRate b.accelBefore b.decelAfter k

/-- The trapezoid of a block fits to its way, to its nominal rate and to its exit
rate. -/
structure MotionLine.Shaped (b : MotionLine R) : Prop where
  accelBefore_nonneg : 0 ≤ b.accelBefore
  accelBefore_le : b.accelBefore ≤ b.decelAfter
  decelAfter_le : b.decelAfter ≤ b.masterStep
  peak_lt : ∀ k, b.rateSquare k < b.nominalRate ^ 2 + 2 * b.accelRate
  ends : |b.exitRate ^ 2 - b.entryRate ^ 2| ≤ 2 * b.accelRate * b.masterStep →
    b.exitRate ^ 2 ≤ b.rateSquare b.masterStep.toNat ∧
      b.rateSquare b.masterStep.toNat < b.exitRate ^ 2 + 4 * b.accelRate

/-- A profile that does not accelerate too long, and whose end is where it should be. -/
theorem MotionLine.shaped_of_squares {b : MotionLine R} (haccel : 0 < b.accelRate)
    (hnonneg : 0 ≤ b.accelBefore) (hle : b.accelBefore ≤ b.decelAfter)
    (hmaster : b.decelAfter ≤ b.masterStep)
    (hpeak : b.entryRate ^ 2 + 2 * b.accelRate * b.accelBefore <
      b.nominalRate ^ 2 + 2 * b.accelRate)
    (hends : |b.exitRate ^ 2 - b.entryRate ^ 2| ≤ 2 * b.accelRate * b.masterStep →
      b.exitRate ^ 2 ≤ b.entryRate ^ 2 + 2 * b.accelRate * b.accelBefore -
          2 * b.accelRate * (b.masterStep - b.decelAfter) ∧
        b.entryRate ^ 2 + 2 * b.accelRate * b.accelBefore -
          2 * b.accelRate * (b.masterStep - b.decelAfter) < b.exitRate ^ 2 + 4 * b.accelRate) :
    b.Shaped where
  accelBefore_nonneg := hnonneg
  accelBefore_le := hle
  decelAfter_le := hmaster
  peak_lt k := (speedSquare_le_peak haccel.le hnonneg hle k).trans_lt hpeak
  ends hreach := by
    have hcast : ((b.masterStep.toNat : ℕ) : ℤ) = b.masterStep :=
      Int.toNat_of_nonneg (hnonneg.trans (hle.trans hmaster))
    have hvalue : b.rateSquare b.masterStep.toNat =
        b.entryRate ^ 2 + 2 * b.accelRate * b.accelBefore -
          2 * b.accelRate * (b.masterStep - b.decelAfter) := by
      rw [MotionLine.rateSquare, speedSquare_braking hnonneg hle (by rw [hcast]; exact hmaster)]
      have hreal : ((b.masterStep.toNat : ℕ) : R) = (b.masterStep : R) := by exact_mod_cast hcast
      rw [hreal]
    rw [hvalue]
    exact hends hreach

/-! ## The two regimes -/

theorem MotionLine.shaped_of_cruise {b : MotionLine R} (haccel : 0 < b.accelRate)
    (hentry : b.entryRate ^ 2 ≤ b.nominalRate ^ 2) (hexit : b.exitRate ^ 2 ≤ b.nominalRate ^ 2)
    (hup : b.accelBefore = ⌈(b.nominalRate ^ 2 - b.entryRate ^ 2) / (2 * b.accelRate)⌉)
    (hdown : b.decelAfter =
      b.masterStep - ⌊(b.nominalRate ^ 2 - b.exitRate ^ 2) / (2 * b.accelRate)⌋)
    (hle : b.accelBefore ≤ b.decelAfter) : b.Shaped := by
  have hstep : 0 < 2 * b.accelRate := by positivity
  have hceil := mul_ceil_div hstep (b.nominalRate ^ 2 - b.entryRate ^ 2)
  have hfloor := mul_floor_div hstep (b.nominalRate ^ 2 - b.exitRate ^ 2)
  have hnonneg : 0 ≤ b.accelBefore := by
    rw [hup]
    exact Int.ceil_nonneg (div_nonneg (sub_nonneg.mpr hentry) hstep.le)
  have hbrakes : 0 ≤ ⌊(b.nominalRate ^ 2 - b.exitRate ^ 2) / (2 * b.accelRate)⌋ :=
    Int.floor_nonneg.mpr (div_nonneg (sub_nonneg.mpr hexit) hstep.le)
  rw [← hup] at hceil
  have hway : (b.masterStep - b.decelAfter : R) =
      ⌊(b.nominalRate ^ 2 - b.exitRate ^ 2) / (2 * b.accelRate)⌋ := by
    rw [hdown]
    push_cast
    ring
  refine shaped_of_squares haccel hnonneg hle (by omega) (by linarith) fun _ => ?_
  rw [hway]
  constructor
  · linarith
  · linarith

/-- Without room to cruise the block brakes from the step at which the two ramps meet. -/
theorem MotionLine.shaped_of_triangle {b : MotionLine R} (haccel : 0 < b.accelRate)
    (hmaster : 0 ≤ b.masterStep) (hentry : b.entryRate ^ 2 ≤ b.nominalRate ^ 2)
    (hup : b.accelBefore = min (max ⌈(2 * b.accelRate * b.masterStep - b.entryRate ^ 2 +
      b.exitRate ^ 2) / (4 * b.accelRate)⌉ 0) b.masterStep)
    (hdown : b.decelAfter = b.accelBefore)
    (hshort : b.masterStep < ⌈(b.nominalRate ^ 2 - b.entryRate ^ 2) / (2 * b.accelRate)⌉ +
      ⌊(b.nominalRate ^ 2 - b.exitRate ^ 2) / (2 * b.accelRate)⌋) : b.Shaped := by
  have hstep : 0 < 2 * b.accelRate := by positivity
  have htwo : 0 < 4 * b.accelRate := by positivity
  have hceil := mul_ceil_div hstep (b.nominalRate ^ 2 - b.entryRate ^ 2)
  have hfloor := mul_floor_div hstep (b.nominalRate ^ 2 - b.exitRate ^ 2)
  have hmeet := mul_ceil_div htwo
    (2 * b.accelRate * b.masterStep - b.entryRate ^ 2 + b.exitRate ^ 2)
  generalize ⌈(b.nominalRate ^ 2 - b.entryRate ^ 2) / (2 * b.accelRate)⌉ = accel at *
  generalize ⌊(b.nominalRate ^ 2 - b.exitRate ^ 2) / (2 * b.accelRate)⌋ = brake at *
  generalize ⌈(2 * b.accelRate * b.masterStep - b.entryRate ^ 2 + b.exitRate ^ 2) /
    (4 * b.accelRate)⌉ = meet at *
  -- the way is too short to reach the nominal rate
  have hshort' : 2 * b.accelRate * b.masterStep <
      2 * b.nominalRate ^ 2 - b.entryRate ^ 2 - b.exitRate ^ 2 := by
    have hcast : (b.masterStep : R) ≤ accel + brake - 1 := by exact_mod_cast (by omega)
    have := mul_le_mul_of_nonneg_left hcast hstep.le
    linarith
  refine shaped_of_squares haccel (by omega) hdown.ge (by omega) ?_ fun hreach => ?_
  · rcases le_or_gt meet 0 with hnone | hsome
    · have hzero : b.accelBefore = 0 := by omega
      rw [hzero]
      push_cast
      linarith
    · have hbefore : (b.accelBefore : R) ≤ meet := by exact_mod_cast (by omega)
      have := mul_le_mul_of_nonneg_left hbefore hstep.le
      linarith
  · rw [abs_le] at hreach
    -- the ramps meet on the way
    have hlow : 0 ≤ meet := by
      have hpos : (0 : R) ≤ 4 * b.accelRate * meet := by linarith
      exact_mod_cast nonneg_of_mul_nonneg_right hpos htwo
    have hhigh : meet ≤ b.masterStep := by
      have hlt : 4 * b.accelRate * meet < 4 * b.accelRate * (b.masterStep + 1) := by linarith
      have hlt' : (meet : R) < b.masterStep + 1 := lt_of_mul_lt_mul_left hlt htwo.le
      have : meet < b.masterStep + 1 := by exact_mod_cast hlt'
      omega
    have hmeets : b.accelBefore = meet := by omega
    rw [hdown, hmeets]
    constructor
    · linarith
    · linarith

/-! ## calculate_trapezoid_for_block -/

omit [IsStrictOrderedRing R] [FloorRing R] in
theorem estimateAccelSpeedDistance_accelerating {a : R} (ha : 0 < a) (initial target : R) :
    estimateAccelSpeedDistance initial target a = (target ^ 2 - initial ^ 2) / (2 * a) := by
  rw [estimateAccelSpeedDistance, if_pos ha.ne', sq, sq]

omit [IsStrictOrderedRing R] [FloorRing R] in
theorem estimateAccelSpeedDistance_braking {a : R} (ha : 0 < a) (initial target : R) :
    estimateAccelSpeedDistance initial target (-a) = (initial ^ 2 - target ^ 2) / (2 * a) := by
  rw [estimateAccelSpeedDistance, if_pos (neg_ne_zero.mpr ha.ne'), mul_neg, div_neg, ← neg_div,
    neg_sub, sq, sq]

omit [IsStrictOrderedRing R] [FloorRing R] in
theorem intersectionDistance_of_pos {a : R} (ha : 0 < a) (initial final distance : R) :
    intersectionDistance initial final a distance =
      (2 * a * distance - initial ^ 2 + final ^ 2) / (4 * a) := by
  rw [intersectionDistance, if_pos ha.ne', sq, sq]

omit [FloorRing R] in
/-- A rate between zero and the nominal one, raised to the least rate of the timer. -/
theorem max_rate_sq_le {nominal factor : R} (hnominal : 120 ≤ nominal) (hone : factor ≤ 1) :
    max (nominal * factor) 120 ^ 2 ≤ nominal ^ 2 := by
  have hpos : (0 : R) ≤ nominal := le_trans (by norm_num) hnominal
  have hle : max (nominal * factor) 120 ≤ nominal :=
    max_le (mul_le_of_le_one_right hpos hone) hnominal
  exact pow_le_pow_left₀ (le_max_of_le_right (by norm_num)) hle 2

/-- The trapezoid of an idle block has the shape that constant acceleration asks for. -/
theorem trapezoid_shape {b : MotionLine R} {entryFactor exitFactor : R} (hidle : b.busy = false)
    (hmaster : 1 ≤ b.masterStep) (haccel : 0 < b.accelRate) (hnominal : 120 ≤ b.nominalRate)
    (hentry : entryFactor ≤ 1) (hexit : exitFactor ≤ 1) :
    (calculateTrapezoidForBlock b entryFactor exitFactor).Shaped := by
  have hentry' := max_rate_sq_le hnominal hentry
  have hexit' := max_rate_sq_le hnominal hexit
  simp only [calculateTrapezoidForBlock, if_pos hidle,
    estimateAccelSpeedDistance_accelerating haccel, estimateAccelSpeedDistance_braking haccel,
    intersectionDistance_of_pos haccel]
  by_cases hshort : b.masterStep -
      ⌈(b.nominalRate ^ 2 - max (b.nominalRate * entryFactor) 120 ^ 2) / (2 * b.accelRate)⌉ -
      ⌊(b.nominalRate ^ 2 - max (b.nominalRate * exitFactor) 120 ^ 2) / (2 * b.accelRate)⌋ < 0
  · simp only [if_pos hshort]
    exact MotionLine.shaped_of_triangle haccel (zero_le_one.trans hmaster) hentry' rfl
      (add_zero _) (by dsimp only; omega)
  · simp only [if_neg hshort]
    exact MotionLine.shaped_of_cruise haccel hentry' hexit' rfl (by dsimp only; omega)
      (by dsimp only; omega)

/-- A block that is planned to end above its nominal rate has no exit ramp: braking would begin
behind its last step. -/
theorem masterStep_le_decelAfter {b : MotionLine R} {entryFactor exitFactor : R}
    (hidle : b.busy = false) (haccel : 0 < b.accelRate) (hnominal : 0 < b.nominalRate)
    (hover : b.nominalRate < (calculateTrapezoidForBlock b entryFactor exitFactor).exitRate) :
    (calculateTrapezoidForBlock b entryFactor exitFactor).masterStep ≤
      (calculateTrapezoidForBlock b entryFactor exitFactor).decelAfter := by
  have hstep : 0 < 2 * b.accelRate := by positivity
  have htwo : 0 < 4 * b.accelRate := by positivity
  simp only [calculateTrapezoidForBlock, if_pos hidle,
    estimateAccelSpeedDistance_accelerating haccel, estimateAccelSpeedDistance_braking haccel,
    intersectionDistance_of_pos haccel] at hover ⊢
  generalize max (b.nominalRate * entryFactor) 120 = entryRate at *
  generalize max (b.nominalRate * exitFactor) 120 = exitRate at *
  have hsquares : b.nominalRate ^ 2 < exitRate ^ 2 := pow_lt_pow_left₀ hover hnominal.le two_ne_zero
  have hbrake : ⌊(b.nominalRate ^ 2 - exitRate ^ 2) / (2 * b.accelRate)⌋ < 0 := by
    rw [Int.floor_lt, Int.cast_zero]
    exact div_neg_of_neg_of_pos (sub_neg.mpr hsquares) hstep
  have hceil := mul_ceil_div hstep (b.nominalRate ^ 2 - entryRate ^ 2)
  have hmeet := mul_ceil_div htwo (2 * b.accelRate * b.masterStep - entryRate ^ 2 + exitRate ^ 2)
  generalize ⌊(b.nominalRate ^ 2 - exitRate ^ 2) / (2 * b.accelRate)⌋ = brake at *
  generalize ⌈(b.nominalRate ^ 2 - entryRate ^ 2) / (2 * b.accelRate)⌉ = accel at *
  generalize ⌈(2 * b.accelRate * b.masterStep - entryRate ^ 2 + exitRate ^ 2) /
    (4 * b.accelRate)⌉ = meet at *
  split
  · -- not even the whole way is enough to accelerate
    have hlong : (b.masterStep : R) ≤ accel - 1 := by exact_mod_cast (by omega)
    have hscaled := mul_le_mul_of_nonneg_left hlong hstep.le
    have hbehind : 4 * b.accelRate * b.masterStep ≤ 4 * b.accelRate * meet := by linarith
    have hle : b.masterStep ≤ meet := by exact_mod_cast le_of_mul_le_mul_left hbehind htwo
    omega
  · omega

end

/-- A block of 100 steps at 1000 steps/s. -/
def hundredSteps : MotionLine ℚ :=
  { MotionLine.zero with masterStep := 100, nominalRate := 1000, accelRate := 3000 }

theorem trapezoid_shape_hundredSteps :
    (calculateTrapezoidForBlock hundredSteps (1 / 2) (1 / 4)).Shaped :=
  trapezoid_shape rfl (by decide) (by decide) (by decide) (by norm_num) (by norm_num)

end TdPrinter
