import TdPrinter.Planning.Preparation

/-!
# The limits of the single axes

Two limits are meant axis by axis, the acceleration (`limitAccelSpeed`) and the change
of speed at a junction (`calcJerkSpeed`).  Both are imposed on the speed along the path,
and in both the axis enters with something else than its share of the path.

`limitAccelSpeed` takes the share of an axis in the steps, not in the way.  The two
differ where the axes have different resolutions, and for the extruder, whose way does
not count in the length; `axisAccel_iff` says when the acceleration is limited enough.
-/

namespace TdPrinter

section

variable {R : Type*} [Field R] [LinearOrder R]

/-! ## Acceleration -/

/-- The part of the steps that falls to axis `i`: `speedFactor`. -/
def MotionArgs.stepShare (args : MotionArgs R) (param : Param R) (i : Axis) : R :=
  (|applyMicroStep param args.steps i| : ℤ) /
    ((fillBlockSteps MotionLine.zero (applyMicroStep param args.steps) : MotionLine R).masterStep :
      R)

/-- The part of the way that falls to axis `i`. -/
def MotionArgs.wayShare (args : MotionArgs R) (i : Axis) : R := |args.dist i| / args.length

/-- The acceleration of each axis along the move respects its limit. -/
def AxisAccelLimited (param : Param R) (args : MotionArgs R) (q : StepPlanner R) : Prop :=
  ∀ i, q.block.accelSpeed * |args.dist i| / q.block.distance ≤ param.maxAccelSpeed i

/-- Each axis is within its limit from the start, or some axis that is above its own one,
by its share in the steps, has the acceleration lowered enough. -/
def AxisAccelCovered (param : Param R) (args : MotionArgs R) : Prop :=
  ∀ i, startAccelSpeed param args.steps * args.wayShare i ≤ param.maxAccelSpeed i ∨
    ∃ k, startAccelSpeed param args.steps * args.stepShare param k > param.maxAccelSpeed k ∧
      param.maxAccelSpeed k * args.wayShare i ≤ param.maxAccelSpeed i * args.stepShare param k

variable [IsStrictOrderedRing R]

/-- The acceleration of a motion: the one it starts from, or the one at which an axis
that was above its limit, by its share in the steps, is at the limit. -/
theorem prepareStages_accelSpeed {param : Param R} (hparam : param.Positive)
    {args : MotionArgs R} (hmoves : ∃ i, args.steps i ≠ 0) (p : StepPlanner R) :
    (prepareStages param p args).block.accelSpeed =
      startAccelSpeed param args.steps * axes.foldl (fun f i =>
        if startAccelSpeed param args.steps * args.stepShare param i > param.maxAccelSpeed i then
          min f (param.maxAccelSpeed i /
            (startAccelSpeed param args.steps * args.stepShare param i))
        else f) 1 := by
  simp only [prepareStages, startAccelSpeed_eq hparam hmoves]
  generalize slowdown p.stepBlock.len args.length args.speed = timed
  generalize hq : limitSpeed param _ = q
  obtain ⟨f, -, -, -, rfl⟩ := limitSpeed_spec hparam.maxSpeed_pos hq
  rfl

/-- The acceleration of every axis respects its limit exactly if every axis is
covered. -/
theorem axisAccel_iff {param : Param R} (hparam : param.Positive) {args : MotionArgs R}
    (hargs : args.Positive) (p : StepPlanner R) :
    AxisAccelLimited param args (prepareStages param p args) ↔ AxisAccelCovered param args := by
  have hstart := startAccelSpeed_pos hparam args.steps
  have hlength : (prepareStages param p args).block.distance = args.length :=
    (prepareStages_frame param p args).2.2.2.2.1
  refine forall_congr' fun i => ?_
  rw [prepareStages_accelSpeed hparam hargs.moves, hlength]
  generalize startAccelSpeed param args.steps = a at *
  let limited (k : Axis) : Prop := a * args.stepShare param k > param.maxAccelSpeed k
  let factor (k : Axis) : R := param.maxAccelSpeed k / (a * args.stepShare param k)
  have hway : 0 ≤ args.wayShare i := div_nonneg (abs_nonneg _) hargs.length_pos.le
  have haxis : ∀ f : R, a * f * |args.dist i| / args.length = f * (a * args.wayShare i) := by
    intro f
    rw [MotionArgs.wayShare]
    ring
  -- an axis at its limit by its share in the steps
  have hfactor : ∀ k, limited k → (factor k * (a * args.wayShare i) ≤ param.maxAccelSpeed i ↔
      param.maxAccelSpeed k * args.wayShare i ≤
        param.maxAccelSpeed i * args.stepShare param k) := by
    intro k hk
    have hsteps : 0 < args.stepShare param k :=
      (mul_pos_iff_of_pos_left hstart).mp ((hparam.maxAccelSpeed_pos k).trans hk)
    have hscale : factor k * (a * args.wayShare i) =
        param.maxAccelSpeed k * args.wayShare i / args.stepShare param k := by
      show param.maxAccelSpeed k / (a * args.stepShare param k) * (a * args.wayShare i) = _
      field_simp
    rw [hscale, div_le_iff₀ hsteps]
  rw [haxis, foldl_limit_mul_le_iff (mul_nonneg hstart.le hway), one_mul]
  refine or_congr_right ⟨?_, ?_⟩
  · rintro ⟨k, -, hk, hle⟩
    exact ⟨k, hk, (hfactor k hk).mp hle⟩
  · rintro ⟨k, hk, hle⟩
    exact ⟨k, List.mem_finRange k, hk, (hfactor k hk).mpr hle⟩

omit [IsStrictOrderedRing R] in
/-- The axis limits the junction: it changes its speed by at least the limit, and it
reverses or gets faster. -/
def LimitsJunction (param : Param R) (p : StepPlanner R) (i : Axis) : Prop :=
  ¬ |p.curSpeed i - p.prevSpeed i| < param.maxSpeedDelta i ∧
    (|p.curSpeed i - p.prevSpeed i| + 1 / 1000 ≥ |p.curSpeed i| + |p.prevSpeed i| ∨
      |p.curSpeed i| > |p.prevSpeed i|)

/-- The scale that such an axis asks for. -/
def junctionLimit (param : Param R) (p : StepPlanner R) (i : Axis) : R :=
  if |p.curSpeed i - p.prevSpeed i| + 1 / 1000 ≥ |p.curSpeed i| + |p.prevSpeed i| then 0
  else (p.prevSpeed i +
    (if p.curSpeed i > 0 then param.maxSpeedDelta i else -param.maxSpeedDelta i)) / p.curSpeed i

instance (param : Param R) (p : StepPlanner R) : DecidablePred (LimitsJunction param p) :=
  fun _ => inferInstanceAs (Decidable (¬ _ ∧ (_ ∨ _)))

/-- An axis that does not reverse and gets faster moves in its old direction. -/
theorem junctionLimit_nonneg {param : Param R} (hdelta : ∀ i, 0 < param.maxSpeedDelta i)
    {p : StepPlanner R} {i : Axis} (h : LimitsJunction param p i) :
    0 ≤ junctionLimit param p i := by
  unfold junctionLimit
  split
  · exact le_rfl
  · rename_i hsame
    have hfaster : |p.prevSpeed i| < |p.curSpeed i| := h.2.resolve_left hsame
    have hdirection : 0 < p.curSpeed i * p.prevSpeed i := by
      by_contra hopposite
      refine hsame ?_
      have hsum : |p.curSpeed i - p.prevSpeed i| = |p.curSpeed i| + |p.prevSpeed i| := by
        rw [sub_eq_add_neg, ← abs_neg (p.prevSpeed i), abs_add_eq_add_abs_iff]
        rcases mul_nonpos_iff.mp (not_lt.mp hopposite) with ⟨hcur, hprev⟩ | ⟨hcur, hprev⟩
        · exact Or.inl ⟨hcur, neg_nonneg.mpr hprev⟩
        · exact Or.inr ⟨hcur, neg_nonpos.mpr hprev⟩
      rw [hsum]
      linarith
    rcases lt_or_gt_of_ne (left_ne_zero_of_mul hdirection.ne') with hcur | hcur
    · rw [if_neg hcur.not_gt]
      have hprev : p.prevSpeed i < 0 := neg_of_mul_pos_right hdirection hcur.le
      exact div_nonneg_of_nonpos (add_nonpos hprev.le (neg_nonpos.mpr (hdelta i).le)) hcur.le
    · rw [if_pos hcur]
      have hprev : 0 < p.prevSpeed i := (mul_pos_iff_of_pos_left hcur).mp hdirection
      exact div_nonneg (add_nonneg hprev.le (hdelta i).le) hcur.le

omit [IsStrictOrderedRing R] in
theorem jerkStep_eq (param : Param R) (p : StepPlanner R) (i : Axis) {scale : R}
    (hscale : 0 ≤ scale) :
    (if |p.curSpeed i - p.prevSpeed i| < param.maxSpeedDelta i then scale
      else if |p.curSpeed i - p.prevSpeed i| + 1 / 1000 ≥ |p.curSpeed i| + |p.prevSpeed i| then 0
      else if |p.curSpeed i| > |p.prevSpeed i| then
        min scale ((p.prevSpeed i +
          (if p.curSpeed i > 0 then param.maxSpeedDelta i else -param.maxSpeedDelta i)) /
            p.curSpeed i)
      else scale) =
      if LimitsJunction param p i then min scale (junctionLimit param p i) else scale := by
  by_cases hsteady : |p.curSpeed i - p.prevSpeed i| < param.maxSpeedDelta i
  · have hnone : ¬ LimitsJunction param p i := fun h => h.1 hsteady
    rw [if_pos hsteady, if_neg hnone]
  · rw [if_neg hsteady]
    by_cases hreverse : |p.curSpeed i - p.prevSpeed i| + 1 / 1000 ≥
      |p.curSpeed i| + |p.prevSpeed i|
    · have hlimits : LimitsJunction param p i := ⟨hsteady, Or.inl hreverse⟩
      rw [if_pos hreverse, if_pos hlimits, junctionLimit, if_pos hreverse, min_eq_right hscale]
    · rw [if_neg hreverse]
      by_cases hfaster : |p.curSpeed i| > |p.prevSpeed i|
      · have hlimits : LimitsJunction param p i := ⟨hsteady, Or.inr hfaster⟩
        rw [if_pos hfaster, if_pos hlimits, junctionLimit, if_neg hreverse]
      · have hnone : ¬ LimitsJunction param p i := fun h => h.2.elim hreverse hfaster
        rw [if_neg hfaster, if_neg hnone]

/-- The loop of `calcJerkSpeed` takes the strictest of the limits. -/
theorem jerkScale_eq {param : Param R} (hdelta : ∀ i, 0 < param.maxSpeedDelta i)
    (p : StepPlanner R) : jerkScale param p = axes.foldl (fun f i =>
      if LimitsJunction param p i then min f (junctionLimit param p i) else f) 1 := by
  refine foldl_eq_of_invariant (I := fun scale : R => 0 ≤ scale) (fun scale i hscale => ?_)
    axes zero_le_one
  refine ⟨jerkStep_eq param p i hscale, ?_⟩
  split
  · rename_i hlimits
    exact le_min hscale (junctionLimit_nonneg hdelta hlimits)
  · exact hscale

variable [FloorRing R] [Sqrtf R]

omit [IsStrictOrderedRing R] [FloorRing R] in
/-- A motion that is slow, or that follows a slow one, starts at most with the default
speed. -/
theorem jerkEntrySpeed_of_slow (param : Param R) {q : StepPlanner R}
    (h : q.block.nominalSpeed ≤ q.defaultEntrySpeed ∨ q.prevExitSpeed ≤ q.defaultEntrySpeed) :
    (prepareJunction param q).block.jerkEntrySpeed ≤ q.defaultEntrySpeed := by
  have hspeed : min q.prevExitSpeed q.block.nominalSpeed ≤ q.defaultEntrySpeed :=
    h.elim (min_le_right _ _).trans (min_le_left _ _).trans
  show min q.block.nominalSpeed (calcJerkSpeed param q) ≤ q.defaultEntrySpeed
  rw [calcJerkSpeed, if_pos h, max_eq_left hspeed]
  exact min_le_right _ _

omit [FloorRing R] in
theorem jerkEntrySpeed_of_fast (param : Param R) {q : StepPlanner R} (hlen : q.stepBlock.len ≠ 0)
    (hpos : 0 < q.defaultEntrySpeed) (hnominal : q.defaultEntrySpeed < q.block.nominalSpeed)
    (hprev : q.defaultEntrySpeed < q.prevExitSpeed) :
    (prepareJunction param q).block.jerkEntrySpeed =
      max q.defaultEntrySpeed (min q.prevExitSpeed q.block.nominalSpeed * jerkScale param q) := by
  have hfast : ¬ (q.block.nominalSpeed ≤ q.defaultEntrySpeed ∨
      q.prevExitSpeed ≤ q.defaultEntrySpeed) := by
    rintro (hslow | hslow)
    · exact hnominal.not_ge hslow
    · exact hprev.not_ge hslow
  have hspeed : 0 ≤ min q.prevExitSpeed q.block.nominalSpeed :=
    le_min (hpos.trans hprev).le (hpos.trans hnominal).le
  show min q.block.nominalSpeed (calcJerkSpeed param q) = _
  rw [calcJerkSpeed, if_neg hfast, if_neg hlen]
  refine min_eq_right (max_le hnominal.le ?_)
  exact (mul_le_of_le_one_right hspeed (jerkScale_le_one param q)).trans (min_le_right _ _)

omit [FloorRing R] in
/-- If the junction is passed faster than with the default speed, no axis changes its
speed by more than its limit. -/
def JunctionJerkLimited (param : Param R) (q : StepPlanner R) : Prop :=
  q.defaultEntrySpeed < (prepareJunction param q).block.jerkEntrySpeed →
    ∀ i, |(prepareJunction param q).block.jerkEntrySpeed *
      (q.prevSpeed i / q.prevExitSpeed - q.curSpeed i / q.block.nominalSpeed)| ≤
        param.maxSpeedDelta i

omit [IsStrictOrderedRing R] [FloorRing R] [Sqrtf R] in
/-- How far the speed of axis `i` jumps at the lower of the two speeds. -/
def junctionJump (q : StepPlanner R) (i : Axis) : R :=
  |min q.prevExitSpeed q.block.nominalSpeed *
    (q.prevSpeed i / q.prevExitSpeed - q.curSpeed i / q.block.nominalSpeed)|

omit [IsStrictOrderedRing R] [FloorRing R] [Sqrtf R] in
/-- One of the motions is slow, or some axis that limits the junction makes it slow, or
each axis is within its limit at the lower of the two speeds or at the scale that some
axis asks for. -/
def JunctionCovered (param : Param R) (q : StepPlanner R) : Prop :=
  q.block.nominalSpeed ≤ q.defaultEntrySpeed ∨ q.prevExitSpeed ≤ q.defaultEntrySpeed ∨
    (∃ k, LimitsJunction param q k ∧ junctionLimit param q k *
      min q.prevExitSpeed q.block.nominalSpeed ≤ q.defaultEntrySpeed) ∨
    ∀ i, junctionJump q i ≤ param.maxSpeedDelta i ∨
      ∃ k, LimitsJunction param q k ∧
        junctionLimit param q k * junctionJump q i ≤ param.maxSpeedDelta i

omit [FloorRing R] [Sqrtf R] in
theorem jerkScale_nonneg {param : Param R} (hdelta : ∀ i, 0 < param.maxSpeedDelta i)
    (q : StepPlanner R) : 0 ≤ jerkScale param q := by
  rw [jerkScale_eq hdelta]
  rcases foldl_limit_cases (p := LimitsJunction param q) (g := junctionLimit param q) axes
    (1 : R) with h | ⟨k, -, hk, h⟩
  · exact zero_le_one.trans_eq h.symm
  · exact (junctionLimit_nonneg hdelta hk).trans_eq h.symm

omit [FloorRing R] [Sqrtf R] in
/-- The scale brings a speed down to a bound exactly if the speed is within it already or
some axis asks for a scale that does. -/
theorem jerkScale_mul_le_iff {param : Param R} (hdelta : ∀ i, 0 < param.maxSpeedDelta i)
    (q : StepPlanner R) {v bound : R} (hv : 0 ≤ v) :
    jerkScale param q * v ≤ bound ↔
      v ≤ bound ∨ ∃ k, LimitsJunction param q k ∧ junctionLimit param q k * v ≤ bound := by
  rw [jerkScale_eq hdelta, foldl_limit_mul_le_iff hv, one_mul]
  simp only [axes, List.mem_finRange, true_and]

omit [FloorRing R] in
/-- The change of speed at the junction is within the limits exactly if the junction is
covered. -/
theorem prepareJunction_jerk_iff {param : Param R} (hdelta : ∀ i, 0 < param.maxSpeedDelta i)
    {q : StepPlanner R} (hlen : q.stepBlock.len ≠ 0) (hpos : 0 < q.defaultEntrySpeed) :
    JunctionJerkLimited param q ↔ JunctionCovered param q := by
  by_cases hslow : q.block.nominalSpeed ≤ q.defaultEntrySpeed ∨
    q.prevExitSpeed ≤ q.defaultEntrySpeed
  · have hjerk := jerkEntrySpeed_of_slow param hslow
    have hlimited : JunctionJerkLimited param q := fun hfast => absurd hfast hjerk.not_gt
    have hcovered : JunctionCovered param q := by
      rcases hslow with hslow | hslow
      · exact Or.inl hslow
      · exact Or.inr (Or.inl hslow)
    exact ⟨fun _ => hcovered, fun _ => hlimited⟩
  · rw [not_or, not_le, not_le] at hslow
    have hspeed : q.defaultEntrySpeed < min q.prevExitSpeed q.block.nominalSpeed :=
      lt_min hslow.2 hslow.1
    have hjerk := jerkEntrySpeed_of_fast param hlen hpos hslow.1 hslow.2
    rw [mul_comm] at hjerk
    -- the junction is slow exactly if some axis asks for it
    have hdefault : jerkScale param q * min q.prevExitSpeed q.block.nominalSpeed ≤
        q.defaultEntrySpeed ↔ ∃ k, LimitsJunction param q k ∧ junctionLimit param q k *
          min q.prevExitSpeed q.block.nominalSpeed ≤ q.defaultEntrySpeed := by
      rw [jerkScale_mul_le_iff hdelta q (hpos.trans hspeed).le, or_iff_right hspeed.not_ge]
    unfold JunctionJerkLimited JunctionCovered
    rw [or_iff_right hslow.1.not_ge, or_iff_right hslow.2.not_ge, ← hdefault, hjerk, lt_max_iff,
      or_iff_right (lt_irrefl _)]
    rcases le_or_gt (jerkScale param q * min q.prevExitSpeed q.block.nominalSpeed)
      q.defaultEntrySpeed with hslowed | hfast
    · exact ⟨fun _ => Or.inl hslowed, fun _ hfast => absurd hfast hslowed.not_gt⟩
    · rw [or_iff_right hfast.not_ge, max_eq_right hfast.le]
      have haxis : ∀ i, |jerkScale param q * min q.prevExitSpeed q.block.nominalSpeed *
          (q.prevSpeed i / q.prevExitSpeed - q.curSpeed i / q.block.nominalSpeed)| ≤
            param.maxSpeedDelta i ↔ junctionJump q i ≤ param.maxSpeedDelta i ∨
              ∃ k, LimitsJunction param q k ∧
                junctionLimit param q k * junctionJump q i ≤ param.maxSpeedDelta i := by
        intro i
        rw [mul_assoc, abs_mul, abs_of_nonneg (jerkScale_nonneg hdelta q), ← junctionJump]
        exact jerkScale_mul_le_iff hdelta q (abs_nonneg _)
      exact ⟨fun h i => (haxis i).mp (h hfast i), fun h _ i => (haxis i).mpr (h i)⟩

omit [FloorRing R] in
/-- For every call with a motion in the queue. -/
theorem junctionJerk_iff {param : Param R} (hparam : param.Positive) {args : MotionArgs R}
    (hargs : args.Positive) {p : StepPlanner R} (hqueue : p.stepBlock.len ≠ 0) :
    JunctionJerkLimited param (prepareStages param p args) ↔
      JunctionCovered param (prepareStages param p args) := by
  obtain ⟨hsb, -, hentry, -⟩ := prepareStages_frame param p args
  have hlen : (prepareStages param p args).stepBlock.len ≠ 0 := by
    rw [hsb]
    exact hqueue
  have hpos : 0 < (prepareStages param p args).defaultEntrySpeed := by
    rw [hentry]
    exact hargs.defaultEntrySpeed_pos
  exact prepareJunction_jerk_iff hparam.maxSpeedDelta_pos hlen hpos

end

/-- The parameters of `param_resetRam` for `TDPRINTER_B`. -/
def resetRamParam : Param ℚ where
  positionOffset := fun _ => 0
  mm2step := ![5, 5, 6, 640]
  microStep := ![16, 16, 16, 1]
  maxSpeed := ![200, 200, 50, 10]
  maxSpeedDelta := ![25, 25, 100, 1 / 5]
  defaultEntrySpeed := ![1, 1, 10, 3]
  defaultAccelSpeed := ![1000, 1000, 10000, 200]
  maxAccelSpeed := ![3000, 3000, 5000, 200]
  advanceK := 0
  advanceDeprime := 0

theorem resetRamParam_positive : resetRamParam.Positive := by
  constructor <;> decide +kernel

/-- G1 X1 E6 F600. -/
def extrusion : MotionArgs ℚ where
  steps := ![5, 0, 36, 0]
  dist := ![1, 0, 6, 0]
  speed := 10
  length := 1
  useAccel := true
  defaultEntrySpeed := 1 / 4
  defaultExitSpeed := 1 / 4

theorem extrusion_positive : extrusion.Positive where
  length_pos := by decide
  speed_pos := by decide
  moves := ⟨0, by decide⟩
  defaultEntrySpeed_pos := by norm_num [extrusion]
  defaultExitSpeed_eq := rfl

theorem axisAccel_iff_extrusion :
    AxisAccelLimited resetRamParam extrusion
      (prepareStages resetRamParam stepPlannerInit extrusion) ↔
        AxisAccelCovered resetRamParam extrusion :=
  axisAccel_iff resetRamParam_positive extrusion_positive stepPlannerInit

/-- The extruder accelerates with 6000 mm/s², and its limit is 5000. -/
theorem extrusion_exceeds :
    ¬ AxisAccelLimited resetRamParam extrusion
      (prepareStages resetRamParam stepPlannerInit extrusion) := by
  intro hlimited
  have hextruder := hlimited 2
  revert hextruder
  decide +kernel

/-- G1 X24 Y7 F6000. -/
def slope : MotionArgs ℚ where
  steps := ![120, 35, 0, 0]
  dist := ![24, 7, 0, 0]
  speed := 100
  length := 25
  useAccel := true
  defaultEntrySpeed := 1
  defaultExitSpeed := 1

/-- G1 X7 Y24 F6000, relative. -/
def corner : MotionArgs ℚ := { slope with steps := ![35, 120, 0, 0], dist := ![7, 24, 0, 0] }

theorem slope_positive : slope.Positive where
  length_pos := by decide
  speed_pos := by decide
  moves := ⟨0, by decide⟩
  defaultEntrySpeed_pos := by decide
  defaultExitSpeed_eq := rfl

theorem corner_positive : corner.Positive :=
  ⟨slope_positive.length_pos, slope_positive.speed_pos, ⟨0, by decide⟩,
    slope_positive.defaultEntrySpeed_pos, rfl⟩

/-- Two motions in the same direction; the first one is loaded, the second one queued. -/
def twoSlopes : List (PlanAction ℚ) :=
  [.prepare resetRamParam slope, .insert, .idleTest resetRamParam,
    .prepare resetRamParam slope, .insert, .idleTest resetRamParam]

theorem junctionJerk_iff_corner : ∃ t, (planning ℚ).exec (.boot ℚ) twoSlopes = some t ∧
    (JunctionJerkLimited resetRamParam (prepareStages resetRamParam t.planner corner) ↔
      JunctionCovered resetRamParam (prepareStages resetRamParam t.planner corner)) := by
  have hexec : ((planning ℚ).exec (.boot ℚ) twoSlopes).map (fun t => t.sb.len) = some 1 := by
    decide +kernel
  obtain ⟨t, ht, hlen⟩ := Option.map_eq_some_iff.mp hexec
  have hqueue : t.planner.stepBlock.len ≠ 0 := by
    rw [show t.planner.stepBlock.len = 1 from hlen]
    exact one_ne_zero
  exact ⟨t, ht, junctionJerk_iff resetRamParam_positive corner_positive hqueue⟩

/-- X is braked from 96 mm/s to 28 mm/s, and Y accelerates from 28 mm/s to 96 mm/s.  The
junction is planned with more than 55 mm/s, so that both axes change their speed by more
than 37 mm/s; the limit is 25. -/
theorem corner_exceeds : ∃ t, (planning ℚ).exec (.boot ℚ) twoSlopes = some t ∧
    t.stage = .free ∧ t.sb.len ≠ 0 ∧ resetRamParam.Positive ∧ corner.Positive ∧
      ¬ JunctionJerkLimited resetRamParam (prepareStages resetRamParam t.planner corner) := by
  have hexec : ((planning ℚ).exec (.boot ℚ) twoSlopes).map (fun t =>
      (t.stage, t.sb.len, decide ((prepareStages resetRamParam t.planner corner).defaultEntrySpeed <
          (prepareJunction resetRamParam
            (prepareStages resetRamParam t.planner corner)).block.jerkEntrySpeed),
        (prepareJunction resetRamParam
          (prepareStages resetRamParam t.planner corner)).block.jerkEntrySpeed *
          ((prepareStages resetRamParam t.planner corner).prevSpeed 0 /
              (prepareStages resetRamParam t.planner corner).prevExitSpeed -
            (prepareStages resetRamParam t.planner corner).curSpeed 0 /
              (prepareStages resetRamParam t.planner corner).block.nominalSpeed))) =
        some (.free, 1, true, 901 / 24) := by
    decide +kernel
  obtain ⟨t, ht, hobserved⟩ := Option.map_eq_some_iff.mp hexec
  simp only [Prod.mk.injEq, decide_eq_true_eq] at hobserved
  obtain ⟨hfree, hlen, hfast, hjump⟩ := hobserved
  refine ⟨t, ht, hfree, by omega, resetRamParam_positive, corner_positive, fun hlimited => ?_⟩
  have hx := hlimited hfast 0
  rw [hjump] at hx
  norm_num [resetRamParam] at hx

end TdPrinter
