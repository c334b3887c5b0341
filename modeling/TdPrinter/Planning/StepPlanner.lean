import TdPrinter.Motion.InputMotion

/-!
# From a displacement to a planned motion

`libStepPlanner.c`.  `stepPlanner_inputMotion` turns the step counts, distances and
speed of one displacement into a `motionLine_t` and hands it to
`stepBlock_inputMotion`.  Here it is cut at that call: `stepPlannerPrepare` is
everything before it.

The preparation reads the queue length twice, to slow short motions down and to
choose the speed of the junction with the motion before; `prevSpeed` and
`prevExitSpeed` carry the end of that motion over from the last call.
-/

namespace TdPrinter

/-- `stepPlanner_t`; `block` is the motion in the making. -/
structure StepPlanner (R : Type*) where
  stepBlock : StepBlock R
  block : MotionLine R
  axisDist : Axis → R
  distance : R
  nominalDt : R
  curSpeed : Axis → R
  defaultEntrySpeed : R
  defaultExitSpeed : R
  prevSpeed : Axis → R
  prevExitSpeed : R

/-- The arguments of `stepPlanner_inputMotion`. -/
structure MotionArgs (R : Type*) where
  steps : Axis → ℤ
  dist : Axis → R
  speed : R
  length : R
  useAccel : Bool
  defaultEntrySpeed : R
  defaultExitSpeed : R

/-- The axes in the order of the loops. -/
def axes : List Axis := List.finRange stepperNum

section

variable {R : Type*} [Field R] [LinearOrder R]

/-- `stepPlanner_construct` and `stepPlanner_init` on zeroed storage. -/
def stepPlannerInit : StepPlanner R where
  stepBlock := stepBlockInit
  block := MotionLine.zero
  axisDist := fun _ => 0
  distance := 0
  nominalDt := 0
  curSpeed := fun _ => 0
  defaultEntrySpeed := 0
  defaultExitSpeed := 0
  prevSpeed := fun _ => 0
  prevExitSpeed := 0

/-- The multiplication by `microStep` at the start. -/
def applyMicroStep (param : Param R) (steps : Axis → ℤ) : Axis → ℤ :=
  fun i => steps i * param.microStep i

/-- `fillBlockSteps`. -/
def fillBlockSteps (line : MotionLine R) (steps : Axis → ℤ) : MotionLine R :=
  { line with
    masterStep := axes.foldl (fun m i => if |steps i| > m then |steps i| else m) 0
    steps := fun i => |steps i|
    dir := fun i => decide (steps i > 0) }

/-- `slowdownMinSegTime`. -/
def slowdownMinSegTime : R := 5 / 100

/-- The slow-down of short motions, with `slowdown_on` set: `nominalDt` and
`speed`. -/
def slowdown (len : ℕ) (length speed : R) : R × R :=
  let nominalDt := length / speed
  if len < 10 ∧ nominalDt < slowdownMinSegTime then
    -- the emptier the queue, the longer the motion is made
    let scale := if len > 0 then 1 / (len : R) else 1
    let nominalDt := nominalDt + (slowdownMinSegTime - nominalDt) * scale
    (nominalDt, length / nominalDt)
  else (nominalDt, speed)

/-- `limitSpeed`. -/
def limitSpeed (param : Param R) (p : StepPlanner R) : StepPlanner R :=
  let speedFactor := axes.foldl
    (fun f i =>
      if |p.curSpeed i| > param.maxSpeed i then min f (param.maxSpeed i / |p.curSpeed i|) else f) 1
  if speedFactor < 1 then
    { p with
      curSpeed := fun i => p.curSpeed i * speedFactor
      block :=
        { p.block with
          nominalSpeed := p.block.nominalSpeed * speedFactor
          nominalRate := p.block.nominalRate * speedFactor } }
  else p

/-- `limitAccelSpeed`. -/
def limitAccelSpeed (param : Param R) (p : StepPlanner R) : StepPlanner R :=
  let accelFactor := axes.foldl
    (fun f i =>
      let axisAccelSpeed := p.block.accelSpeed * p.block.speedFactor i
      if axisAccelSpeed > param.maxAccelSpeed i then
        min f (param.maxAccelSpeed i / axisAccelSpeed)
      else f) 1
  { p with block := { p.block with accelSpeed := p.block.accelSpeed * accelFactor } }

/-- The scale that the loop of `calcJerkSpeed` finds.  The first branch is a change
of speed within the limit, the second a reversal, the third an acceleration. -/
def jerkScale (param : Param R) (p : StepPlanner R) : R :=
  axes.foldl
    (fun scale i =>
      let deltaSpeed := |p.curSpeed i - p.prevSpeed i|
      if deltaSpeed < param.maxSpeedDelta i then scale
      else if deltaSpeed + 1 / 1000 ≥ |p.curSpeed i| + |p.prevSpeed i| then 0
      else if |p.curSpeed i| > |p.prevSpeed i| then
        let dirDeltaSpeed :=
          if p.curSpeed i > 0 then param.maxSpeedDelta i else -param.maxSpeedDelta i
        min scale ((p.prevSpeed i + dirDeltaSpeed) / p.curSpeed i)
      else scale) 1

/-- `calcJerkSpeed`. -/
def calcJerkSpeed (param : Param R) (p : StepPlanner R) : R :=
  let jerkSpeed := min p.prevExitSpeed p.block.nominalSpeed
  let jerkSpeed :=
    if p.block.nominalSpeed ≤ p.defaultEntrySpeed ∨ p.prevExitSpeed ≤ p.defaultEntrySpeed then
      jerkSpeed
    -- nothing to join: the motion starts from rest
    else if p.stepBlock.len = 0 then min jerkSpeed p.defaultEntrySpeed
    else jerkSpeed * jerkScale param p
  max p.defaultEntrySpeed jerkSpeed

end

section

variable {R : Type*} [Field R] [LinearOrder R] [FloorRing R] [Sqrtf R]

/-- The first part of the preparation: `stage1` to `stage3` of the motion. -/
def prepareStages (param : Param R) (p : StepPlanner R) (args : MotionArgs R) : StepPlanner R :=
  let steps := applyMicroStep param args.steps
  let timed := slowdown p.stepBlock.len args.length args.speed
  let nominalDt := timed.1
  let block := fillBlockSteps { p.block with busy := false, useAccel := args.useAccel } steps
  let masterStepFP : R := block.masterStep
  let block :=
    { block with
      speedFactor := fun i => ((|steps i| : ℤ) : R) / masterStepFP
      mmPerStep := fun i => |args.dist i| / masterStepFP
      extruderMoved :=
        if args.dist 2 = 0 ∨ (args.dist 0 = 0 ∧ args.dist 1 = 0) then false else true
      distance := args.length
      nominalSpeed := timed.2
      nominalRate := masterStepFP / nominalDt }
  let p :=
    limitSpeed param
      { p with
        axisDist := args.dist
        distance := args.length
        nominalDt := nominalDt
        curSpeed := fun i => args.dist i / nominalDt
        defaultEntrySpeed := args.defaultEntrySpeed
        defaultExitSpeed := args.defaultExitSpeed
        block := block }
  let accelSpeed :=
    if steps 0 ≠ 0 ∨ steps 1 ≠ 0 then param.defaultAccelSpeed 0
    else if steps 3 ≠ 0 then param.defaultAccelSpeed 3
    else if steps 2 ≠ 0 then param.defaultAccelSpeed 2
    else p.block.accelSpeed -- `RT_ASSERT(0)`
  let p := limitAccelSpeed param { p with block := { p.block with accelSpeed := accelSpeed } }
  { p with
    block :=
      { p.block with accelRate := p.block.accelSpeed * ((p.block.masterStep : R) / p.distance) } }

/-- The second part of the preparation: the junction with the motion before, and the
end of this one for the next call. -/
def prepareJunction (param : Param R) (p : StepPlanner R) : StepPlanner R :=
  let block := p.block
  let jerkEntrySpeed := min block.nominalSpeed (calcJerkSpeed param p)
  let entrySpeed :=
    if block.nominalSpeed < p.defaultEntrySpeed then block.nominalSpeed
    else if jerkEntrySpeed < p.defaultEntrySpeed then p.defaultEntrySpeed
    else jerkEntrySpeed
  let after := min (speedAfterAccel jerkEntrySpeed block.accelSpeed block.distance)
    block.nominalSpeed
  let readyForStop := speedAfterAccel p.defaultExitSpeed block.accelSpeed block.distance
  { p with
    prevExitSpeed := after
    prevSpeed := fun i => p.curSpeed i * (after / block.nominalSpeed)
    block :=
      { block with
        jerkEntrySpeed := jerkEntrySpeed
        speedAfterAccel := after
        speedReadyForStop := readyForStop
        -- until another motion follows, this one has to brake to the exit speed
        entrySpeed := if readyForStop < entrySpeed then readyForStop else entrySpeed
        nominalLengthFlag :=
          if after ≠ block.nominalSpeed then false
          else if block.nominalSpeed > readyForStop then false
          else true
        recalculateFlag := true } }

/-- The trapezoid that the motion is handed over with. -/
def prepareTrapezoid (p : StepPlanner R) : StepPlanner R :=
  let entryFactor := min 1 (p.block.entrySpeed / p.block.nominalSpeed)
  let exitFactor := min 1 (p.defaultExitSpeed / p.block.nominalSpeed)
  { p with block := calculateTrapezoidForBlock p.block entryFactor exitFactor }

/-- `stepPlanner_inputMotion` up to its call of `stepBlock_inputMotion`. -/
def stepPlannerPrepare (param : Param R) (p : StepPlanner R) (args : MotionArgs R) :
    StepPlanner R :=
  prepareTrapezoid (prepareJunction param (prepareStages param p args))

/-! ## The command of the prepared motion -/

omit [FloorRing R] [Sqrtf R] in
theorem limitSpeed_command (param : Param R) (p : StepPlanner R) :
    (limitSpeed param p).block.toCommand = p.block.toCommand ∧
      (limitSpeed param p).stepBlock = p.stepBlock := by
  simp only [limitSpeed]
  split
  · exact ⟨rfl, rfl⟩
  · exact ⟨rfl, rfl⟩

omit [Sqrtf R] in
theorem prepareTrapezoid_retimed (p : StepPlanner R) :
    Retimed p.block (prepareTrapezoid p).block := calculateTrapezoid_retimed _ _ _

omit [FloorRing R] [Sqrtf R] in
theorem prepareStages_command (param : Param R) (p : StepPlanner R) (args : MotionArgs R) :
    (prepareStages param p args).block.toCommand =
        (fillBlockSteps p.block (applyMicroStep param args.steps)).toCommand ∧
      (prepareStages param p args).stepBlock = p.stepBlock := by
  unfold prepareStages
  exact limitSpeed_command _ _

/-- The motion asks for the displacement times `microStep`. -/
theorem prepare_command (param : Param R) (p : StepPlanner R) (args : MotionArgs R) :
    (stepPlannerPrepare param p args).block.toCommand =
      (fillBlockSteps p.block (applyMicroStep param args.steps)).toCommand := by
  obtain ⟨_, _, _, _, _, h⟩ :=
    prepareTrapezoid_retimed (prepareJunction param (prepareStages param p args))
  rw [stepPlannerPrepare, h]
  exact (prepareStages_command param p args).1

theorem prepare_stepBlock (param : Param R) (p : StepPlanner R) (args : MotionArgs R) :
    (stepPlannerPrepare param p args).stepBlock = p.stepBlock :=
  (prepareStages_command param p args).2

omit [Field R] [LinearOrder R] [FloorRing R] [Sqrtf R] in
/-- The signed steps of a filled block are the steps it was filled with. -/
theorem fillBlockSteps_signed (line : MotionLine R) (steps : Axis → ℤ) (i : Axis) :
    (fillBlockSteps line steps).toCommand.signed i = steps i := by
  show dirSign (decide (steps i > 0)) * |steps i| = steps i
  rcases lt_or_ge 0 (steps i) with hpos | hneg
  · simp [dirSign, hpos, abs_of_pos]
  · simp [dirSign, not_lt.mpr hneg, abs_of_nonpos hneg]

omit [Field R] [LinearOrder R] [FloorRing R] [Sqrtf R] in
theorem fillBlockSteps_nonneg (line : MotionLine R) (steps : Axis → ℤ) (i : Axis) :
    0 ≤ (fillBlockSteps line steps).steps i := abs_nonneg _

end

end TdPrinter
