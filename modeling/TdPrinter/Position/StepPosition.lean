import TdPrinter.Planning.StepPlanner

/-!
# Positions

`libStepPosition.c`.  The program's idea of where the axes are is kept in
millimetres (`mm`) and in full steps (`step`); a move sets the destination
`mmDst`, from which `stepDst` and the displacement handed to the planner follow.
`stepPosition_setMm` redefines the position and copies it to the hardware counters,
and `stepPosition_stop` reads it back from them.

The hardware counters are `hardPos` of the step generator, in motor steps.
-/

namespace TdPrinter

/-- `stepPosition_t`. -/
structure StepPosition (R : Type*) where
  planner : StepPlanner R
  mm2step : Axis → R
  mm : Axis → R
  mmDst : Axis → R
  step : Axis → ℤ
  stepDst : Axis → ℤ
  mmOffset : Axis → R
  distanceMoved : R

section

variable {R : Type*}

def StepPosition.sb (p : StepPosition R) : StepBlock R := p.planner.stepBlock

/-- The same position over another state of the step block. -/
def StepPosition.withSb (p : StepPosition R) (sb : StepBlock R) : StepPosition R :=
  { p with planner := { p.planner with stepBlock := sb } }

@[simp]
theorem StepPosition.withSb_sb (p : StepPosition R) (sb : StepBlock R) :
    (p.withSb sb).sb = sb := rfl

def StepPosition.stepOffset (p : StepPosition R) (i : Axis) : ℤ := p.stepDst i - p.step i

/-- `stepPosition_updateSrc`. -/
def stepPositionUpdateSrc (p : StepPosition R) : StepPosition R :=
  { p with step := p.stepDst, mm := p.mmDst }

end

section

variable {R : Type*} [Field R] [LinearOrder R] [FloorRing R]

/-! ## Millimetres and steps -/

/-- `mm2step`. -/
def mm2step (p : StepPosition R) (mm : Axis → R) : Axis → ℤ :=
  fun i => lround (p.mm2step i * mm i)

/-- `step2mm`. -/
def step2mm (p : StepPosition R) (step : Axis → ℤ) : Axis → R :=
  fun i => (step i : R) / p.mm2step i

/-- The loop that `stepPosition_setMm` and `stepPosition_setMmDst` share. -/
def moveTo (cur mm : Axis → R) (relative mask : Axis → Bool) : Axis → R :=
  fun i => if mask i then (if relative i then cur i + mm i else mm i) else cur i

/-- `stepPosition_storeToHardware`. -/
def stepPositionStoreToHardware (p : StepPosition R) : StepPosition R :=
  let p := p.withSb { p.sb with stepAxis := stepAxisSetHardPos p.sb.stepAxis p.step }
  { p with mm := step2mm p p.step, mmDst := step2mm p p.step }

/-- `stepPosition_resetFromHardware`. -/
def stepPositionResetFromHardware (p : StepPosition R) : StepPosition R :=
  let p := { p with step := p.sb.stepAxis.hardPos }
  { p with mm := step2mm p p.step, mmDst := step2mm p p.step }

/-- `stepPosition_setMm`. -/
def stepPositionSetMm (p : StepPosition R) (mm : Axis → R) (relative mask : Axis → Bool) :
    StepPosition R :=
  let p := { p with mm := moveTo p.mm mm relative mask }
  stepPositionStoreToHardware { p with step := mm2step p p.mm }

/-- `stepPosition_setMmDst`. -/
def stepPositionSetMmDst (p : StepPosition R) (mm : Axis → R) (relative mask : Axis → Bool) :
    StepPosition R :=
  { p with mmDst := moveTo p.mmDst mm relative mask }

/-- `stepPosition_construct` and `stepPosition_init` on zeroed storage. -/
def stepPositionInit (param : Param R) : StepPosition R where
  planner := stepPlannerInit
  mm2step := param.mm2step
  mm := fun _ => 0
  mmDst := fun _ => 0
  step := fun _ => 0
  stepDst := fun _ => 0
  mmOffset := fun _ => 0
  distanceMoved := 0

/-- `stepPosition_stop`, which finds no call of `stepBlock_inputMotion` in
progress.  The motors are switched off as well. -/
def stepPositionStop (p : StepPosition R) : StepPosition R :=
  stepPositionResetFromHardware
    (p.withSb (stepBlockForceStopEnd (stepBlockForceStopBegin p.sb)))

end

section

variable {R : Type*} [Field R] [LinearOrder R] [FloorRing R] [Sqrtf R]

/-! ## Moves -/

/-- `stepPosition_getOffsetLength`: the position with its destination in steps, and
the length of the way. -/
def stepPositionGetOffsetLength (p : StepPosition R) : StepPosition R × R :=
  let p :=
    { p with stepDst := mm2step p p.mmDst, mmOffset := fun i => p.mmDst i - p.mm i }
  let length :=
    match axes.filter fun i => p.stepOffset i ≠ 0 with
    | [] => 1
    | [i] => |p.mmOffset i|
    | _ =>
        -- of the axes from Z on, the one with the longest way counts
        let z := (axes.filter fun i => 3 ≤ i.val).foldl
          (fun z i => if |p.mmOffset i| > z then |p.mmOffset i| else z) 0
        sqrtf (p.mmOffset 0 * p.mmOffset 0 + p.mmOffset 1 * p.mmOffset 1 + z * z)
  (p, length)

/-- `MINIMUM_POSITION_SPEED`. -/
def minimumPositionSpeed : R := 1 / 10

/-- `LENGTH_ENTRY_SPEED_SLOWDOWN`. -/
def lengthEntrySpeedSlowdown : R := 4

/-- The default entry speed of a move: by the axes it concerns, and lower for a
short way. -/
def moveEntrySpeed (param : Param R) (stepOffset : Axis → ℤ) (length : R) : R :=
  if stepOffset 3 ≠ 0 then param.defaultEntrySpeed 3
  else if stepOffset 0 = 0 ∧ stepOffset 1 = 0 then param.defaultEntrySpeed 2
  else if length > lengthEntrySpeedSlowdown then param.defaultEntrySpeed 0
  else
    max (param.defaultEntrySpeed 0 * (length / lengthEntrySpeedSlowdown)) minimumPositionSpeed

/-- `stepPosition_inputNextPosition` up to the call of `stepBlock_inputMotion` in it.
The second component tells whether that call is made; it is made with
`planner.block`, and `stepPosition_updateSrc` follows it. -/
def stepPositionInputNextPosition (param : Param R) (p : StepPosition R) (pos : Axis → R)
    (relative mask : Axis → Bool) (speed : R) (useAccel : Bool) : StepPosition R × Bool :=
  let r := stepPositionGetOffsetLength (stepPositionSetMmDst p pos relative mask)
  let p := r.1
  let length := r.2
  let stepLength := (axes.map fun i => |p.stepOffset i|).sum
  if stepLength > 0 then
    let entrySpeed := moveEntrySpeed param p.stepOffset length
    let args : MotionArgs R :=
      { steps := p.stepOffset
        dist := p.mmOffset
        speed := if speed < minimumPositionSpeed then minimumPositionSpeed else speed
        length := length
        useAccel := useAccel
        defaultEntrySpeed := entrySpeed
        defaultExitSpeed := entrySpeed }
    ({ p with
        distanceMoved := if p.stepOffset 2 > 0 then p.distanceMoved + length else p.distanceMoved
        planner := stepPlannerPrepare param p.planner args }, true)
  -- no step on any axis: the displacement stays in `mmDst` for the next move
  else (p, false)

/-! ## What a move does to the position -/

/-- A move that is worth a motion asks for the displacement times `microStep`. -/
theorem inputNextPosition_motion {param : Param R} {p p' : StepPosition R} {pos : Axis → R}
    {relative mask : Axis → Bool} {speed : R} {useAccel : Bool}
    (h : stepPositionInputNextPosition param p pos relative mask speed useAccel = (p', true)) :
    (∀ i, p'.planner.block.toCommand.signed i =
        (p'.stepDst i - p'.step i) * param.microStep i) ∧
      ∀ i, 0 ≤ p'.planner.block.steps i := by
  simp only [stepPositionInputNextPosition] at h
  split at h
  · obtain ⟨rfl, -⟩ := Prod.mk.inj h
    have hcommand := fun args => prepare_command param (stepPositionGetOffsetLength
      (stepPositionSetMmDst p pos relative mask)).1.planner args
    constructor
    · intro i
      simp only [hcommand, fillBlockSteps_signed, applyMicroStep]
      rfl
    · intro i
      show 0 ≤ (stepPlannerPrepare param _ _).block.toCommand.steps i
      rw [hcommand]
      exact fillBlockSteps_nonneg _ _ i
  · simp at h

/-- A move changes the destination, not the position. -/
theorem inputNextPosition_frame (param : Param R) (p : StepPosition R) (pos : Axis → R)
    (relative mask : Axis → Bool) (speed : R) (useAccel : Bool) :
    let p' := (stepPositionInputNextPosition param p pos relative mask speed useAccel).1
    p'.sb = p.sb ∧ p'.step = p.step ∧ p'.mm = p.mm ∧ p'.mm2step = p.mm2step ∧
      ∀ i, p'.stepDst i = lround (p'.mm2step i * p'.mmDst i) := by
  simp only [stepPositionInputNextPosition]
  split
  · exact ⟨prepare_stepBlock _ _ _, rfl, rfl, rfl, fun _ => rfl⟩
  · exact ⟨rfl, rfl, rfl, rfl, fun _ => rfl⟩

end

end TdPrinter
