import TdPrinter.Foundation.RingBuffer
import TdPrinter.RtThread.Event
import TdPrinter.Motion.StepAxis

/-!
# The motion buffer

The data of `libStepBlock.h`: the planned motions (`motionLine_t`), the ring
buffer that holds them and the state of the motion that is being executed.  The
step timer is part of the state: `libStepBlock.c` is its only user.

A motion carries two things.  Its `Command` (master step, steps and directions) is
what the step generator executes; it is fixed when the motion is made.  The speeds
and rates around it are the plan, which the planner rewrites while the motion is
queued.
-/

namespace TdPrinter

/-- The flags of `stepBlock_t.event`. -/
inductive StepEvent
  | blockComplete
  | blockIdle
  deriving DecidableEq

/-- The threads that receive `stepBlock_t.event`. -/
inductive Thread
  | gcodeThread
  | corePrinterThread
  deriving DecidableEq

/-- The step counts of a motion, as the step generator gets them. -/
@[ext]
structure Command where
  masterStep : ℤ
  steps : Axis → ℤ
  dir : Axis → Bool

/-- The signed steps of axis `i`. -/
def Command.signed (c : Command) (i : Axis) : ℤ := dirSign (c.dir i) * c.steps i

/-- The fields of `param_t` that the motion code reads. -/
structure Param (R : Type*) where
  positionOffset : Axis → R
  mm2step : Axis → R
  microStep : Axis → ℤ
  maxSpeed : Axis → R
  maxSpeedDelta : Axis → R
  defaultEntrySpeed : Axis → R
  defaultAccelSpeed : Axis → R
  maxAccelSpeed : Axis → R
  advanceK : R
  advanceDeprime : R

/-- `motionLine_t`. -/
structure MotionLine (R : Type*) extends Command where
  distance : R
  nominalSpeed : R
  nominalRate : R
  accelRate : R
  accelSpeed : R
  jerkEntrySpeed : R
  entrySpeed : R
  entryRate : R
  exitRate : R
  accelBefore : ℤ
  decelAfter : ℤ
  recalculateFlag : Bool
  busy : Bool
  nominalLengthFlag : Bool
  useAccel : Bool
  mmPerStep : Axis → R
  speedFactor : Axis → R
  extruderMoved : Bool
  trueNominalRate : R
  trueExitRate : R
  trueTime : R
  speedReadyForStop : R
  speedAfterAccel : R

/-- A `motionLine_t` of zeros, as static storage holds it at start-up. -/
def MotionLine.zero {R : Type*} [Zero R] : MotionLine R where
  masterStep := 0
  steps := fun _ => 0
  dir := fun _ => false
  distance := 0
  nominalSpeed := 0
  nominalRate := 0
  accelRate := 0
  accelSpeed := 0
  jerkEntrySpeed := 0
  entrySpeed := 0
  entryRate := 0
  exitRate := 0
  accelBefore := 0
  decelAfter := 0
  recalculateFlag := false
  busy := false
  nominalLengthFlag := false
  useAccel := false
  mmPerStep := fun _ => 0
  speedFactor := fun _ => 0
  extruderMoved := false
  trueNominalRate := 0
  trueExitRate := 0
  trueTime := 0
  speedReadyForStop := 0
  speedAfterAccel := 0

/-! ## The step timer -/

/-- The step timer: `TIM1` and the static variable `dt` of `libStepTimer.h`. -/
structure StepTimer (R : Type*) where
  enabled : Bool
  prescale : ℤ
  reload : ℤ
  dt : R

/-- `stepTimer_setEnable`. -/
def stepTimerSetEnable {R : Type*} (t : StepTimer R) (en : Bool) : StepTimer R :=
  { t with enabled := en }

/-- `stepTimer_setRate`; the registers are 16-bit. -/
def stepTimerSetRate {R : Type*} [Field R] [LinearOrder R] [FloorRing R] (t : StepTimer R)
    (rate : R) : StepTimer R :=
  { t with
    prescale := if rate > 500 then 1 * 7 - 1 else 50 * 7 - 1
    reload :=
      if rate > 500 then (⌊24000000 / rate⌋ - 1) % 65536
      else if rate > 10 then (⌊480000 / rate⌋ - 1) % 65536
      else 48000 - 1
    dt := 1 / rate }

/-! ## The buffer -/

/-- The array `stepBlock_t.buffer`. -/
abbrev MotionBuffer (R : Type*) := Fin motionBufferSize → MotionLine R

/-- `stepBlock_t`; `currentBuffer` is the slot that the pointer points to. -/
structure StepBlock (R : Type*) where
  stepAxis : StepAxis R
  buffer : MotionBuffer R
  currentLine : MotionLine R
  currentBuffer : Option (Fin motionBufferSize)
  head : Fin motionBufferSize
  tail : Fin motionBufferSize
  len : ℕ
  event : Event Thread StepEvent
  masterCounter : ℤ
  currentRate : R
  timeElasped : R
  timer : StepTimer R

/-- `inc` of `libStepBlock.c`, and `next_block_index` of `libPlanner.c`. -/
def inc (num : Fin motionBufferSize) : Fin motionBufferSize :=
  if h : num.val + 1 < motionBufferSize then ⟨num.val + 1, h⟩ else 0

theorem inc_eq_slot (num : Fin motionBufferSize) : inc num = slot num 1 := by
  have := num.isLt
  ext
  simp only [inc, slot]
  split
  · rename_i h
    exact (Nat.mod_eq_of_lt h).symm
  · show 0 = (num.val + 1) % 16
    change ¬ num.val + 1 < 16 at *
    change num.val < 16 at this
    omega

section

variable {R : Type*}

/-- The queued motions, oldest first. -/
def StepBlock.queue (sb : StepBlock R) : List (MotionLine R) := window sb.buffer sb.tail sb.len

theorem StepBlock.len_eq_length (sb : StepBlock R) : sb.len = sb.queue.length := by
  rw [StepBlock.queue, length_window]

/-- The signed steps of axis `i` in a list of commands. -/
def signedSteps (cs : List Command) (i : Axis) : ℤ := (cs.map fun c => c.signed i).sum

@[simp]
theorem signedSteps_nil (i : Axis) : signedSteps [] i = 0 := rfl

@[simp]
theorem signedSteps_cons (c : Command) (cs : List Command) (i : Axis) :
    signedSteps (c :: cs) i = c.signed i + signedSteps cs i := by simp [signedSteps]

@[simp]
theorem signedSteps_append (cs ds : List Command) (i : Axis) :
    signedSteps (cs ++ ds) i = signedSteps cs i + signedSteps ds i := by simp [signedSteps]

/-- The commands of the queued motions. -/
def StepBlock.pending (sb : StepBlock R) : List Command :=
  sb.queue.map fun line => line.toCommand

end

end TdPrinter
