import TdPrinter.Motion.Planner

/-!
# The motion queue and its interrupt

`libStepBlock.c`.  `stepBlock_inputMotion` puts a motion into the ring buffer and
starts the step timer if it stands still; the timer interrupt `stepBlock_ISR`
executes the current motion and fetches the next one when it is done.

`stepBlock_inputMotion` and `stepBlock_forceStop` can be interrupted, so each of them
is cut into the pieces between which the interrupt and other threads can run.  The
caller's position between the pieces is kept by the machines that use them.
-/

namespace TdPrinter

section

variable {R : Type*}

/-! ## Receivers of the event -/

/-- The receive of `STEP_EVENT_BLOCK_COMPLETE` in `stepBlock_inputMotion`. -/
def recvComplete : Receiver Thread StepEvent := ⟨.gcodeThread, {.blockComplete}, true, true⟩

/-- The receive of `STEP_EVENT_BLOCK_IDLE` in `stepBlock_inputMotion` and
`stepBlock_forceStop`, which clears the flag. -/
def recvIdleClear : Receiver Thread StepEvent := ⟨.gcodeThread, {.blockIdle}, true, true⟩

/-- The receive of `stepBlock_waitForIdle`, which leaves the flag set. -/
def recvIdle (t : Thread) : Receiver Thread StepEvent := ⟨t, {.blockIdle}, true, false⟩

/-- `stepBlock_waitForIdle` with `RT_WAITING_FOREVER`, called by `t`. -/
def stepBlockWaitForIdle (sb : StepBlock R) (t : Thread) : StepBlock R × Option RtErr :=
  let r := rtEventRecv sb.event (recvIdle t) true
  ({ sb with event := r.1 }, r.2)

/-- `stepBlock_isBusy`. -/
def stepBlockIsBusy (sb : StepBlock R) : Bool := stepAxisIsBusy sb.stepAxis

/-! ## Start-up -/

/-- `stepBlock_reset`. -/
def stepBlockReset [Zero R] (sb : StepBlock R) : StepBlock R :=
  { sb with head := 0, tail := 0, len := 0, stepAxis := stepAxisReset sb.stepAxis }

/-- `stepBlock_construct` and `stepBlock_init` on zeroed storage, after the first interrupt, which
has stopped the timer. -/
def stepBlockInit [Zero R] : StepBlock R :=
  stepBlockReset
    { stepAxis := stepAxisInit
      buffer := fun _ => MotionLine.zero
      currentLine := MotionLine.zero
      currentBuffer := none
      head := 0
      tail := 0
      len := 0
      event := rtEventSend (rtEventSend rtEventCreate {.blockIdle}) {.blockComplete}
      masterCounter := 0
      currentRate := 0
      timeElasped := 0
      timer := ⟨false, 0, 0, 0⟩ }

end

section

variable {R : Type*} [Field R] [LinearOrder R] [FloorRing R]

/-! ## Loading a motion -/

/-- The advance of the extruder at `rate` in the motion `line`. -/
def lineAdvance (param : Param R) (line : MotionLine R) (rate : R) : R :=
  param.advanceK * rate * line.mmPerStep 2 * rate * line.mmPerStep 2 * (1 / 10)

/-- The branch of `stepBlock_loadNextMotion` for a queue that is not empty. -/
def stepBlockLoad (param : Param R) (sb : StepBlock R) : StepBlock R :=
  let line := sb.buffer sb.tail
  let rate := if line.useAccel then line.entryRate else line.nominalRate
  let advance :=
    if line.extruderMoved then lineAdvance param line rate else -param.advanceDeprime
  { sb with
    currentLine := line
    currentBuffer := some sb.tail
    stepAxis :=
      stepAxisSetAdvance (stepAxisReload sb.stepAxis line.masterStep line.steps line.dir) advance
    tail := inc sb.tail
    len := sb.len - 1
    event := rtEventReset sb.event
    timeElasped := 0
    currentRate := rate
    masterCounter := 0
    timer := stepTimerSetEnable (stepTimerSetRate sb.timer rate) true }

/-- `stepBlock_loadNextMotion`. -/
def stepBlockLoadNextMotion (param : Param R) (sb : StepBlock R) : Bool × StepBlock R :=
  if sb.len > 0 then (true, stepBlockLoad param sb)
  else (false, { sb with timer := stepTimerSetEnable sb.timer false })

/-! ## stepBlock_inputMotion -/

/-- The buffer has room: one slot always stays free. -/
def StepBlock.HasRoom (sb : StepBlock R) : Prop := sb.len < motionBufferSize - 1

instance (sb : StepBlock R) : Decidable sb.HasRoom :=
  inferInstanceAs (Decidable (sb.len < motionBufferSize - 1))

/-- The receive of `STEP_EVENT_BLOCK_COMPLETE`: with a timeout of 10 ticks in the
wait loop, without waiting when there is room from the start. -/
def stepBlockRecvComplete (sb : StepBlock R) (wait : Bool) : StepBlock R × Option RtErr :=
  let r := rtEventRecv sb.event recvComplete wait
  ({ sb with event := r.1 }, r.2)

def stepBlockInsert (sb : StepBlock R) (block : MotionLine R) : StepBlock R :=
  { sb with
    buffer := Function.update sb.buffer sb.head block
    head := inc sb.head
    len := sb.len + 1 }

/-- The call of the planner after the insertion. -/
def stepBlockReplan [Sqrtf R] (sb : StepBlock R) (block : MotionLine R) : StepBlock R :=
  if block.useAccel then plannerRecalculate sb else sb

/-- The test of `STEP_EVENT_BLOCK_IDLE` at the end. -/
def stepBlockIdleTest (param : Param R) (sb : StepBlock R) : StepBlock R :=
  let r := rtEventRecv sb.event recvIdleClear false
  let sb := { sb with event := r.1 }
  -- whether anything has been loaded is not looked at
  if r.2 = some .eok then (stepBlockLoadNextMotion param sb).2 else sb

/-! ## stepBlock_forceStop -/

/-- `stepBlock_forceStop` up to `rt_thread_delay(1)`. -/
def stepBlockForceStopBegin (sb : StepBlock R) : StepBlock R :=
  -- with the flag clear, an insertion does not start the timer
  let event := (rtEventRecv sb.event recvIdleClear false).1
  { sb with
    timer := stepTimerSetEnable sb.timer false
    len := 0
    event := rtEventSend event {.blockComplete} }

/-- `stepBlock_forceStop` after `rt_thread_delay(1)`. -/
def stepBlockForceStopEnd (sb : StepBlock R) : StepBlock R :=
  { sb with
    event := rtEventSend (rtEventSend sb.event {.blockComplete}) {.blockIdle}
    head := 0
    tail := 0
    len := 0 }

/-! ## stepBlock_ISR -/

/-- The first `if` of `stepBlock_ISR`. -/
def stepBlockStep (pins : TriggerPins) (sb : StepBlock R) : StepBlock R :=
  if stepBlockIsBusy sb then
    { sb with
      stepAxis := stepAxisStep sb.stepAxis pins
      masterCounter := sb.masterCounter + 1 }
  else sb

/-- The speed ramp of `stepBlock_ISR`. -/
def stepBlockRamp (sb : StepBlock R) : StepBlock R :=
  if sb.currentLine.useAccel then
    let dt := sb.timer.dt
    let line := sb.currentLine
    let sb := { sb with timeElasped := sb.timeElasped + dt }
    if sb.masterCounter < line.accelBefore then
      -- accelerating
      let rate := min (sb.currentRate + line.accelRate * dt) line.nominalRate
      { sb with
        currentRate := rate
        currentLine := { line with trueNominalRate := rate }
        timer := stepTimerSetRate sb.timer rate }
    else if sb.masterCounter ≥ line.decelAfter then
      -- braking
      let rate := max (sb.currentRate - line.accelRate * dt) line.exitRate
      { sb with
        currentRate := rate
        currentLine := { line with trueExitRate := rate }
        timer := stepTimerSetRate sb.timer rate }
    else
      { sb with
        currentRate := line.nominalRate
        timer := stepTimerSetRate sb.timer line.nominalRate }
  else sb

/-- The extruder advance of `stepBlock_ISR`. -/
def stepBlockAdvance (param : Param R) (sb : StepBlock R) : StepBlock R :=
  if sb.currentLine.extruderMoved then
    { sb with
      stepAxis :=
        stepAxisSetAdvance sb.stepAxis (lineAdvance param sb.currentLine sb.currentRate) }
  else sb

/-- `stepBlock_ISR` up to its last `if`. -/
def stepBlockExecute (param : Param R) (pins : TriggerPins) (sb : StepBlock R) : StepBlock R :=
  stepBlockAdvance param (stepBlockRamp (stepBlockStep pins sb))

/-- The record that a finished motion leaves in its slot. -/
def stepBlockWriteBack (sb : StepBlock R) : StepBlock R :=
  match sb.currentBuffer with
  | none => sb
  | some current =>
      { sb with
        buffer := Function.update sb.buffer current
          { sb.buffer current with
            trueNominalRate := sb.currentLine.trueNominalRate
            trueExitRate := sb.currentLine.trueExitRate
            trueTime := sb.timeElasped } }

/-- The body of the last `if` of `stepBlock_ISR`. -/
def stepBlockComplete (param : Param R) (sb : StepBlock R) : StepBlock R :=
  let r := stepBlockLoadNextMotion param (stepBlockWriteBack sb)
  if r.1 then { r.2 with event := rtEventSend r.2.event {.blockComplete} }
  else
    { r.2 with
      event := rtEventSend (rtEventSend r.2.event {.blockComplete}) {.blockIdle} }

/-- `stepBlock_ISR`. -/
def stepBlockISR (param : Param R) (pins : TriggerPins) (sb : StepBlock R) : StepBlock R :=
  let sb := stepBlockExecute param pins sb
  if stepBlockIsBusy sb then sb else stepBlockComplete param sb

end

end TdPrinter
