import TdPrinter.Motion.MotionBuffer

/-!
# The look-ahead planner

`libPlanner.c`.  After each insertion `planner_recalculate` goes over the queue
three times: backwards, to lower entry speeds that leave too little room to brake;
forwards, to lower those that cannot be reached; and once more to compute the
trapezoids.

The loops walk the ring with an index and a shifted array of pointers.  They are
translated as they stand, with the number of slots as fuel.  The folds at the end
say what the passes do to the list of queued motions; `PlannerPasses.lean` connects
the two, and all later results work with the folds.
-/

namespace TdPrinter

/-! ## Ring indices -/

/-- `prev_block_index`. -/
def prevBlockIndex (i : Fin motionBufferSize) : Fin motionBufferSize :=
  if h : i.val = 0 then Fin.last 15 else ⟨i.val - 1, by omega⟩

/-- `block_size`. -/
def blockSize (head tail : Fin motionBufferSize) : ℕ :=
  (head.val + motionBufferSize - tail.val) % motionBufferSize

theorem prevBlockIndex_slot (tail : Fin motionBufferSize) (k : ℕ) :
    prevBlockIndex (slot tail (k + 1)) = slot tail k := by
  by_cases h : (slot tail (k + 1)).val = 0
  · rw [prevBlockIndex, dif_pos h]
    ext
    change (tail.val + (k + 1)) % 16 = 0 at h
    show 15 = (tail.val + k) % 16
    omega
  · rw [prevBlockIndex, dif_neg h]
    ext
    change ¬ (tail.val + (k + 1)) % 16 = 0 at h
    show (tail.val + (k + 1)) % 16 - 1 = (tail.val + k) % 16
    omega

theorem blockSize_slot (tail : Fin motionBufferSize) {n : ℕ} (hn : n < motionBufferSize) :
    blockSize (slot tail n) tail = n := by
  have htail : tail.val < 16 := tail.isLt
  change n < 16 at hn
  show ((tail.val + n) % 16 + 16 - tail.val) % 16 = n
  omega

section

variable {R : Type*} [Field R] [LinearOrder R] [FloorRing R] [Sqrtf R]

/-! ## Kinematics -/

/-- `MINIMUM_PLANNER_SPEED`. -/
def minimumPlannerSpeed : R := 5 / 100

/-- `estimate_accelSpeed_distance`. -/
def estimateAccelSpeedDistance (initialRate targetRate accelSpeed : R) : R :=
  if accelSpeed ≠ 0 then (targetRate * targetRate - initialRate * initialRate) / (2 * accelSpeed)
  else 0

/-- `intersection_distance`. -/
def intersectionDistance (initialRate finalRate accelSpeed distance : R) : R :=
  if accelSpeed ≠ 0 then
    (2 * accelSpeed * distance - initialRate * initialRate + finalRate * finalRate) /
      (4 * accelSpeed)
  else 0

/-- `speedAfterAccel`. -/
def speedAfterAccel (curSpeed accelSpeed distance : R) : R :=
  let dstSpeedSquared := curSpeed * curSpeed + 2 * accelSpeed * distance
  if dstSpeedSquared > 0 then sqrtf dstSpeedSquared else -sqrtf (-dstSpeedSquared)

/-- `calculate_trapezoid_for_block`. -/
def calculateTrapezoidForBlock (block : MotionLine R) (entryFactor exitFactor : R) :
    MotionLine R :=
  let entryRate := max (block.nominalRate * entryFactor) 120
  let exitRate := max (block.nominalRate * exitFactor) 120
  let accelRate := block.accelRate
  let accelerateSteps : ℤ := ⌈estimateAccelSpeedDistance entryRate block.nominalRate accelRate⌉
  let decelerateSteps : ℤ := ⌊estimateAccelSpeedDistance block.nominalRate exitRate (-accelRate)⌋
  -- below zero there is no cruising: braking starts where the two ramps meet
  let plateauSteps := block.masterStep - accelerateSteps - decelerateSteps
  let intersection : ℤ := ⌈intersectionDistance entryRate exitRate accelRate block.masterStep⌉
  let accelBefore :=
    if plateauSteps < 0 then min (max intersection 0) block.masterStep else accelerateSteps
  let plateau := if plateauSteps < 0 then 0 else plateauSteps
  if block.busy = false then
    { block with
      accelBefore := accelBefore
      decelAfter := accelBefore + plateau
      entryRate := entryRate
      exitRate := exitRate }
  else block

/-! ## Reverse pass -/

/-- `planner_reverse_pass_kernel` on two blocks that are both there. -/
def reverseKernel (current next : MotionLine R) : MotionLine R :=
  if current.entrySpeed ≠ current.jerkEntrySpeed then
    if current.nominalLengthFlag = false ∧ current.jerkEntrySpeed > next.entrySpeed then
      { current with
        entrySpeed := min current.jerkEntrySpeed
          (speedAfterAccel next.entrySpeed current.accelSpeed current.distance)
        recalculateFlag := true }
    else { current with entrySpeed := current.jerkEntrySpeed, recalculateFlag := true }
  -- from now on the forward pass trusts this block to reach the next junction
  else { current with nominalLengthFlag := true }

/-- `planner_reverse_pass_kernel`; `none` is the null pointer. -/
def plannerReversePassKernel (buf : MotionBuffer R) :
    Option (Fin motionBufferSize) → Option (Fin motionBufferSize) → MotionBuffer R
  | some current, some next => Function.update buf current (reverseKernel (buf current) (buf next))
  | _, _ => buf

/-- The loop of `planner_reverse_pass`; `block0` and `block1` are `block[0]` and
`block[1]`, which become `block[1]` and `block[2]` in the loop body. -/
def plannerReverseLoop (tail : Fin motionBufferSize) :
    ℕ → MotionBuffer R → Fin motionBufferSize → Option (Fin motionBufferSize) →
      Option (Fin motionBufferSize) → MotionBuffer R
  | 0, buf, _, _, _ => buf
  | fuel + 1, buf, blockIndex, block0, block1 =>
      if blockIndex = tail then buf
      else
        plannerReverseLoop tail fuel (plannerReversePassKernel buf block0 block1)
          (prevBlockIndex blockIndex) (some (prevBlockIndex blockIndex)) block0

/-- `planner_reverse_pass`. -/
def plannerReversePass (buf : MotionBuffer R) (head tail : Fin motionBufferSize) :
    MotionBuffer R :=
  if blockSize head tail > 2 then plannerReverseLoop tail motionBufferSize buf head none none
  else buf

/-! ## Forward pass -/

/-- `planner_forward_pass_kernel` on two blocks that are both there: the new
`current`. -/
def forwardKernel (previous current : MotionLine R) : MotionLine R :=
  if previous.nominalLengthFlag = false ∧ previous.entrySpeed < current.entrySpeed then
    let entrySpeed := min current.entrySpeed
      (speedAfterAccel previous.entrySpeed previous.accelSpeed previous.distance)
    if current.entrySpeed ≠ entrySpeed then
      { current with entrySpeed := entrySpeed, recalculateFlag := true }
    else current
  else current

/-- `planner_forward_pass_kernel`; `none` is the null pointer. -/
def plannerForwardPassKernel (buf : MotionBuffer R) :
    Option (Fin motionBufferSize) → Option (Fin motionBufferSize) → MotionBuffer R
  | some previous, some current =>
      Function.update buf current (forwardKernel (buf previous) (buf current))
  | _, _ => buf

/-- The loop of `planner_forward_pass` with the call after it; `block1` and
`block2` are `block[1]` and `block[2]`. -/
def plannerForwardLoop (head : Fin motionBufferSize) :
    ℕ → MotionBuffer R → Fin motionBufferSize → Option (Fin motionBufferSize) →
      Option (Fin motionBufferSize) → MotionBuffer R
  | 0, buf, _, _, _ => buf
  | fuel + 1, buf, blockIndex, block1, block2 =>
      if blockIndex = head then plannerForwardPassKernel buf block1 block2
      else
        plannerForwardLoop head fuel (plannerForwardPassKernel buf block1 block2)
          (inc blockIndex) block2 (some blockIndex)

/-- `planner_forward_pass`. -/
def plannerForwardPass (buf : MotionBuffer R) (head tail : Fin motionBufferSize) :
    MotionBuffer R :=
  plannerForwardLoop head motionBufferSize buf tail none none

/-! ## Trapezoids -/

/-- The loop body of `planner_recalculate_trapezoids`: the new `current`. -/
def trapezoidKernel (current next : MotionLine R) : MotionLine R :=
  if current.recalculateFlag || next.recalculateFlag then
    { calculateTrapezoidForBlock current (current.entrySpeed / current.nominalSpeed)
        (next.entrySpeed / current.nominalSpeed) with
      recalculateFlag := false }
  else current

/-- The last part of `planner_recalculate_trapezoids`, for the newest block. -/
def trapezoidLast (next : MotionLine R) : MotionLine R :=
  { calculateTrapezoidForBlock next (next.entrySpeed / next.nominalSpeed)
      (minimumPlannerSpeed / next.nominalSpeed) with
    recalculateFlag := false }

/-- The loop of `planner_recalculate_trapezoids`; `next` is the value the variable
holds before the loop body. -/
def plannerTrapezoidsLoop (head : Fin motionBufferSize) :
    ℕ → MotionBuffer R → Fin motionBufferSize → Option (Fin motionBufferSize) → MotionBuffer R
  | 0, buf, _, _ => buf
  | fuel + 1, buf, blockIndex, next =>
      if blockIndex = head then
        match next with
        | some last => Function.update buf last (trapezoidLast (buf last))
        | none => buf
      else
        let buf' :=
          match next with
          | some current =>
              Function.update buf current (trapezoidKernel (buf current) (buf blockIndex))
          | none => buf
        plannerTrapezoidsLoop head fuel buf' (inc blockIndex) (some blockIndex)

/-- `planner_recalculate_trapezoids`. -/
def plannerRecalculateTrapezoids (buf : MotionBuffer R) (head tail : Fin motionBufferSize) :
    MotionBuffer R :=
  plannerTrapezoidsLoop head motionBufferSize buf tail none

/-- `planner_recalculate`. -/
def plannerRecalculate (sb : StepBlock R) : StepBlock R :=
  let reversed := plannerReversePass sb.buffer sb.head sb.tail
  let forwarded := plannerForwardPass reversed sb.head sb.tail
  { sb with buffer := plannerRecalculateTrapezoids forwarded sb.head sb.tail }

/-! ## The passes on the list of queued motions -/

/-- One motion in front of motions that have been reverse planned. -/
def reverseOnto (block : MotionLine R) : List (MotionLine R) → List (MotionLine R)
  | [] => [block]
  | next :: rest => reverseKernel block next :: next :: rest

/-- The reverse pass: the oldest motion keeps its entry speed, and a queue of at
most two is left alone. -/
def reversePlan : List (MotionLine R) → List (MotionLine R)
  | oldest :: b :: c :: rest => oldest :: (b :: c :: rest).foldr reverseOnto []
  | queue => queue

def forwardFrom : MotionLine R → List (MotionLine R) → List (MotionLine R)
  | block, [] => [block]
  | block, next :: rest => block :: forwardFrom (forwardKernel block next) rest

def forwardPlan : List (MotionLine R) → List (MotionLine R)
  | [] => []
  | oldest :: rest => forwardFrom oldest rest

def trapezoidPlan : List (MotionLine R) → List (MotionLine R)
  | [] => []
  | [last] => [trapezoidLast last]
  | b :: c :: rest => trapezoidKernel b c :: trapezoidPlan (c :: rest)

/-- What `planner_recalculate` does to the queue. -/
def recalculatePlan (queue : List (MotionLine R)) : List (MotionLine R) :=
  trapezoidPlan (forwardPlan (reversePlan queue))

end

end TdPrinter
