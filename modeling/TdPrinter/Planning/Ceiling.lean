import TdPrinter.Motion.RateBounds
import TdPrinter.Motion.Trapezoid
import TdPrinter.Planning.AxisLimits

/-!
# Speed ceilings

The preparation limits a motion in mm/s: by the speed that is asked for, and by
`maxSpeed` of each axis.  What is executed is a rate in steps/s, which the trapezoid
computes anew from factors and which the interrupt integrates.  The trapezoid does not
go below 120 steps/s, where the timer would overflow, so a slow motion begins and ends
faster than it is asked to.

A motion can also be planned to end above its own nominal rate, if the next one begins
faster.  Then it has no exit ramp (`masterStep_le_decelAfter`), and the rate jumps to the exit
rate when the last step has been made.

`Execution` remembers which call a motion comes from while the motion is queued and
executed.  `speed_ceiling` says that no tick goes beyond the limits of the call or the
120 steps/s, with the jump behind the last step as the only exception.
-/

namespace TdPrinter

section

variable {R : Type*} [Field R] [LinearOrder R]

/-! ## Rates under the clamp -/

/-- A block whose rates are in order, up to the least rate of a trapezoid. -/
structure MotionLine.Paced (b : MotionLine R) : Prop where
  sized : b.Sized
  le_entryRate : 120 ≤ b.entryRate
  entryRate_le : b.entryRate ≤ max b.nominalRate 120
  le_exitRate : 120 ≤ b.exitRate
  /-- no exit ramp leads upwards -/
  masterStep_le : b.nominalRate < b.exitRate → b.masterStep ≤ b.decelAfter

/-- The rate is below the nominal one, or below 120 steps/s, and the timer has been set
to it. -/
structure StepBlock.UnderCeiling (sb : StepBlock R) : Prop where
  le_currentRate : min sb.currentLine.nominalRate 120 ≤ sb.currentRate
  currentRate_le : sb.currentRate ≤ max sb.currentLine.nominalRate 120
  dt_eq : sb.timer.dt = 1 / sb.currentRate

structure MotionLine.Ramped (b : MotionLine R) : Prop extends b.Paced where
  useAccel : b.useAccel = true

/-- The current motion has steps left, or it does not end above its own nominal rate. -/
def StepBlock.Underway (sb : StepBlock R) : Prop :=
  sb.masterCounter < sb.currentLine.masterStep ∨
    sb.currentLine.exitRate ≤ max sb.currentLine.nominalRate 120

/-- The ceiling holds of a motion with ramps, as long as it is under way. -/
def StepBlock.KeepsCeiling (sb : StepBlock R) : Prop :=
  sb.currentLine.Ramped → sb.Underway → sb.UnderCeiling

/-- What a motion records about itself does not enter its rates. -/
theorem MotionLine.Paced.record {b : MotionLine R} (h : b.Paced) (rateNominal rateExit : R) :
    { b with trueNominalRate := rateNominal, trueExitRate := rateExit }.Paced where
  sized := ⟨h.sized.idle, ⟨h.sized.scaled.nominalSpeed_pos, h.sized.scaled.distance_pos,
    h.sized.scaled.masterStep_pos, h.sized.scaled.nominalRate_eq⟩,
    ⟨h.sized.ordered.accelSpeed_pos, h.sized.ordered.distance_pos, h.sized.ordered.entrySpeed_pos,
      h.sized.ordered.entrySpeed_le, h.sized.ordered.jerkEntrySpeed_le⟩, h.sized.accelRate_eq⟩
  le_entryRate := h.le_entryRate
  entryRate_le := h.entryRate_le
  le_exitRate := h.le_exitRate
  masterStep_le := h.masterStep_le

theorem MotionLine.Ramped.record {b : MotionLine R} (h : b.Ramped) (rateNominal rateExit : R) :
    { b with trueNominalRate := rateNominal, trueExitRate := rateExit }.Ramped :=
  ⟨h.toPaced.record rateNominal rateExit, h.useAccel⟩

/-- While a motion brakes and is under way, its exit rate is under the ceiling. -/
theorem StepBlock.Underway.exitRate_le {sb : StepBlock R} (h : sb.Underway)
    (hpaced : sb.currentLine.Paced) (hbraking : sb.currentLine.decelAfter ≤ sb.masterCounter) :
    sb.currentLine.exitRate ≤ max sb.currentLine.nominalRate 120 := by
  rcases h with hleft | hexit
  · refine le_max_of_le_left (not_lt.mp fun hover => ?_)
    have hnone := hpaced.masterStep_le hover
    omega
  · exact hexit

section

variable [IsStrictOrderedRing R] [FloorRing R]

omit [FloorRing R] in
theorem Scaled.nominalRate_pos {b : MotionLine R} (h : Scaled b) : 0 < b.nominalRate := by
  have hmaster : (0 : R) < b.masterStep := Int.cast_pos.mpr h.masterStep_pos
  refine (mul_pos_iff_of_pos_right h.distance_pos).mp ?_
  rw [h.nominalRate_eq]
  exact mul_pos h.nominalSpeed_pos hmaster

omit [FloorRing R] in
theorem UnderCeiling.currentRate_pos {sb : StepBlock R} (h : sb.UnderCeiling)
    (hnominal : 0 < sb.currentLine.nominalRate) : 0 < sb.currentRate :=
  (lt_min hnominal (by norm_num)).trans_le h.le_currentRate

omit [IsStrictOrderedRing R] [FloorRing R] in
theorem SameRate.keepsCeiling {sb sb' : StepBlock R} (hsame : SameRate sb sb')
    (h : sb.KeepsCeiling) : sb'.KeepsCeiling := by
  intro hramped hunderway
  obtain ⟨rateNominal, rateExit, hline⟩ := hsame.line
  obtain ⟨on, htimer⟩ := hsame.timer
  rw [hline] at hramped
  rw [StepBlock.Underway, hline] at hunderway
  obtain ⟨hlow, hhigh, hdt⟩ := h (hramped.record sb.currentLine.trueNominalRate
    sb.currentLine.trueExitRate) (hunderway.imp_left hsame.masterCounter_le.trans_lt)
  refine ⟨?_, ?_, ?_⟩
  · rw [hline, hsame.rate]
    exact hlow
  · rw [hline, hsame.rate]
    exact hhigh
  · rw [htimer, hsame.rate]
    exact hdt

omit [IsStrictOrderedRing R] in
theorem load_keepsCeiling (param : Param R) (sb : StepBlock R) :
    (stepBlockLoad param sb).KeepsCeiling := by
  intro hramped _
  have haccel : (sb.buffer sb.tail).useAccel = true := hramped.useAccel
  have hrate : (stepBlockLoad param sb).currentRate = (sb.buffer sb.tail).entryRate := by
    simp only [stepBlockLoad, haccel, if_true]
  refine ⟨?_, ?_, rfl⟩
  · rw [hrate]
    exact (min_le_right _ _).trans hramped.le_entryRate
  · rw [hrate]
    exact hramped.entryRate_le

/-- The nominal rate is under the ceiling, and the exit rate when it counts, and so is what the
ramp makes of them. -/
theorem ramp_keepsCeiling {sb : StepBlock R} (h : sb.KeepsCeiling) :
    (stepBlockRamp sb).KeepsCeiling := by
  intro hramped hunderway
  obtain ⟨rateNominal, rateExit, rate, elapsed, timer, hframe, -⟩ := ramp_frame sb
  have hline : (stepBlockRamp sb).currentLine =
      { sb.currentLine with trueNominalRate := rateNominal, trueExitRate := rateExit } := by
    rw [hframe]
  have hcounter : (stepBlockRamp sb).masterCounter = sb.masterCounter := by
    rw [hframe]
  rw [hline] at hramped
  rw [StepBlock.Underway, hline, hcounter] at hunderway
  have hramped' : sb.currentLine.Ramped :=
    hramped.record sb.currentLine.trueNominalRate sb.currentLine.trueExitRate
  have hunderway' : sb.Underway := hunderway
  obtain ⟨hlow, hhigh, hdt⟩ := h hramped' hunderway'
  have hpos := UnderCeiling.currentRate_pos ⟨hlow, hhigh, hdt⟩
    hramped'.sized.scaled.nominalRate_pos
  have hchange : 0 ≤ sb.currentLine.accelRate * sb.timer.dt := by
    rw [hdt]
    exact mul_nonneg hramped'.sized.accelRate_pos.le (one_div_pos.mpr hpos).le
  have hexit : sb.currentLine.decelAfter ≤ sb.masterCounter →
      min sb.currentLine.nominalRate 120 ≤ sb.currentLine.exitRate ∧
        sb.currentLine.exitRate ≤ max sb.currentLine.nominalRate 120 := fun hbraking =>
    ⟨(min_le_right _ _).trans hramped'.le_exitRate,
      hunderway'.exitRate_le hramped'.toPaced hbraking⟩
  have hrate := ramp_rate hramped'.useAccel hchange ⟨hlow, hhigh⟩
    ⟨min_le_left _ _, le_max_left _ _⟩ hexit
  refine ⟨?_, ?_, ?_⟩
  · rw [hline]
    exact hrate.1
  · rw [hline]
    exact hrate.2
  · rw [ramp_timer hramped'.useAccel]
    rfl

theorem isr_keepsCeiling (param : Param R) (pins : TriggerPins) {sb : StepBlock R}
    (h : sb.KeepsCeiling) : (stepBlockISR param pins sb).KeepsCeiling :=
  isr_rule SameRate.keepsCeiling load_keepsCeiling ramp_keepsCeiling param pins h

omit [IsStrictOrderedRing R] in
theorem idleTest_keepsCeiling (param : Param R) {sb : StepBlock R} (h : sb.KeepsCeiling) :
    (stepBlockIdleTest param sb).KeepsCeiling :=
  idleTest_rule SameRate.keepsCeiling load_keepsCeiling param h

/-! ## Planning under the clamp -/

/-- A trapezoid that starts no faster than with the nominal speed. -/
theorem paced_calculate {b : MotionLine R} (h : b.Sized) {entryFactor : R}
    (hentry : entryFactor ≤ 1) (exitFactor : R) :
    (calculateTrapezoidForBlock b entryFactor exitFactor).Paced := by
  have hretimed := calculateTrapezoid_retimed b entryFactor exitFactor
  have hsized := h.retimed hretimed
  obtain ⟨hentryRate, hexitRate⟩ := calculateTrapezoid_rates h.idle entryFactor exitFactor
  have hnominal : (calculateTrapezoidForBlock b entryFactor exitFactor).nominalRate =
      b.nominalRate := by
    obtain ⟨_, _, _, _, _, heq⟩ := hretimed
    rw [heq]
  refine ⟨hsized, ?_, ?_, ?_, ?_⟩
  · rw [hentryRate]
    exact le_max_right _ _
  · rw [hentryRate, hnominal]
    apply max_le_max_right
    exact mul_le_of_le_one_right h.scaled.nominalRate_pos.le hentry
  · rw [hexitRate]
    exact le_max_right _ _
  · rw [hnominal]
    exact masterStep_le_decelAfter h.idle h.accelRate_pos h.scaled.nominalRate_pos

omit [IsStrictOrderedRing R] [FloorRing R] in
theorem MotionLine.Paced.reflag {b : MotionLine R} (h : b.Paced) (recalculate : Bool) :
    { b with recalculateFlag := recalculate }.Paced :=
  ⟨h.sized.retimed ⟨_, _, _, _, _, rfl⟩, h.le_entryRate, h.entryRate_le, h.le_exitRate,
    h.masterStep_le⟩

theorem trapezoidPlan_paced {queue : List (MotionLine R)} (h : ∀ b ∈ queue, b.Paced) :
    ∀ b ∈ trapezoidPlan queue, b.Paced := by
  induction queue with
  | nil => exact h
  | cons b l ih =>
      rw [List.forall_mem_cons] at h
      have hentry := h.1.sized.entryFactor_le
      cases l with
      | nil =>
          rw [trapezoidPlan, List.forall_mem_singleton]
          exact (paced_calculate h.1.sized hentry _).reflag false
      | cons c l =>
          rw [trapezoidPlan, List.forall_mem_cons]
          refine ⟨?_, ih h.2⟩
          unfold trapezoidKernel
          split
          · exact (paced_calculate h.1.sized hentry _).reflag false
          · exact h.1

variable [Sqrtf R] [LawfulSqrtf R]

/-- `planner_recalculate` keeps the rates in order. -/
theorem recalculatePlan_paced {queue : List (MotionLine R)} (h : ∀ b ∈ queue, b.Paced) :
    ∀ b ∈ recalculatePlan queue, b.Paced := by
  have hrates : ∀ b ∈ forwardPlan (reversePlan queue), 120 ≤ b.entryRate ∧
      b.entryRate ≤ max b.nominalRate 120 ∧ 120 ≤ b.exitRate ∧
      (b.nominalRate < b.exitRate → b.masterStep ≤ b.decelAfter) := by
    refine forall_of_forall₂ (reversePlan_forwardPlan_replanned queue) h ?_
    rintro b _ ⟨_, _, _, rfl, -⟩ hb
    exact ⟨hb.le_entryRate, hb.entryRate_le, hb.le_exitRate, hb.masterStep_le⟩
  refine trapezoidPlan_paced fun b hb => ?_
  obtain ⟨hlow, hhigh, hexit, hnone⟩ := hrates b hb
  exact ⟨forwardPlan_reversePlan_sized (fun c hc => (h c hc).sized) b hb, hlow, hhigh, hexit,
    hnone⟩

/-- A motion is handed over with its rates in order. -/
theorem prepare_paced {param : Param R} (hparam : param.Positive) {args : MotionArgs R}
    (hargs : args.Accepted) (p : StepPlanner R) :
    (stepPlannerPrepare param p args).block.Paced := by
  have hsized := prepareJunction_sized hparam hargs p
  exact paced_calculate hsized (min_le_left _ _) _

end

end

/-! ## Calls and their motions -/

/-- A call of `stepPlanner_inputMotion`. -/
structure MotionCall (R : Type*) where
  param : Param R
  args : MotionArgs R

/-- The planner, with the calls that its motions come from. -/
structure Execution (R : Type*) where
  planning : Planning R
  /-- of the motion in the making -/
  offered : Option (MotionCall R)
  /-- of the motions in the queue -/
  queued : List (MotionCall R)
  /-- of the motion that is executed -/
  current : Option (MotionCall R)

/-- Who runs next; `stop` is a call of `stepBlock_forceStop`. -/
inductive ExecutionAction (R : Type*)
  | plan (a : PlanAction R)
  | stop

section

variable {R : Type*}

/-- The planner has gone on; if a motion has been loaded, its call has become the
current one. -/
def Execution.pass (s : Execution R) (t : Planning R) : Execution R :=
  if t.sb.tail ≠ s.planning.sb.tail then
    { s with planning := t, queued := s.queued.tail, current := s.queued.head? }
  else { s with planning := t }

def inputMotion (param : Param R) (args : MotionArgs R) : List (ExecutionAction R) :=
  [.plan (.prepare param args), .plan .insert, .plan (.idleTest param)]

variable [Field R] [LinearOrder R]

/-- The quantities that a call asks for. -/
structure MotionCall.Asked (call : MotionCall R) (b : MotionLine R) : Prop where
  useAccel_eq : b.useAccel = call.args.useAccel
  nominalSpeed_le : b.nominalSpeed ≤ call.args.speed
  axisSpeed_le : ∀ i, |call.args.dist i| * b.nominalSpeed ≤ call.param.maxSpeed i * b.distance

/-- With `rate`, neither the path nor an axis is faster than the call allows, or than it
is at 120 steps/s. -/
structure MotionCall.Allows (call : MotionCall R) (b : MotionLine R) (rate : R) : Prop where
  path_le : rate * b.distance / b.masterStep ≤
    max call.args.speed (120 * b.distance / b.masterStep)
  axis_le : ∀ i, rate * |call.args.dist i| / b.masterStep ≤
    max (call.param.maxSpeed i) (120 * |call.args.dist i| / b.masterStep)

/-- A motion with ramps that is under way is executed within the limits. -/
def Execution.Within (s : Execution R) : Prop :=
  ∀ call, s.current = some call → call.args.useAccel = true → s.planning.sb.Underway →
    call.Allows s.planning.sb.currentLine s.planning.sb.currentRate

theorem MotionCall.Asked.replanned {call : MotionCall R} {b b' : MotionLine R}
    (h : call.Asked b) (hreplanned : Replanned b b') : call.Asked b' := by
  obtain ⟨_, _, _, rfl, -⟩ := hreplanned
  exact ⟨h.useAccel_eq, h.nominalSpeed_le, h.axisSpeed_le⟩

theorem MotionCall.Asked.retimed {call : MotionCall R} {b b' : MotionLine R} (h : call.Asked b)
    (hretimed : Retimed b b') : call.Asked b' := by
  obtain ⟨_, _, _, _, _, rfl⟩ := hretimed
  exact ⟨h.useAccel_eq, h.nominalSpeed_le, h.axisSpeed_le⟩

theorem MotionCall.Asked.record {call : MotionCall R} {b : MotionLine R} (h : call.Asked b)
    (rateNominal rateExit : R) :
    call.Asked { b with trueNominalRate := rateNominal, trueExitRate := rateExit } :=
  ⟨h.useAccel_eq, h.nominalSpeed_le, h.axisSpeed_le⟩

variable [IsStrictOrderedRing R]

/-- Under the ceiling of the rates, the speeds are within the limits of the call. -/
theorem MotionCall.Asked.allows {call : MotionCall R} {b : MotionLine R} (h : call.Asked b)
    (hscaled : Scaled b) {rate : R} (hrate : rate ≤ max b.nominalRate 120) :
    call.Allows b rate := by
  have hmaster : (0 : R) < b.masterStep := Int.cast_pos.mpr hscaled.masterStep_pos
  have hceiling : ∀ way limit : R, 0 ≤ way → b.nominalRate * way / b.masterStep ≤ limit →
      rate * way / b.masterStep ≤ max limit (120 * way / b.masterStep) := by
    intro way limit hway hlimit
    rcases le_max_iff.mp hrate with hle | hle
    · refine le_max_of_le_left (le_trans ?_ hlimit)
      exact div_le_div_of_nonneg_right (mul_le_mul_of_nonneg_right hle hway) hmaster.le
    · refine le_max_of_le_right ?_
      exact div_le_div_of_nonneg_right (mul_le_mul_of_nonneg_right hle hway) hmaster.le
  constructor
  · refine hceiling _ _ hscaled.distance_pos.le ?_
    rw [hscaled.nominalRate_eq, mul_div_cancel_right₀ _ hmaster.ne']
    exact h.nominalSpeed_le
  · intro i
    refine hceiling _ _ (abs_nonneg _) ?_
    rw [div_le_iff₀ hmaster]
    refine le_of_mul_le_mul_right ?_ hscaled.distance_pos
    calc b.nominalRate * |call.args.dist i| * b.distance
        = |call.args.dist i| * b.nominalSpeed * b.masterStep := by
          rw [mul_right_comm, hscaled.nominalRate_eq]
          ring
      _ ≤ call.param.maxSpeed i * b.distance * b.masterStep :=
          mul_le_mul_of_nonneg_right (h.axisSpeed_le i) hmaster.le
      _ = call.param.maxSpeed i * b.masterStep * b.distance := mul_right_comm _ _ _

end

section

variable {R : Type*} [Field R] [LinearOrder R] [FloorRing R] [Sqrtf R]

def Execution.step (s : Execution R) : ExecutionAction R → Option (Execution R)
  | .plan (.prepare param args) =>
      (s.planning.step (.prepare param args)).map fun t =>
        { s with planning := t, offered := some ⟨param, args⟩ }
  | .plan .insert =>
      (s.planning.step .insert).map fun t =>
        { s with planning := t, queued := s.queued ++ s.offered.toList }
  | .plan a => (s.planning.step a).map s.pass
  | .stop =>
      if s.planning.stage = .free then
        some
          { planning := s.planning.withSb
              (stepBlockForceStopEnd (stepBlockForceStopBegin s.planning.sb))
            offered := none
            queued := []
            current := none }
      else none

variable (R) in
/-- Calls, interrupts and stops as a machine. -/
def execution : Machine (Execution R) (ExecutionAction R) := ⟨Execution.step⟩

variable (R) in
omit [LinearOrder R] [FloorRing R] [Sqrtf R] in
/-- After `stepPlanner_init`. -/
def Execution.boot : Execution R where
  planning := .boot R
  offered := none
  queued := []
  current := none

omit [FloorRing R] [Sqrtf R] in
/-- Calls with positive parameters, with ramps or without. -/
def Execution.PositiveCall (_s : Execution R) : ExecutionAction R → Prop
  | .plan (.prepare param args) => param.Positive ∧ args.Accepted
  | _ => True

omit [FloorRing R] [Sqrtf R] in
theorem inputMotion_positiveCall {param : Param R} (hparam : param.Positive) {args : MotionArgs R}
    (hargs : args.Accepted) {a : ExecutionAction R} (ha : a ∈ inputMotion param args)
    (s : Execution R) : s.PositiveCall a := by
  simp only [inputMotion, List.mem_cons, List.not_mem_nil, or_false] at ha
  rcases ha with rfl | rfl | rfl
  · exact ⟨hparam, hargs⟩
  · trivial
  · trivial

/-- The invariant: the queued motions and the current one are what their calls have
asked for. -/
structure Execution.Inv (s : Execution R) : Prop where
  sound : s.planning.sb.Sound
  keepsCeiling : s.planning.sb.KeepsCeiling
  asked : List.Forall₂ MotionCall.Asked s.queued s.planning.sb.queue
  paced : ∀ b ∈ s.planning.sb.queue, b.Paced
  offered : s.planning.stage = .prepared → ∃ call, s.offered = some call ∧
    call.Asked s.planning.planner.block ∧ s.planning.planner.block.Paced
  current : ∀ call, s.current = some call →
    call.Asked s.planning.sb.currentLine ∧ s.planning.sb.currentLine.Paced

variable [IsStrictOrderedRing R]

omit [FloorRing R] [Sqrtf R] in
theorem Execution.Inv.within {s : Execution R} (h : s.Inv) : s.Within := by
  intro call hcall haccel hunderway
  obtain ⟨hasked, hpaced⟩ := h.current call hcall
  have hramped : s.planning.sb.currentLine.Ramped :=
    ⟨hpaced, hasked.useAccel_eq.trans haccel⟩
  exact hasked.allows hpaced.sized.scaled (h.keepsCeiling hramped hunderway).currentRate_le

omit [FloorRing R] [Sqrtf R] [IsStrictOrderedRing R] in
theorem Execution.boot_inv : (Execution.boot R).Inv where
  sound := init_sound
  keepsCeiling h _ := by
    have haccel := h.useAccel
    simp [Execution.boot, Planning.boot, Planning.sb, stepPlannerInit, stepBlockInit,
      stepBlockReset, MotionLine.zero] at haccel
  asked := .nil
  paced b hb := absurd hb List.not_mem_nil
  offered h := by simp [Execution.boot, Planning.boot] at h
  current call h := by simp [Execution.boot] at h

omit [FloorRing R] [Sqrtf R] [IsStrictOrderedRing R] in
/-- A step of the interrupt or of the caller that inserts nothing. -/
theorem Execution.Inv.pass {s : Execution R} (h : s.Inv) {t : Planning R} (hsound : t.sb.Sound)
    (hkeeps : t.sb.KeepsCeiling) (hadvances : Advances s.planning.sb t.sb)
    (hstage : t.stage = .prepared → s.planning.stage = .prepared)
    (hblock : t.planner.block = s.planning.planner.block) : (s.pass t).Inv := by
  have hasked := h.asked
  have hpaced := h.paced
  have hoffered : t.stage = .prepared → ∃ call, s.offered = some call ∧
      call.Asked t.planner.block ∧ t.planner.block.Paced := by
    rw [hblock]
    exact fun hprepared => h.offered (hstage hprepared)
  rcases hadvances with ⟨htail, hqueue, rateNominal, rateExit, hline⟩ |
    ⟨line, rest, htail, hbefore, hafter, hline⟩
  · have hsame : ¬ t.sb.tail ≠ s.planning.sb.tail := not_not.mpr htail
    rw [Execution.pass, if_neg hsame]
    refine ⟨hsound, hkeeps, ?_, ?_, hoffered, ?_⟩
    · show List.Forall₂ _ s.queued t.sb.queue
      rw [hqueue]
      exact hasked
    · show ∀ b ∈ t.sb.queue, b.Paced
      rw [hqueue]
      exact hpaced
    · intro call hcall
      obtain ⟨hcurrent, hcurrentPaced⟩ := h.current call hcall
      show call.Asked t.sb.currentLine ∧ t.sb.currentLine.Paced
      rw [hline]
      exact ⟨hcurrent.record rateNominal rateExit, hcurrentPaced.record rateNominal rateExit⟩
  · -- the first call of the queue becomes the current one
    rw [hbefore] at hasked hpaced
    obtain ⟨call, calls, hcall, hrest, hqueued⟩ := List.forall₂_cons_right_iff.mp hasked
    rw [List.forall_mem_cons] at hpaced
    rw [Execution.pass, if_pos htail]
    refine ⟨hsound, hkeeps, ?_, ?_, hoffered, ?_⟩
    · show List.Forall₂ _ s.queued.tail t.sb.queue
      rw [hqueued, hafter]
      exact hrest
    · show ∀ b ∈ t.sb.queue, b.Paced
      rw [hafter]
      exact hpaced.2
    · intro call' hcall'
      change s.queued.head? = some call' at hcall'
      rw [hqueued] at hcall'
      obtain rfl := Option.some.inj hcall'
      show call.Asked t.sb.currentLine ∧ t.sb.currentLine.Paced
      rw [hline]
      exact ⟨hcall, hpaced.1⟩

omit [FloorRing R] [Sqrtf R] in
/-- A motion is made within the limits of its call. -/
theorem Staged.asked {param : Param R} {args : MotionArgs R} {q : StepPlanner R}
    (h : Staged param args q) (hargs : args.Accepted) (haccel : q.block.useAccel = args.useAccel)
    (hdistance : q.block.distance = args.length) :
    MotionCall.Asked ⟨param, args⟩ q.block where
  useAccel_eq := haccel
  nominalSpeed_le := h.nominalSpeed_le
  axisSpeed_le i := by
    calc |args.dist i| * q.block.nominalSpeed
        = |args.dist i * q.block.nominalSpeed| := by
          rw [abs_mul, abs_of_pos h.scaled.nominalSpeed_pos]
      _ = |q.curSpeed i| * args.length := by
          rw [← h.curSpeed_eq i, abs_mul, abs_of_pos hargs.length_pos]
      _ ≤ param.maxSpeed i * args.length :=
          mul_le_mul_of_nonneg_right (h.curSpeed_le i) hargs.length_pos.le
      _ = param.maxSpeed i * q.block.distance := by rw [hdistance]

theorem prepare_asked {param : Param R} (hparam : param.Positive) {args : MotionArgs R}
    (hargs : args.Accepted) (p : StepPlanner R) :
    MotionCall.Asked ⟨param, args⟩ (stepPlannerPrepare param p args).block := by
  have hstaged := prepareStages_staged hparam hargs p
  obtain ⟨-, -, -, -, hdistance, -, haccel⟩ := prepareStages_frame param p args
  have hasked := hstaged.asked hargs haccel hdistance
  have hjoined : MotionCall.Asked ⟨param, args⟩
      (prepareJunction param (prepareStages param p args)).block :=
    ⟨hasked.useAccel_eq, hasked.nominalSpeed_le, hasked.axisSpeed_le⟩
  exact hjoined.retimed (prepareTrapezoid_retimed _)

omit [IsStrictOrderedRing R] in
theorem input_sameRate (sb : StepBlock R) (block : MotionLine R) :
    SameRate sb (stepBlockInput sb block) := by
  unfold stepBlockInput stepBlockReplan
  split
  · exact ⟨⟨_, _, rfl⟩, rfl, ⟨_, rfl⟩, le_rfl⟩
  · exact ⟨⟨_, _, rfl⟩, rfl, ⟨_, rfl⟩, le_rfl⟩

variable [LawfulSqrtf R]

/-- The insertion, and the planner if the motion has ramps. -/
theorem Execution.Inv.insert {s : Execution R} (h : s.Inv)
    (hprepared : s.planning.stage = .prepared) (hroom : s.planning.sb.HasRoom) :
    Execution.Inv
      { s with
        planning :=
          { s.planning.withSb (stepBlockInput s.planning.sb s.planning.planner.block) with
            stage := .replanned }
        queued := s.queued ++ s.offered.toList } := by
  obtain ⟨call, hoffered, hasked, hpaced⟩ := h.offered hprepared
  obtain ⟨hsound, hqueue⟩ := input_queue_eq h.sound hroom s.planning.planner.block
  have hsame := input_sameRate s.planning.sb s.planning.planner.block
  have hjoined : List.Forall₂ MotionCall.Asked (s.queued ++ s.offered.toList)
      (s.planning.sb.queue ++ [s.planning.planner.block]) := by
    rw [hoffered]
    exact List.rel_append h.asked (.cons hasked .nil)
  have hpaced' : ∀ b ∈ s.planning.sb.queue ++ [s.planning.planner.block], b.Paced := by
    rw [List.forall_mem_append, List.forall_mem_singleton]
    exact ⟨h.paced, hpaced⟩
  refine ⟨hsound, hsame.keepsCeiling h.keepsCeiling, ?_, ?_, fun hstage => by simp at hstage, ?_⟩
  · show List.Forall₂ _ _ (stepBlockInput s.planning.sb s.planning.planner.block).queue
    rw [hqueue]
    split
    · have hreplanned := forall₂_trans (fun _ _ _ => MotionCall.Asked.replanned) hjoined
        (reversePlan_forwardPlan_replanned _)
      exact forall₂_trans (fun _ _ _ => MotionCall.Asked.retimed) hreplanned
        (trapezoidPlan_retimed _)
    · exact hjoined
  · show ∀ b ∈ (stepBlockInput s.planning.sb s.planning.planner.block).queue, b.Paced
    rw [hqueue]
    split
    · exact recalculatePlan_paced hpaced'
    · exact hpaced'
  · intro call' hcall'
    obtain ⟨hcurrent, hcurrentPaced⟩ := h.current call' hcall'
    obtain ⟨rateNominal, rateExit, hline⟩ := hsame.line
    show call'.Asked (stepBlockInput s.planning.sb s.planning.planner.block).currentLine ∧
      (stepBlockInput s.planning.sb s.planning.planner.block).currentLine.Paced
    rw [hline]
    exact ⟨hcurrent.record rateNominal rateExit, hcurrentPaced.record rateNominal rateExit⟩

theorem Execution.Inv.step {s t : Execution R} {a : ExecutionAction R} (h : s.Inv)
    (hstep : s.step a = some t) (hcall : s.PositiveCall a) : t.Inv := by
  cases a with
  | plan a =>
      cases a with
      | prepare param args =>
          obtain ⟨u, hprepare, rfl⟩ := Option.map_eq_some_iff.mp hstep
          obtain ⟨-, rfl⟩ := Option.ite_some_none_eq_some.mp hprepare
          have hqueue : (stepPlannerPrepare param s.planning.planner args).stepBlock =
              s.planning.sb := prepare_stepBlock param s.planning.planner args
          refine ⟨hqueue ▸ h.sound, hqueue ▸ h.keepsCeiling, hqueue ▸ h.asked, hqueue ▸ h.paced,
            fun _ => ⟨_, rfl, prepare_asked hcall.1 hcall.2 _, prepare_paced hcall.1 hcall.2 _⟩,
            hqueue ▸ h.current⟩
      | insert =>
          obtain ⟨u, hinsert, rfl⟩ := Option.map_eq_some_iff.mp hstep
          obtain ⟨⟨hprepared, hroom⟩, rfl⟩ := Option.ite_some_none_eq_some.mp hinsert
          exact h.insert hprepared hroom
      | idleTest param =>
          obtain ⟨u, htest, rfl⟩ := Option.map_eq_some_iff.mp hstep
          obtain ⟨-, rfl⟩ := Option.ite_some_none_eq_some.mp htest
          exact h.pass (idleTest_cases param h.sound).1 (idleTest_keepsCeiling param h.keepsCeiling)
            (idleTest_advances param h.sound) (fun hstage => by simp at hstage) rfl
      | tick param pins =>
          obtain ⟨u, htick, rfl⟩ := Option.map_eq_some_iff.mp hstep
          obtain ⟨htimer, rfl⟩ := Option.ite_some_none_eq_some.mp htick
          exact h.pass (isr_cases param pins h.sound htimer).1
            (isr_keepsCeiling param pins h.keepsCeiling) (isr_advances param pins h.sound htimer)
            id rfl
  | stop =>
      obtain ⟨hfree, rfl⟩ := Option.ite_some_none_eq_some.mp hstep
      have hhalted := forceStopBegin_halted h.sound.unclaimed
      have hsame : SameRate s.planning.sb
          (stepBlockForceStopEnd (stepBlockForceStopBegin s.planning.sb)) :=
        ⟨⟨_, _, rfl⟩, rfl, ⟨_, rfl⟩, le_rfl⟩
      refine ⟨forceStopEnd_sound hhalted.timer_off hhalted.unclaimed,
        hsame.keepsCeiling h.keepsCeiling, .nil, fun b hb => absurd hb List.not_mem_nil,
        fun hstage => ?_, fun call hcurrent => by simp at hcurrent⟩
      change s.planning.stage = .prepared at hstage
      simp [hfree] at hstage

end

/-- In every run of positive calls, with any interrupts and stops in between, no tick of a
motion with ramps goes beyond the limits of its call or 120 steps/s, until all its steps have
been made; and not then either unless the motion ends above its own nominal rate. -/
theorem speed_ceiling (as : List (ExecutionAction ℝ))
    (hcalls : (execution ℝ).AllSteps Execution.PositiveCall (.boot ℝ) as) :
    (execution ℝ).Always Execution.Within (.boot ℝ) as :=
  Machine.always_of_allSteps (J := Execution.Inv) (fun _ h => h.within)
    (fun _ _ _ h hstep hcall => h.step hstep hcall) Execution.boot_inv hcalls

theorem speed_ceiling_diagonal : (execution ℝ).Always Execution.Within (.boot ℝ)
    (inputMotion realParam diagonal ++ inputMotion realParam diagonal ++
      List.replicate 150 (.plan (.tick realParam releasedPins)) ++ [.stop]) := by
  refine speed_ceiling _ (Machine.allSteps_of_forall (fun a ha s => ?_) _)
  have hcall : ∀ a ∈ inputMotion realParam diagonal, s.PositiveCall a := fun a ha =>
    inputMotion_positiveCall realParam_positive diagonal_positive.accepted ha s
  simp only [List.mem_append, List.mem_replicate, List.mem_singleton] at ha
  rcases ha with ((ha | ha) | ⟨-, rfl⟩) | rfl
  · exact hcall a ha
  · exact hcall a ha
  · trivial
  · trivial

/-! ## Beyond the speed that is asked for -/

/-- The call behind the current motion, as far as it matters here, and the path speed. -/
def Execution.pathSpeed (s : Execution ℚ) : Option (Bool × ℚ) × ℚ :=
  (s.current.map fun call => (call.args.useAccel, call.args.speed),
    s.planning.sb.currentRate * s.planning.sb.currentLine.distance /
      (s.planning.sb.currentLine.masterStep : ℚ))

/-- G1 X10 F60. -/
def slowMove : MotionArgs ℚ where
  steps := ![50, 0, 0, 0]
  dist := ![10, 0, 0, 0]
  speed := 1
  length := 10
  useAccel := true
  defaultEntrySpeed := 1
  defaultExitSpeed := 1

theorem slowMove_accepted : slowMove.Accepted where
  length_pos := by norm_num [slowMove]
  speed_pos := one_pos
  moves := ⟨0, by decide⟩
  defaultEntrySpeed_pos := one_pos
  defaultExitSpeed_pos := one_pos

/-- 1 mm/s are 80 steps/s; the motion is loaded with 120, which is 1.5 mm/s. -/
theorem slowMove_pathSpeed :
    ((execution ℚ).exec (.boot ℚ) (inputMotion resetRamParam slowMove)).map Execution.pathSpeed =
      some (some (true, 1), 3 / 2) := by
  decide +kernel

/-- Parameters with little acceleration. -/
def weakParam : Param ℚ := { resetRamParam with defaultAccelSpeed := fun _ => 10 }

theorem weakParam_positive : weakParam.Positive := by
  constructor <;> decide +kernel

/-- Some of 30 steps to the millimetre of the Z axis. -/
def zMove (n : ℕ) (speed : ℚ) : MotionArgs ℚ where
  steps := ![0, 0, 0, n]
  dist := ![0, 0, 0, n / 30]
  speed := speed
  length := n / 30
  useAccel := true
  defaultEntrySpeed := 1
  defaultExitSpeed := 1

theorem zMove_accepted {n : ℕ} (hn : 0 < n) {speed : ℚ} (hspeed : 0 < speed) :
    (zMove n speed).Accepted where
  length_pos := div_pos (Nat.cast_pos.mpr hn) (by norm_num)
  speed_pos := hspeed
  moves := ⟨3, Int.natCast_ne_zero.mpr hn.ne'⟩
  defaultEntrySpeed_pos := one_pos
  defaultExitSpeed_pos := one_pos

/-- A millimetre of filament, from 6.5 mm/s on. -/
def filamentMove : MotionArgs ℚ where
  steps := ![0, 0, 6, 0]
  dist := ![0, 0, 1, 0]
  speed := 20
  length := 1
  useAccel := true
  defaultEntrySpeed := 13 / 2
  defaultExitSpeed := 13 / 2

theorem filamentMove_accepted : filamentMove.Accepted where
  length_pos := one_pos
  speed_pos := by norm_num [filamentMove]
  moves := ⟨2, by decide⟩
  defaultEntrySpeed_pos := by norm_num [filamentMove]
  defaultExitSpeed_pos := by norm_num [filamentMove]

/-- Nine steps at 6 mm/s in front of the filament, up to the tick of the last one. -/
def ninthStep : List (ExecutionAction ℚ) :=
  inputMotion weakParam (zMove 1 1) ++ inputMotion weakParam (zMove 1 1) ++
    inputMotion weakParam (zMove 9 6) ++ inputMotion weakParam filamentMove ++
    List.replicate 13 (.plan (.tick weakParam releasedPins))

/-- The nine steps do not reach 6 mm/s, and yet the rate then jumps to 6.5 mm/s. -/
theorem ninthStep_pathSpeed :
    ((execution ℚ).exec (.boot ℚ) ninthStep).map (fun t => (t.pathSpeed,
      120 * t.planning.sb.currentLine.distance / (t.planning.sb.currentLine.masterStep : ℚ))) =
      some ((some (true, 6), 13 / 2), 4) := by
  decide +kernel

theorem Execution.current_of_pathSpeed {t : Execution ℚ} {speed path : ℚ}
    (h : t.pathSpeed = (some (true, speed), path)) :
    ∃ call, t.current = some call ∧ call.args.useAccel = true ∧ call.args.speed = speed ∧
      t.planning.sb.currentRate * t.planning.sb.currentLine.distance /
        (t.planning.sb.currentLine.masterStep : ℚ) = path := by
  obtain ⟨hcurrent, hpath⟩ := Prod.mk.inj h
  obtain ⟨call, hcall, hargs⟩ := Option.map_eq_some_iff.mp hcurrent
  obtain ⟨haccel, hspeed⟩ := Prod.mk.inj hargs
  exact ⟨call, hcall, haccel, hspeed, hpath⟩

/-- The speed that is asked for is exceeded at 120 steps/s, and behind the last step also at a
higher rate. -/
theorem ceiling_exceeded :
    ((execution ℚ).AllSteps Execution.PositiveCall (.boot ℚ) (inputMotion resetRamParam slowMove) ∧
      ∃ t call, (execution ℚ).exec (.boot ℚ) (inputMotion resetRamParam slowMove) = some t ∧
        t.current = some call ∧ call.args.useAccel = true ∧ call.args.speed <
          t.planning.sb.currentRate * t.planning.sb.currentLine.distance /
            (t.planning.sb.currentLine.masterStep : ℚ)) ∧
    (execution ℚ).AllSteps Execution.PositiveCall (.boot ℚ) ninthStep ∧
      ∃ t call, (execution ℚ).exec (.boot ℚ) ninthStep = some t ∧ t.current = some call ∧
        call.args.useAccel = true ∧
        ¬call.Allows t.planning.sb.currentLine t.planning.sb.currentRate := by
  refine ⟨⟨?_, ?_⟩, ?_, ?_⟩
  · exact Machine.allSteps_of_forall
      (fun a => inputMotion_positiveCall resetRamParam_positive slowMove_accepted) _
  · obtain ⟨t, ht, hobserved⟩ := Option.map_eq_some_iff.mp slowMove_pathSpeed
    obtain ⟨call, hcall, haccel, hspeed, hpath⟩ := Execution.current_of_pathSpeed hobserved
    refine ⟨t, call, ht, hcall, haccel, ?_⟩
    rw [hpath, hspeed]
    norm_num
  · refine Machine.allSteps_of_forall (fun a ha s => ?_) _
    have hcall : ∀ args : MotionArgs ℚ, args.Accepted → a ∈ inputMotion weakParam args →
        s.PositiveCall a := fun args hargs ha =>
      inputMotion_positiveCall weakParam_positive hargs ha s
    simp only [ninthStep, List.mem_append, List.mem_replicate] at ha
    rcases ha with (((ha | ha) | ha) | ha) | ⟨-, rfl⟩
    · exact hcall _ (zMove_accepted one_pos one_pos) ha
    · exact hcall _ (zMove_accepted one_pos one_pos) ha
    · exact hcall _ (zMove_accepted (by norm_num) (by norm_num)) ha
    · exact hcall _ filamentMove_accepted ha
    · trivial
  · obtain ⟨t, ht, hobserved⟩ := Option.map_eq_some_iff.mp ninthStep_pathSpeed
    obtain ⟨hspeeds, hleast⟩ := Prod.mk.inj hobserved
    obtain ⟨call, hcall, haccel, hspeed, hpath⟩ := Execution.current_of_pathSpeed hspeeds
    refine ⟨t, call, ht, hcall, haccel, fun hallows => ?_⟩
    have hlimit := hallows.path_le
    rw [hpath, hspeed, hleast] at hlimit
    norm_num at hlimit

end TdPrinter
