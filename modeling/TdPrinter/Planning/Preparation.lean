import TdPrinter.Foundation.Limits
import TdPrinter.Planning.Junction

/-!
# What the preparation makes of a motion

The speeds, rates and accelerations of a motion are filled in and then rescaled in
several places.  `Staged` says what holds between them after the first part of the
preparation, and `Ordered` what holds of the planned speeds of a block from then on:
`prepare_wellFormed` shows that every block is handed over in order, and `consistent_always` that
every run of the planner leaves the queue in order.
-/

namespace TdPrinter

section

variable {R : Type*} [Field R] [LinearOrder R]

structure Param.Positive (param : Param R) : Prop where
  mm2step_pos : ∀ i, 0 < param.mm2step i
  microStep_pos : ∀ i, 0 < param.microStep i
  maxSpeed_pos : ∀ i, 0 < param.maxSpeed i
  maxSpeedDelta_pos : ∀ i, 0 < param.maxSpeedDelta i
  defaultEntrySpeed_pos : ∀ i, 0 < param.defaultEntrySpeed i
  defaultAccelSpeed_pos : ∀ i, 0 < param.defaultAccelSpeed i
  maxAccelSpeed_pos : ∀ i, 0 < param.maxAccelSpeed i

/-- A displacement with a length, a speed, a step on some axis and one default speed
for both ends. -/
structure MotionArgs.Positive (args : MotionArgs R) : Prop where
  length_pos : 0 < args.length
  speed_pos : 0 < args.speed
  moves : ∃ i, args.steps i ≠ 0
  defaultEntrySpeed_pos : 0 < args.defaultEntrySpeed
  defaultExitSpeed_eq : args.defaultExitSpeed = args.defaultEntrySpeed

/-- A displacement with a length, a speed, a step on some axis and default speeds. -/
structure MotionArgs.Accepted (args : MotionArgs R) : Prop where
  length_pos : 0 < args.length
  speed_pos : 0 < args.speed
  moves : ∃ i, args.steps i ≠ 0
  defaultEntrySpeed_pos : 0 < args.defaultEntrySpeed
  defaultExitSpeed_pos : 0 < args.defaultExitSpeed

theorem MotionArgs.Positive.accepted {args : MotionArgs R} (h : args.Positive) :
    args.Accepted where
  length_pos := h.length_pos
  speed_pos := h.speed_pos
  moves := h.moves
  defaultEntrySpeed_pos := h.defaultEntrySpeed_pos
  defaultExitSpeed_pos := h.defaultEntrySpeed_pos.trans_eq h.defaultExitSpeed_eq.symm

/-- The acceleration of a motion, before it is limited: by the axes it concerns. -/
def startAccelSpeed (param : Param R) (steps : Axis → ℤ) : R :=
  if steps 0 ≠ 0 ∨ steps 1 ≠ 0 then param.defaultAccelSpeed 0
  else if steps 3 ≠ 0 then param.defaultAccelSpeed 3
  else param.defaultAccelSpeed 2

/-- What holds between the quantities of a motion when they have been filled in and
limited. -/
structure Staged (param : Param R) (args : MotionArgs R) (q : StepPlanner R) : Prop where
  scaled : Scaled q.block
  nominalSpeed_le : q.block.nominalSpeed ≤ args.speed
  curSpeed_eq : ∀ i, q.curSpeed i * args.length = args.dist i * q.block.nominalSpeed
  curSpeed_le : ∀ i, |q.curSpeed i| ≤ param.maxSpeed i
  accelSpeed_pos : 0 < q.block.accelSpeed
  accelRate_eq : q.block.accelRate * q.block.distance = q.block.accelSpeed * q.block.masterStep

/-- The planned speeds of a block are in order. -/
structure MotionLine.Ordered (b : MotionLine R) : Prop where
  accelSpeed_pos : 0 < b.accelSpeed
  distance_pos : 0 < b.distance
  entrySpeed_pos : 0 < b.entrySpeed
  entrySpeed_le : b.entrySpeed ≤ b.jerkEntrySpeed
  jerkEntrySpeed_le : b.jerkEntrySpeed ≤ b.nominalSpeed

variable [IsStrictOrderedRing R]

/-! ## The limits -/

/-- The speeds are scaled by a factor, after which every axis is within its limit. -/
theorem limitSpeed_spec {param : Param R} {p q : StepPlanner R}
    (hmax : ∀ i, 0 < param.maxSpeed i) (hq : limitSpeed param p = q) :
    ∃ f, 0 < f ∧ f ≤ 1 ∧ (∀ i, |p.curSpeed i * f| ≤ param.maxSpeed i) ∧
      q = { p with
        curSpeed := fun i => p.curSpeed i * f
        block := { p.block with
          nominalSpeed := p.block.nominalSpeed * f
          nominalRate := p.block.nominalRate * f } } := by
  let f : R := axes.foldl (fun f i => if |p.curSpeed i| > param.maxSpeed i then
    min f (param.maxSpeed i / |p.curSpeed i|) else f) 1
  have hone : f ≤ 1 := foldl_limit_le_init axes 1
  have hpos : 0 < f := by
    rcases foldl_limit_cases (p := fun i => |p.curSpeed i| > param.maxSpeed i)
      (g := fun i => param.maxSpeed i / |p.curSpeed i|) axes (1 : R) with h | ⟨i, -, hfast, h⟩
    · exact zero_lt_one.trans_eq h.symm
    · exact (div_pos (hmax i) ((hmax i).trans hfast)).trans_eq h.symm
  refine ⟨f, hpos, hone, fun i => ?_, ?_⟩
  · rw [abs_mul, abs_of_pos hpos]
    rcases le_or_gt |p.curSpeed i| (param.maxSpeed i) with hslow | hfast
    · exact (mul_le_of_le_one_right (abs_nonneg _) hone).trans hslow
    · have hle : f ≤ param.maxSpeed i / |p.curSpeed i| :=
        foldl_limit_le (p := fun i => |p.curSpeed i| > param.maxSpeed i)
          (g := fun i => param.maxSpeed i / |p.curSpeed i|) (List.mem_finRange i) hfast 1
      have hcur : 0 < |p.curSpeed i| := (hmax i).trans hfast
      calc |p.curSpeed i| * f ≤ |p.curSpeed i| * (param.maxSpeed i / |p.curSpeed i|) :=
            mul_le_mul_of_nonneg_left hle hcur.le
        _ = param.maxSpeed i := mul_div_cancel₀ _ hcur.ne'
  · rw [← hq]
    show (if f < 1 then _ else p) = _
    split
    · rfl
    · rename_i hnot
      have heq : f = 1 := le_antisymm hone (not_lt.mp hnot)
      simp only [heq, mul_one]

theorem slowdown_speed_le (len : ℕ) {length speed : R} (hlength : 0 < length)
    (hspeed : 0 < speed) : (slowdown len length speed).2 ≤ speed := by
  simp only [slowdown]
  split
  · rename_i hshort
    have hscale : (0 : R) ≤ if len > 0 then 1 / (len : R) else 1 := by
      split
      · positivity
      · exact zero_le_one
    have hdt : 0 < length / speed := div_pos hlength hspeed
    have hlonger : length / speed ≤ length / speed + (slowdownMinSegTime - length / speed) *
        (if len > 0 then 1 / (len : R) else 1) :=
      le_add_of_nonneg_right (mul_nonneg (sub_nonneg.mpr hshort.2.le) hscale)
    calc length / (length / speed + (slowdownMinSegTime - length / speed) *
          (if len > 0 then 1 / (len : R) else 1)) ≤ length / (length / speed) :=
          div_le_div_of_nonneg_left hlength.le hdt hlonger
      _ = speed := div_div_cancel₀ hlength.ne'
  · exact le_rfl

variable [FloorRing R] [Sqrtf R]

omit [FloorRing R] [Sqrtf R] in
theorem limitAccelSpeed_spec (param : Param R) {p : StepPlanner R}
    (hmax : ∀ i, 0 < param.maxAccelSpeed i) (haccel : 0 < p.block.accelSpeed) :
    0 < (limitAccelSpeed param p).block.accelSpeed ∧
      (limitAccelSpeed param p).block.accelSpeed ≤ p.block.accelSpeed := by
  let f : R := axes.foldl (fun f i =>
    if p.block.accelSpeed * p.block.speedFactor i > param.maxAccelSpeed i then
      min f (param.maxAccelSpeed i / (p.block.accelSpeed * p.block.speedFactor i))
    else f) 1
  have hpos : 0 < f := by
    rcases foldl_limit_cases
      (p := fun i => p.block.accelSpeed * p.block.speedFactor i > param.maxAccelSpeed i)
      (g := fun i => param.maxAccelSpeed i / (p.block.accelSpeed * p.block.speedFactor i))
      axes (1 : R) with h | ⟨i, -, hfast, h⟩
    · exact zero_lt_one.trans_eq h.symm
    · exact (div_pos (hmax i) ((hmax i).trans hfast)).trans_eq h.symm
  exact ⟨mul_pos haccel hpos, mul_le_of_le_one_right haccel.le (foldl_limit_le_init axes 1)⟩

omit [IsStrictOrderedRing R] [FloorRing R] [Sqrtf R] in
theorem startAccelSpeed_pos {param : Param R} (h : param.Positive) (steps : Axis → ℤ) :
    0 < startAccelSpeed param steps := by
  unfold startAccelSpeed
  split
  · exact h.defaultAccelSpeed_pos 0
  · split
    · exact h.defaultAccelSpeed_pos 3
    · exact h.defaultAccelSpeed_pos 2

omit [IsStrictOrderedRing R] [FloorRing R] [Sqrtf R] in
/-- The case distinction of `stepPlanner_inputMotion`, when some axis moves: its last
branch is never taken, and `microStep` makes no difference. -/
theorem startAccelSpeed_eq {param : Param R} (h : param.Positive) {args : MotionArgs R}
    (hmoves : ∃ i, args.steps i ≠ 0) (old : R) :
    (if applyMicroStep param args.steps 0 ≠ 0 ∨ applyMicroStep param args.steps 1 ≠ 0 then
        param.defaultAccelSpeed 0
      else if applyMicroStep param args.steps 3 ≠ 0 then param.defaultAccelSpeed 3
      else if applyMicroStep param args.steps 2 ≠ 0 then param.defaultAccelSpeed 2
      else old) = startAccelSpeed param args.steps := by
  have hmicro : ∀ i, applyMicroStep param args.steps i ≠ 0 ↔ args.steps i ≠ 0 := by
    intro i
    exact mul_ne_zero_iff_right (h.microStep_pos i).ne'
  simp only [hmicro, startAccelSpeed]
  split
  · rfl
  · split
    · rfl
    · split
      · rfl
      · rename_i h01 h3 h2
        obtain ⟨i, hi⟩ := hmoves
        fin_cases i
        · exact absurd (Or.inl hi) h01
        · exact absurd (Or.inr hi) h01
        · exact absurd hi h2
        · exact absurd hi h3

omit [FloorRing R] [Sqrtf R] in
theorem prepareStages_staged {param : Param R} (hparam : param.Positive) {args : MotionArgs R}
    (hargs : args.Accepted) (p : StepPlanner R) :
    Staged param args (prepareStages param p args) := by
  have hscaled := prepareStages_scaled param p hargs.length_pos hargs.speed_pos hargs.moves
    hparam.microStep_pos hparam.maxSpeed_pos
  obtain ⟨hdt, hnominal, hcovers⟩ :=
    slowdown_spec p.stepBlock.len hargs.length_pos hargs.speed_pos
  have hslower := slowdown_speed_le p.stepBlock.len hargs.length_pos hargs.speed_pos
  simp only [prepareStages, startAccelSpeed_eq hparam hargs.moves] at hscaled ⊢
  generalize slowdown p.stepBlock.len args.length args.speed = timed at *
  generalize hq : limitSpeed param _ = q at hscaled ⊢
  have haccel := limitAccelSpeed_spec param (p := { q with block := { q.block with
    accelSpeed := startAccelSpeed param args.steps } }) hparam.maxAccelSpeed_pos
    (startAccelSpeed_pos hparam args.steps)
  obtain ⟨f, hpos, hone, hlimit, rfl⟩ := limitSpeed_spec hparam.maxSpeed_pos hq
  refine ⟨hscaled, ?_, fun i => ?_, hlimit, haccel.1, ?_⟩
  · exact (mul_le_of_le_one_right hnominal.le hone).trans hslower
  · show args.dist i / timed.1 * f * args.length = args.dist i * (timed.2 * f)
    rw [← hcovers]
    field_simp
  · exact (mul_assoc _ _ _).trans (congrArg _ (div_mul_cancel₀ _ hargs.length_pos.ne'))

/-! ## Speeds in order -/

section

variable [LawfulSqrtf R]

omit [FloorRing R] in
theorem speedAfterAccel_pos {a d v : R} (hv : 0 < v) (ha : 0 < a) (hd : 0 < d) :
    0 < speedAfterAccel v a d := hv.trans_le (self_le_speedAfterAccel hv.le ha hd)

omit [FloorRing R] in
theorem prepareJunction_ordered (param : Param R) {q : StepPlanner R}
    (hentry : 0 < q.defaultEntrySpeed) (hexit : 0 < q.defaultExitSpeed)
    (haccel : 0 < q.block.accelSpeed) (hdistance : 0 < q.block.distance)
    (hnominal : 0 < q.block.nominalSpeed) : (prepareJunction param q).block.Ordered where
  accelSpeed_pos := haccel
  distance_pos := hdistance
  entrySpeed_pos := by
    rw [prepareJunction_entrySpeed]
    refine lt_min (speedAfterAccel_pos hexit haccel hdistance) (lt_min hnominal ?_)
    exact hentry.trans_le (le_max_left _ _)
  entrySpeed_le := by
    rw [prepareJunction_entrySpeed]
    exact min_le_right _ _
  jerkEntrySpeed_le := min_le_left _ _

/-! ## The planner keeps the speeds in order -/

omit [FloorRing R] [IsStrictOrderedRing R] [Sqrtf R] [LawfulSqrtf R] in
theorem MotionLine.Ordered.retimed {b b' : MotionLine R} (h : b.Ordered)
    (hretimed : Retimed b b') : b'.Ordered := by
  obtain ⟨_, _, _, _, _, rfl⟩ := hretimed
  exact ⟨h.accelSpeed_pos, h.distance_pos, h.entrySpeed_pos, h.entrySpeed_le, h.jerkEntrySpeed_le⟩

omit [FloorRing R] in
theorem reverseKernel_ordered {b c : MotionLine R} (hb : b.Ordered) (hc : c.Ordered) :
    (reverseKernel b c).Ordered := by
  have hjerk : 0 < b.jerkEntrySpeed := hb.entrySpeed_pos.trans_le hb.entrySpeed_le
  have hreach := speedAfterAccel_pos hc.entrySpeed_pos hb.accelSpeed_pos hb.distance_pos
  unfold reverseKernel
  split
  · split
    · exact ⟨hb.accelSpeed_pos, hb.distance_pos, lt_min hjerk hreach, min_le_left _ _,
        hb.jerkEntrySpeed_le⟩
    · exact ⟨hb.accelSpeed_pos, hb.distance_pos, hjerk, le_rfl, hb.jerkEntrySpeed_le⟩
  · exact ⟨hb.accelSpeed_pos, hb.distance_pos, hb.entrySpeed_pos, hb.entrySpeed_le,
      hb.jerkEntrySpeed_le⟩

omit [FloorRing R] in
theorem forwardKernel_ordered {b c : MotionLine R} (hb : b.Ordered) (hc : c.Ordered) :
    (forwardKernel b c).Ordered := by
  have hreach := speedAfterAccel_pos hb.entrySpeed_pos hb.accelSpeed_pos hb.distance_pos
  unfold forwardKernel
  split
  · dsimp only
    split
    · exact ⟨hc.accelSpeed_pos, hc.distance_pos, lt_min hc.entrySpeed_pos hreach,
        (min_le_left _ _).trans hc.entrySpeed_le, hc.jerkEntrySpeed_le⟩
    · exact hc
  · exact hc

omit [FloorRing R] in
theorem foldr_reverseOnto_ordered {l : List (MotionLine R)} (h : ∀ b ∈ l, b.Ordered) :
    ∀ b ∈ l.foldr reverseOnto [], b.Ordered := by
  induction l with
  | nil => simp
  | cons b l ih =>
      rw [List.forall_mem_cons] at h
      have hrest := ih h.2
      rw [List.foldr_cons]
      generalize l.foldr reverseOnto [] = m at hrest ⊢
      cases m with
      | nil => simpa [reverseOnto] using h.1
      | cons c r =>
          rw [reverseOnto, List.forall_mem_cons]
          exact ⟨reverseKernel_ordered h.1 (hrest c List.mem_cons_self), hrest⟩

omit [FloorRing R] in
theorem forwardFrom_ordered {b : MotionLine R} {l : List (MotionLine R)} (hb : b.Ordered)
    (hl : ∀ c ∈ l, c.Ordered) : ∀ c ∈ forwardFrom b l, c.Ordered := by
  induction l generalizing b with
  | nil => simpa [forwardFrom] using hb
  | cons c l ih =>
      rw [List.forall_mem_cons] at hl
      rw [forwardFrom, List.forall_mem_cons]
      exact ⟨hb, ih (forwardKernel_ordered hb hl.1) hl.2⟩

omit [FloorRing R] in
/-- The reverse and the forward pass keep the planned speeds in order. -/
theorem forwardPlan_reversePlan_ordered {queue : List (MotionLine R)}
    (h : ∀ b ∈ queue, b.Ordered) : ∀ b ∈ forwardPlan (reversePlan queue), b.Ordered := by
  have hreverse : ∀ b ∈ reversePlan queue, b.Ordered := by
    unfold reversePlan
    split
    · rw [List.forall_mem_cons] at h ⊢
      exact ⟨h.1, foldr_reverseOnto_ordered h.2⟩
    · exact h
  unfold forwardPlan
  split
  · simp
  · rename_i oldest rest heq
    rw [heq, List.forall_mem_cons] at hreverse
    exact forwardFrom_ordered hreverse.1 hreverse.2

/-- `planner_recalculate` keeps the planned speeds in order. -/
theorem recalculatePlan_ordered {queue : List (MotionLine R)} (h : ∀ b ∈ queue, b.Ordered) :
    ∀ b ∈ recalculatePlan queue, b.Ordered :=
  forall_of_forall₂ (trapezoidPlan_retimed _) (forwardPlan_reversePlan_ordered h)
    fun _ _ hab ha => ha.retimed hab

omit [LawfulSqrtf R] in
/-- What the planner relies on: rates that belong to the speeds, and speeds in order. -/
structure MotionLine.Sized (b : MotionLine R) : Prop where
  idle : b.busy = false
  scaled : Scaled b
  ordered : b.Ordered
  accelRate_eq : b.accelRate * b.distance = b.accelSpeed * b.masterStep

omit [FloorRing R] [Sqrtf R] [LawfulSqrtf R] in
theorem MotionLine.Sized.accelRate_pos {b : MotionLine R} (h : b.Sized) : 0 < b.accelRate := by
  have hmaster : (0 : R) < b.masterStep := Int.cast_pos.mpr h.scaled.masterStep_pos
  refine (mul_pos_iff_of_pos_right h.scaled.distance_pos).mp ?_
  rw [h.accelRate_eq]
  exact mul_pos h.ordered.accelSpeed_pos hmaster

omit [FloorRing R] [Sqrtf R] [LawfulSqrtf R] in
theorem MotionLine.Sized.entryFactor_le {b : MotionLine R} (h : b.Sized) :
    b.entrySpeed / b.nominalSpeed ≤ 1 :=
  (div_le_one h.scaled.nominalSpeed_pos).mpr
    (h.ordered.entrySpeed_le.trans h.ordered.jerkEntrySpeed_le)

omit [FloorRing R] [IsStrictOrderedRing R] [Sqrtf R] [LawfulSqrtf R] in
theorem MotionLine.Sized.retimed {b b' : MotionLine R} (h : b.Sized) (hretimed : Retimed b b') :
    b'.Sized := by
  have hscaled := h.scaled.retimed hretimed
  have hordered := h.ordered.retimed hretimed
  obtain ⟨_, _, _, _, _, rfl⟩ := hretimed
  exact ⟨h.idle, hscaled, hordered, h.accelRate_eq⟩

omit [FloorRing R] in
theorem forwardPlan_reversePlan_sized {queue : List (MotionLine R)} (h : ∀ b ∈ queue, b.Sized) :
    ∀ b ∈ forwardPlan (reversePlan queue), b.Sized := by
  have hkept : ∀ b ∈ forwardPlan (reversePlan queue), b.busy = false ∧ Scaled b ∧
      b.accelRate * b.distance = b.accelSpeed * b.masterStep := by
    refine forall_of_forall₂ (reversePlan_forwardPlan_replanned queue) h fun b b' hbb' hb => ?_
    have hscaled := hb.scaled.replanned hbb'
    obtain ⟨_, _, _, rfl, -⟩ := hbb'
    exact ⟨hb.idle, hscaled, hb.accelRate_eq⟩
  intro b hb
  obtain ⟨hidle, hscaled, haccel⟩ := hkept b hb
  have hordered := forwardPlan_reversePlan_ordered (fun c hc => (h c hc).ordered) b hb
  exact ⟨hidle, hscaled, hordered, haccel⟩

theorem recalculatePlan_sized {queue : List (MotionLine R)} (h : ∀ b ∈ queue, b.Sized) :
    ∀ b ∈ recalculatePlan queue, b.Sized :=
  forall_of_forall₂ (trapezoidPlan_retimed _) (forwardPlan_reversePlan_sized h)
    fun _ _ hab ha => ha.retimed hab

end

/-! ## Insertions -/

omit [IsStrictOrderedRing R] in
/-- The planner only runs for a motion with ramps. -/
theorem input_queue_eq {sb : StepBlock R} (h : sb.Sound) (hroom : sb.HasRoom)
    (block : MotionLine R) :
    (stepBlockInput sb block).Sound ∧
      (stepBlockInput sb block).queue =
        if block.useAccel then recalculatePlan (sb.queue ++ [block]) else sb.queue ++ [block] := by
  cases haccel : block.useAccel with
  | true =>
      obtain ⟨hsound, hqueue, -⟩ := input_queue h hroom haccel
      exact ⟨hsound, hqueue⟩
  | false =>
      have hrecv := h.recvComplete false
      have hkeep : stepBlockInput sb block =
          stepBlockInsert (stepBlockRecvComplete sb false).1 block := by
        simp only [stepBlockInput, stepBlockReplan, haccel, Bool.false_eq_true, if_false]
      rw [hkeep]
      exact ⟨hrecv.insert hroom block, insert_queue hrecv hroom block⟩

/-! ## Runs -/

/-- No call is in progress and nothing is queued: at start-up, and after a stop. -/
structure Planning.Resting (s : Planning R) : Prop where
  sound : s.sb.Sound
  free : s.stage = .free
  empty : s.sb.len = 0

omit [LinearOrder R] [IsStrictOrderedRing R] [FloorRing R] [Sqrtf R] in
theorem Planning.boot_resting : (Planning.boot R).Resting := ⟨init_sound, rfl, rfl⟩

omit [Field R] [LinearOrder R] [IsStrictOrderedRing R] [FloorRing R] [Sqrtf R] in
theorem Planning.stop_resting {s : Planning R} (hfree : s.stage = .free)
    (h : s.sb.event.Unclaimed .blockIdle) :
    (s.withSb (stepBlockForceStopEnd (stepBlockForceStopBegin s.sb))).Resting := by
  have hhalted := forceStopBegin_halted h
  exact ⟨forceStopEnd_sound hhalted.timer_off hhalted.unclaimed, hfree, rfl⟩

def Planning.PositiveCall (_s : Planning R) : PlanAction R → Prop
  | .prepare param args => param.Positive ∧ args.Positive
  | _ => True

/-- What is handed to `stepBlock_inputMotion` is consistent. -/
structure WellFormed (param : Param R) (q : StepPlanner R) : Prop where
  curSpeed_le : ∀ i, |q.curSpeed i| ≤ param.maxSpeed i
  nominalRate_eq : q.block.nominalRate * q.block.distance =
    q.block.nominalSpeed * q.block.masterStep
  accelRate_eq : q.block.accelRate * q.block.distance = q.block.accelSpeed * q.block.masterStep
  ordered : q.block.Ordered
  steps_le : ∀ i, q.block.steps i ≤ q.block.masterStep

/-- The next call hands over a consistent block, whatever its arguments are, and the
queue is in order. -/
structure Planning.Consistent (s : Planning R) : Prop where
  calls : ∀ (param : Param R) (args : MotionArgs R), param.Positive → args.Positive →
    WellFormed param (stepPlannerPrepare param s.planner args)
  queue : ∀ b ∈ s.sb.queue, b.Ordered

variable [LawfulSqrtf R]

omit [FloorRing R] in
theorem prepareJunction_sized {param : Param R} (hparam : param.Positive) {args : MotionArgs R}
    (hargs : args.Accepted) (p : StepPlanner R) :
    (prepareJunction param (prepareStages param p args)).block.Sized := by
  have hstaged := prepareStages_staged hparam hargs p
  obtain ⟨-, -, hentry, hexit, -, hidle, -⟩ := prepareStages_frame param p args
  refine ⟨hidle, ?_, ?_, hstaged.accelRate_eq⟩
  · exact ⟨hstaged.scaled.nominalSpeed_pos, hstaged.scaled.distance_pos,
      hstaged.scaled.masterStep_pos, hstaged.scaled.nominalRate_eq⟩
  · exact prepareJunction_ordered param (hentry.symm ▸ hargs.defaultEntrySpeed_pos)
      (hexit.symm ▸ hargs.defaultExitSpeed_pos) hstaged.accelSpeed_pos
      hstaged.scaled.distance_pos hstaged.scaled.nominalSpeed_pos

/-- A call with positive parameters hands over a block that the planner can rely on. -/
theorem prepare_sized {param : Param R} (hparam : param.Positive) {args : MotionArgs R}
    (hargs : args.Accepted) (p : StepPlanner R) : (stepPlannerPrepare param p args).block.Sized :=
  (prepareJunction_sized hparam hargs p).retimed (prepareTrapezoid_retimed _)

/-- Every call hands over a consistent block, whatever the state of the planner. -/
theorem prepare_wellFormed {param : Param R} (hparam : param.Positive) {args : MotionArgs R}
    (hargs : args.Positive) (p : StepPlanner R) :
    WellFormed param (stepPlannerPrepare param p args) := by
  have hsized := prepare_sized hparam hargs.accepted p
  have hcommand := prepare_command param p args
  refine ⟨(prepareStages_staged hparam hargs.accepted p).curSpeed_le, hsized.scaled.nominalRate_eq,
    hsized.accelRate_eq, hsized.ordered, fun i => ?_⟩
  rw [hcommand]
  exact le_masterStep p.block _ i

/-- The invariant of runs with positive calls. -/
structure Planning.InOrder (s : Planning R) : Prop where
  sound : s.sb.Sound
  queue : ∀ b ∈ s.sb.queue, b.Ordered
  block : s.stage = .prepared → s.planner.block.Ordered

omit [IsStrictOrderedRing R] [FloorRing R] [Sqrtf R] [LawfulSqrtf R] in
theorem Planning.InOrder.pass {s : Planning R} (h : s.InOrder) {sb : StepBlock R}
    (hsound : sb.Sound) (hqueue : sb.queue = s.sb.queue ∨ sb.queue = s.sb.queue.tail) :
    (s.pass sb).InOrder where
  sound := hsound
  queue b hb := by
    change b ∈ sb.queue at hb
    rcases hqueue with hqueue | hqueue
    · exact h.queue b (hqueue ▸ hb)
    · exact h.queue b (List.mem_of_mem_tail (hqueue ▸ hb))
  block := h.block

/-- Every step of a run with positive calls keeps the speeds in order. -/
theorem Planning.InOrder.step {s t : Planning R} {a : PlanAction R} (h : s.InOrder)
    (hstep : s.step a = some t) (hcall : s.PositiveCall a) : t.InOrder := by
  cases a with
  | prepare param args =>
      obtain ⟨-, rfl⟩ := Option.ite_some_none_eq_some.mp hstep
      have hqueue : (stepPlannerPrepare param s.planner args).stepBlock = s.sb :=
        prepare_stepBlock param s.planner args
      have hblock := (prepare_wellFormed hcall.1 hcall.2 s.planner).ordered
      refine ⟨?_, ?_, fun _ => hblock⟩
      · show (stepPlannerPrepare param s.planner args).stepBlock.Sound
        rw [hqueue]
        exact h.sound
      · show ∀ b ∈ (stepPlannerPrepare param s.planner args).stepBlock.queue, b.Ordered
        rw [hqueue]
        exact h.queue
  | insert =>
      obtain ⟨hready, rfl⟩ := Option.ite_some_none_eq_some.mp hstep
      obtain ⟨hsound, hqueue⟩ := input_queue_eq h.sound hready.2 s.planner.block
      have hjoined : ∀ b ∈ s.sb.queue ++ [s.planner.block], b.Ordered := by
        intro b hb
        rcases List.mem_append.mp hb with hb | hb
        · exact h.queue b hb
        · rw [List.mem_singleton.mp hb]
          exact h.block hready.1
      refine ⟨hsound, ?_, fun hstage => by simp at hstage⟩
      show ∀ b ∈ (stepBlockInput s.sb s.planner.block).queue, b.Ordered
      rw [hqueue]
      split
      · exact recalculatePlan_ordered hjoined
      · exact hjoined
  | idleTest param =>
      obtain ⟨-, rfl⟩ := Option.ite_some_none_eq_some.mp hstep
      have hpass := h.pass (idleTest_cases param h.sound).1 (idleTest_advances param h.sound).queue
      exact ⟨hpass.sound, hpass.queue, fun hstage => by simp at hstage⟩
  | tick param pins =>
      obtain ⟨htimer, rfl⟩ := Option.ite_some_none_eq_some.mp hstep
      exact h.pass (isr_cases param pins h.sound htimer).1
        (isr_advances param pins h.sound htimer).queue

end

/-- From a state at rest on, in every run of positive calls with any interrupts in
between, the blocks are handed over consistent and the queue is in order. -/
theorem consistent_always {s : Planning ℝ} (hrest : s.Resting) (as : List (PlanAction ℝ))
    (hcalls : (planning ℝ).AllSteps Planning.PositiveCall s as) :
    (planning ℝ).Always Planning.Consistent s as := by
  have hempty : s.sb.queue = [] := by
    rw [← List.length_eq_zero_iff, ← s.sb.len_eq_length]
    exact hrest.empty
  have hstart : s.InOrder := ⟨hrest.sound, by simp [hempty], fun hstage => by
    simp [hrest.free] at hstage⟩
  exact Machine.always_of_allSteps (J := Planning.InOrder)
    (fun s h => ⟨fun _ _ hparam hargs => prepare_wellFormed hparam hargs s.planner, h.queue⟩)
    (fun _ _ _ h hstep hcall => h.step hstep hcall) hstart hcalls

theorem realParam_positive : realParam.Positive := by
  constructor <;> norm_num [realParam]

theorem diagonal_positive : diagonal.Positive where
  length_pos := one_pos
  speed_pos := by norm_num [diagonal]
  moves := ⟨0, by norm_num [diagonal]⟩
  defaultEntrySpeed_pos := one_pos
  defaultExitSpeed_eq := rfl

theorem consistent_always_diagonal : (planning ℝ).Always Planning.Consistent (.boot ℝ)
    [.prepare realParam diagonal, .insert, .idleTest realParam] :=
  consistent_always Planning.boot_resting _ fun _ _ => ⟨⟨realParam_positive, diagonal_positive⟩,
    fun _ _ => ⟨trivial, fun _ _ => ⟨trivial, trivial⟩⟩⟩

end TdPrinter
