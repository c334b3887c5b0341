import TdPrinter.Foundation.Profile
import TdPrinter.Planning.AxisLimits
import TdPrinter.Position.MoveArgs

/-!
# Exit rates that can be reached

The trapezoid that a motion is handed over with can be driven: its entry speed has been
capped by what braking to its own default exit speed allows.  From the next run of the
planner on, the end of the motion is another one: the entry speed of the motion behind
it, or `MINIMUM_PLANNER_SPEED`.  Neither need fit.  The motion behind may be entered with
a higher default speed than this one can accelerate to, or with a lower one than it can
brake to, and so may `MINIMUM_PLANNER_SPEED` be.

`exitRates_iff` says which motions are affected: those that the planner has looked at
and whose way is too short to change between their entry speed and the speed planned for
their end.
-/

namespace TdPrinter

section

variable {R : Type*} [Field R] [LinearOrder R]

/-! ## Trapezoids and ways -/

/-- The acceleration of the block suffices for its trapezoid. -/
def MotionLine.Realisable (b : MotionLine R) : Prop :=
  |b.exitRate ^ 2 - b.entryRate ^ 2| ≤ 2 * b.accelRate * b.masterStep

/-- The speed of the block at 120 steps/s. -/
def MotionLine.leastSpeed (b : MotionLine R) : R := 120 * (b.distance / b.masterStep)

/-- The way of the block is long enough to change between its entry speed and `next`,
where no speed counts less than 120 steps/s. -/
def MotionLine.Reaches (b : MotionLine R) (next : R) : Prop :=
  |max next b.leastSpeed ^ 2 - max b.entrySpeed b.leastSpeed ^ 2| ≤ 2 * b.accelSpeed * b.distance

/-- The speed that is planned for the end of a motion with `rest` queued behind it. -/
def plannedEnd : List (MotionLine R) → R
  | [] => minimumPlannerSpeed
  | c :: _ => if c.recalculateFlag then minimumPlannerSpeed else c.entrySpeed

variable [IsStrictOrderedRing R] [FloorRing R]

omit [FloorRing R] in
theorem MotionLine.Sized.max_rate_eq {b : MotionLine R} (h : b.Sized) (v : R) :
    max (b.nominalRate * (v / b.nominalSpeed)) 120 =
      (b.masterStep : R) / b.distance * max v b.leastSpeed := by
  have hmaster : (0 : R) < b.masterStep := Int.cast_pos.mpr h.scaled.masterStep_pos
  have hdistance := h.scaled.distance_pos
  have hnominal := h.scaled.nominalSpeed_pos
  have hspeed : b.nominalRate * (v / b.nominalSpeed) = (b.masterStep : R) / b.distance * v := by
    rw [mul_div_assoc', div_eq_iff hnominal.ne', div_mul_eq_mul_div, div_mul_eq_mul_div,
      eq_div_iff hdistance.ne', mul_right_comm, h.scaled.nominalRate_eq]
    ring
  have hleast : (120 : R) = (b.masterStep : R) / b.distance * b.leastSpeed := by
    rw [MotionLine.leastSpeed]
    field_simp
  rw [mul_max_of_nonneg _ _ (div_pos hmaster hdistance).le, ← hspeed, ← hleast]

omit [FloorRing R] in
/-- A trapezoid between two speeds can be driven if the way is long enough. -/
theorem MotionLine.Sized.realisable_iff {b : MotionLine R} (h : b.Sized) {entry next : R}
    (hentry : b.entryRate = max (b.nominalRate * (entry / b.nominalSpeed)) 120)
    (hexit : b.exitRate = max (b.nominalRate * (next / b.nominalSpeed)) 120) :
    b.Realisable ↔ |max next b.leastSpeed ^ 2 - max entry b.leastSpeed ^ 2| ≤
      2 * b.accelSpeed * b.distance := by
  have hmaster : (0 : R) < b.masterStep := Int.cast_pos.mpr h.scaled.masterStep_pos
  have hdistance := h.scaled.distance_pos
  have hfactor : (0 : R) < ((b.masterStep : R) / b.distance) ^ 2 :=
    pow_pos (div_pos hmaster hdistance) 2
  have haccel : 2 * b.accelRate * b.masterStep =
      ((b.masterStep : R) / b.distance) ^ 2 * (2 * b.accelSpeed * b.distance) := by
    have hrate : b.accelRate = b.accelSpeed * b.masterStep / b.distance :=
      (eq_div_iff hdistance.ne').mpr h.accelRate_eq
    rw [hrate]
    field_simp
  rw [MotionLine.Realisable, hentry, hexit, h.max_rate_eq, h.max_rate_eq, mul_pow, mul_pow,
    ← mul_sub, abs_mul, abs_of_pos hfactor, haccel]
  exact mul_le_mul_iff_of_pos_left hfactor

theorem Stored.realisable_iff {b : MotionLine R} {next : R} (h : Stored b next) (hsized : b.Sized) :
    b.Realisable ↔ b.Reaches next := by
  obtain ⟨hentryRate, hexitRate⟩ := calculateTrapezoid_rates hsized.idle
    (b.entrySpeed / b.nominalSpeed) (next / b.nominalSpeed)
  exact hsized.realisable_iff (h.entryRate_eq.trans hentryRate) (h.exitRate_eq.trans hexitRate)

/-! ## A motion that has just been prepared -/

section

variable [Sqrtf R] [LawfulSqrtf R]

omit [FloorRing R] in
/-- The entry speed of a prepared motion is between its default speed and what braking
to the default speed allows, where the default speed counts no more than the nominal one. -/
theorem prepareJunction_brakes (param : Param R) {q : StepPlanner R}
    (hdefault : 0 < q.defaultEntrySpeed) (hexit : q.defaultExitSpeed = q.defaultEntrySpeed)
    (haccel : 0 < q.block.accelSpeed) (hdistance : 0 < q.block.distance)
    (hnominal : 0 < q.block.nominalSpeed) :
    min q.block.nominalSpeed q.defaultExitSpeed ≤ (prepareJunction param q).block.entrySpeed ∧
      (prepareJunction param q).block.entrySpeed ^ 2 ≤
        min q.block.nominalSpeed q.defaultExitSpeed ^ 2 +
          2 * q.block.accelSpeed * q.block.distance := by
  have hjerk : (prepareJunction param q).block.jerkEntrySpeed =
      min q.block.nominalSpeed (calcJerkSpeed param q) := rfl
  have hleast : q.defaultExitSpeed ≤ calcJerkSpeed param q := hexit.trans_le (le_max_left _ _)
  have hexitPos : 0 < q.defaultExitSpeed := hdefault.trans_eq hexit.symm
  have hreach := self_le_speedAfterAccel hexitPos.le haccel hdistance
  have hway : 0 ≤ 2 * q.block.accelSpeed * q.block.distance := by positivity
  rw [prepareJunction_entrySpeed, hjerk]
  constructor
  · exact le_min ((min_le_right _ _).trans hreach) (min_le_min_left _ hleast)
  · have hpos : 0 < min (speedAfterAccel q.defaultExitSpeed q.block.accelSpeed q.block.distance)
        (min q.block.nominalSpeed (calcJerkSpeed param q)) :=
      lt_min (hexitPos.trans_le hreach) (lt_min hnominal (hexitPos.trans_le hleast))
    rcases le_total q.block.nominalSpeed q.defaultExitSpeed with hslow | hfast
    · -- the motion is slower than its default speeds all the way
      rw [min_eq_left hslow]
      have hentry := (min_le_right (speedAfterAccel q.defaultExitSpeed q.block.accelSpeed
        q.block.distance) (min q.block.nominalSpeed (calcJerkSpeed param q))).trans
          (min_le_left _ _)
      exact (pow_le_pow_left₀ hpos.le hentry 2).trans (le_add_of_nonneg_right hway)
    · rw [min_eq_right hfast, ← speedAfterAccel_sq _ haccel hdistance]
      exact pow_le_pow_left₀ hpos.le (min_le_left _ _) 2

omit [Sqrtf R] [LawfulSqrtf R] in
/-- A motion that can brake to its default exit speed, and is not entered with less. -/
theorem prepareTrapezoid_realisable {q : StepPlanner R} (hsized : q.block.Sized)
    (hexit : 0 < q.defaultExitSpeed)
    (hleast : min q.block.nominalSpeed q.defaultExitSpeed ≤ q.block.entrySpeed)
    (hbrakes : q.block.entrySpeed ^ 2 ≤ min q.block.nominalSpeed q.defaultExitSpeed ^ 2 +
      2 * q.block.accelSpeed * q.block.distance) : (prepareTrapezoid q).block.Realisable := by
  have hnominal := hsized.scaled.nominalSpeed_pos
  have hentryFactor : min 1 (q.block.entrySpeed / q.block.nominalSpeed) =
      q.block.entrySpeed / q.block.nominalSpeed := min_eq_right hsized.entryFactor_le
  have hexitFactor : min 1 (q.defaultExitSpeed / q.block.nominalSpeed) =
      min q.block.nominalSpeed q.defaultExitSpeed / q.block.nominalSpeed := by
    rw [← min_div_div_right hnominal.le, div_self hnominal.ne']
  obtain ⟨hentryRate, hexitRate⟩ : (prepareTrapezoid q).block.entryRate = _ ∧
      (prepareTrapezoid q).block.exitRate = _ := calculateTrapezoid_rates hsized.idle _ _
  rw [hentryFactor] at hentryRate
  rw [hexitFactor] at hexitRate
  have hretimed := prepareTrapezoid_retimed q
  have hsized' := hsized.retimed hretimed
  generalize (prepareTrapezoid q).block = c at *
  obtain ⟨_, _, _, _, _, rfl⟩ := hretimed
  refine (hsized'.realisable_iff hentryRate hexitRate).mpr ?_
  refine (abs_sq_max_sub_le (lt_min hnominal hexit).le hleast).trans ?_
  exact sub_le_iff_le_add'.mpr hbrakes

/-- The trapezoid that a motion is handed over with can be driven. -/
theorem prepare_realisable {param : Param R} (hparam : param.Positive) {args : MotionArgs R}
    (hargs : args.Positive) (p : StepPlanner R) :
    (stepPlannerPrepare param p args).block.Realisable := by
  have hstaged := prepareStages_staged hparam hargs.accepted p
  obtain ⟨-, -, hentry, hexit, -⟩ := prepareStages_frame param p args
  have hdefault : 0 < (prepareStages param p args).defaultEntrySpeed :=
    hentry.symm ▸ hargs.defaultEntrySpeed_pos
  have hsame : (prepareStages param p args).defaultExitSpeed =
      (prepareStages param p args).defaultEntrySpeed := by
    rw [hentry, hexit, hargs.defaultExitSpeed_eq]
  obtain ⟨hleast, hbrakes⟩ := prepareJunction_brakes param hdefault hsame hstaged.accelSpeed_pos
    hstaged.scaled.distance_pos hstaged.scaled.nominalSpeed_pos
  exact prepareTrapezoid_realisable (prepareJunction_sized hparam hargs.accepted p)
    (hdefault.trans_eq hsame.symm) hleast hbrakes

end

end

/-! ## The queue -/

section

variable {R : Type*} [Field R] [LinearOrder R] [FloorRing R]

/-- The motions that the planner has looked at store the trapezoid that ends with the
speed planned for them. -/
def Settled : List (MotionLine R) → Prop
  | [] => True
  | b :: rest => (b.recalculateFlag = false → Stored b (plannedEnd rest)) ∧ Settled rest

theorem Timed.settledQueue {queue : List (MotionLine R)} (h : Timed queue) : Settled queue := by
  induction queue with
  | nil => trivial
  | cons b l ih =>
      refine ⟨fun _ => ?_, ih h.tail⟩
      cases l with
      | nil => exact h.last b rfl
      | cons c l =>
          have hflag := h.settled c (by simp)
          rw [plannedEnd, if_neg (by simp [hflag])]
          exact (List.isChain_cons_cons.mp h.stored).1

/-- A motion that the planner has not looked at yet changes nothing for the others. -/
theorem Settled.append {queue : List (MotionLine R)} (h : Settled queue) {block : MotionLine R}
    (hflag : block.recalculateFlag = true) : Settled (queue ++ [block]) := by
  induction queue with
  | nil => exact ⟨fun hoff => by simp [hflag] at hoff, trivial⟩
  | cons b l ih =>
      refine ⟨fun hoff => ?_, ih h.2⟩
      have hstored := h.1 hoff
      cases l with
      | nil =>
          show Stored b (plannedEnd [block])
          rw [plannedEnd, if_pos hflag]
          exact hstored
      | cons c l => exact hstored

theorem Settled.due {queue : List (MotionLine R)} (h : Settled queue) : queue.IsChain Due := by
  induction queue with
  | nil => exact .nil
  | cons b l ih =>
      cases l with
      | nil => exact .singleton b
      | cons c l =>
          refine .cons_cons (fun hboff hcoff => ?_) (ih h.2)
          have hstored := h.1 hboff
          rw [plannedEnd, if_neg (by simp [hcoff])] at hstored
          exact hstored

/-- A motion that has been prepared, and that the planner has not looked at yet. -/
structure MotionLine.Fresh (b : MotionLine R) : Prop where
  sized : b.Sized
  realisable : b.Realisable
  flagged : b.recalculateFlag = true

/-- The queue between two runs of the planner. -/
structure Reliable (queue : List (MotionLine R)) : Prop where
  sized : ∀ b ∈ queue, b.Sized
  realisable : ∀ b ∈ queue, b.recalculateFlag = true → b.Realisable
  settled : Settled queue

theorem Reliable.tail {line : MotionLine R} {rest : List (MotionLine R)}
    (h : Reliable (line :: rest)) : Reliable rest where
  sized b hb := h.sized b (List.mem_cons_of_mem _ hb)
  realisable b hb := h.realisable b (List.mem_cons_of_mem _ hb)
  settled := h.settled.2

theorem Reliable.append {queue : List (MotionLine R)} (h : Reliable queue) {block : MotionLine R}
    (hblock : block.Fresh) : Reliable (queue ++ [block]) where
  sized := by
    rw [List.forall_mem_append, List.forall_mem_singleton]
    exact ⟨h.sized, hblock.sized⟩
  realisable := by
    rw [List.forall_mem_append, List.forall_mem_singleton]
    exact ⟨h.realisable, fun _ => hblock.realisable⟩
  settled := h.settled.append hblock.flagged

theorem Reliable.recalculate [IsStrictOrderedRing R] [Sqrtf R] [LawfulSqrtf R]
    {queue : List (MotionLine R)} (h : Reliable queue) : Reliable (recalculatePlan queue) := by
  have htimed := recalculatePlan_timed_of_due (fun b hb => (h.sized b hb).idle) h.settled.due
  refine ⟨recalculatePlan_sized h.sized, fun b hb hflag => ?_, htimed.settledQueue⟩
  rw [htimed.settled b hb] at hflag
  exact absurd hflag Bool.false_ne_true

/-- The oldest motion of the queue can be driven, if the planner has not looked at it or
its way is long enough. -/
theorem Reliable.realisable_iff [IsStrictOrderedRing R] {line : MotionLine R}
    {rest : List (MotionLine R)} (h : Reliable (line :: rest)) :
    line.Realisable ↔ (line.recalculateFlag = false → line.Reaches (plannedEnd rest)) := by
  have hsized := h.sized line List.mem_cons_self
  constructor
  · intro hrealisable hflag
    exact ((h.settled.1 hflag).realisable_iff hsized).mp hrealisable
  · intro hreaches
    cases hflag : line.recalculateFlag with
    | true => exact h.realisable line List.mem_cons_self hflag
    | false => exact ((h.settled.1 hflag).realisable_iff hsized).mpr (hreaches hflag)

end

/-! ## Moves -/

section

variable {R : Type*} [Field R] [LinearOrder R] [FloorRing R] [Sqrtf R]

def Positioner.PositiveMove (microStep : Axis → ℤ) (_s : Positioner R) : MoveAction R → Prop
  | .move param .. => ({ param with microStep := microStep } : Param R).Positive
  | _ => True

/-- Where the action takes a motion out of the queue that the planner has looked at, its
way is long enough to change between its entry speed and the speed planned for its end. -/
def Positioner.TakesReaching (microStep : Axis → ℤ) (s : Positioner R) (a : MoveAction R) : Prop :=
  ∀ t, s.step microStep a = some t → t.pos.sb.tail ≠ s.pos.sb.tail →
    ∀ line rest, s.pos.sb.queue = line :: rest → line.recalculateFlag = false →
      line.Reaches (plannedEnd rest)

/-- The invariant: all queued motions, and the one in the making, can be relied on. -/
structure Positioner.Plans (s : Positioner R) : Prop where
  phase_inv : s.phase.Inv s.pos.sb
  tied : s.Tied rounds
  reliable : Reliable s.pos.sb.queue
  waiting : ∀ block, s.phase.waiting = some block → block.Fresh

/-- A step loads the oldest motion of the queue, or leaves the current one alone. -/
theorem step_current {microStep : Axis → ℤ} {s t : Positioner R} {a : MoveAction R}
    (h : s.phase.Inv s.pos.sb) (hstep : s.step microStep a = some t) :
    (t.pos.sb.tail = s.pos.sb.tail ∧ ∃ rateNominal rateExit, t.pos.sb.currentLine =
        { s.pos.sb.currentLine with trueNominalRate := rateNominal, trueExitRate := rateExit }) ∨
      ∃ line rest, t.pos.sb.tail ≠ s.pos.sb.tail ∧ s.pos.sb.queue = line :: rest ∧
        t.pos.sb.currentLine = line := by
  have hadvances : ∀ {sb : StepBlock R}, Advances s.pos.sb sb →
      (sb.tail = s.pos.sb.tail ∧ ∃ rateNominal rateExit, sb.currentLine =
        { s.pos.sb.currentLine with trueNominalRate := rateNominal, trueExitRate := rateExit }) ∨
      ∃ line rest, sb.tail ≠ s.pos.sb.tail ∧ s.pos.sb.queue = line :: rest ∧
        sb.currentLine = line := by
    rintro sb (⟨htail, -, hline⟩ | ⟨line, rest, htail, hbefore, -, hline⟩)
    · exact Or.inl ⟨htail, hline⟩
    · exact Or.inr ⟨line, rest, htail, hbefore, hline⟩
  cases a with
  | move param mm relative mask speed useAccel =>
      obtain ⟨-, rfl⟩ := Option.ite_some_none_eq_some.mp hstep
      obtain ⟨e, he, -⟩ := (beginMove_spec h { param with microStep := microStep } mm relative
        mask speed useAccel).same
      rw [he]
      exact Or.inl ⟨rfl, _, _, rfl⟩
  | input m =>
      obtain ⟨⟨phase, sb⟩, hmove, rfl⟩ := Option.map_eq_some_iff.mp hstep
      show (sb.tail = s.pos.sb.tail ∧ _) ∨ _
      obtain ⟨-, hwaits | ⟨block, -, -, -, hinsert⟩ | ⟨block, -, -, hreplan⟩ |
        ⟨param, -, -, htest⟩⟩ := inputMove_cases h hmove
      · obtain ⟨e, he⟩ := hwaits.same
        rw [he]
        exact Or.inl ⟨rfl, _, _, rfl⟩
      · rw [hinsert]
        exact Or.inl ⟨rfl, _, _, rfl⟩
      · obtain ⟨buf, hbuf⟩ := replan_frame s.pos.sb block
        rw [hreplan, hbuf]
        exact Or.inl ⟨rfl, _, _, rfl⟩
      · rw [htest]
        exact hadvances (idleTest_advances param h.sound)
  | updateSrc =>
      obtain ⟨-, rfl⟩ := Option.ite_some_none_eq_some.mp hstep
      exact Or.inl ⟨rfl, _, _, rfl⟩
  | tick param pins =>
      obtain ⟨htimer, rfl⟩ := Option.ite_some_none_eq_some.mp hstep
      exact hadvances (isr_advances param pins h.sound htimer)

theorem replan_queue {sb : StepBlock R} (h : sb.Sound) (block : MotionLine R) :
    (stepBlockReplan sb block).queue =
      if block.useAccel then recalculatePlan sb.queue else sb.queue := by
  unfold stepBlockReplan
  split
  · exact queue_plannerRecalculate (Nat.lt_of_le_of_lt h.len_le (by decide)) h.head_eq
  · rfl

omit [Sqrtf R] in
theorem Reliable.advances {sb sb' : StepBlock R} (h : Reliable sb.queue)
    (hadvances : Advances sb sb') : Reliable sb'.queue := by
  rcases hadvances with ⟨-, hqueue, -⟩ | ⟨line, rest, -, hbefore, hafter, -⟩
  · rw [hqueue]
    exact h
  · rw [hbefore] at h
    rw [hafter]
    exact h.tail

variable [IsStrictOrderedRing R] [LawfulSqrtf R]

/-- A positive move offers a motion that can be relied on. -/
theorem prepare_fresh {param : Param R} (hparam : param.Positive) {args : MotionArgs R}
    (hargs : args.Positive) (p : StepPlanner R) :
    (stepPlannerPrepare param p args).block.Fresh where
  sized := prepare_sized hparam hargs.accepted p
  realisable := prepare_realisable hparam hargs p
  flagged := calculateTrapezoid_recalculate _ _ _

theorem Positioner.Plans.move {microStep : Axis → ℤ} {s : Positioner R} (h : s.Plans)
    (hfree : s.free = true) {param : Param R} {mm : Axis → R} {relative mask : Axis → Bool}
    {speed : R} {useAccel : Bool}
    (hparam : ({ param with microStep := microStep } : Param R).Positive)
    (htied : (s.beginMove { param with microStep := microStep } mm relative mask speed
      useAccel).1.Tied rounds) :
    (s.beginMove { param with microStep := microStep } mm relative mask speed
      useAccel).1.Plans := by
  have hframe := inputNextPosition_frame { param with microStep := microStep } s.pos mm relative
    mask speed useAccel
  simp only [Positioner.beginMove] at htied ⊢
  generalize hinput : stepPositionInputNextPosition { param with microStep := microStep } s.pos mm
    relative mask speed useAccel = r at hframe htied ⊢
  obtain ⟨p', moves⟩ := r
  obtain ⟨hsb, -⟩ := hframe
  change p'.sb = s.pos.sb at hsb
  cases moves with
  | true =>
      obtain ⟨q, length, hoffset, hmoves, hplanner⟩ := inputNextPosition_planner hinput
      have hrounded : (stepPositionSetMmDst s.pos mm relative mask).Tied rounds :=
        h.tied.here hfree
      have hargs := moveArgs_positive hparam hrounded hoffset hmoves speed useAccel
      obtain ⟨hinv, hwaiting, e, he, -⟩ := inputMotion_waits h.phase_inv.sound p'.planner.block
      rw [← hsb] at hinv hwaiting he
      refine ⟨hinv, htied, ?_, fun block hblock => ?_⟩
      · show Reliable (stepBlockInputMotion p'.sb p'.planner.block).2.queue
        rw [he, hsb]
        exact h.reliable
      · obtain rfl := Option.some.inj (hwaiting.symm.trans hblock)
        rw [hplanner]
        exact prepare_fresh hparam hargs s.pos.planner
  | false =>
      refine ⟨?_, htied, ?_, h.waiting⟩
      · show s.phase.Inv p'.sb
        rw [hsb]
        exact h.phase_inv
      · show Reliable p'.sb.queue
        rw [hsb]
        exact h.reliable

theorem Positioner.Plans.step {microStep : Axis → ℤ} {s t : Positioner R} {a : MoveAction R}
    (h : s.Plans) (hstep : s.step microStep a = some t) (hparam : s.PositiveMove microStep a) :
    t.Plans := by
  have htied := h.tied.step rounds_lround hstep
  cases a with
  | move param mm relative mask speed useAccel =>
      obtain ⟨hfree, rfl⟩ := Option.ite_some_none_eq_some.mp hstep
      exact h.move hfree hparam htied
  | input m =>
      obtain ⟨⟨phase, sb⟩, hmove, rfl⟩ := Option.map_eq_some_iff.mp hstep
      have hsound := h.phase_inv.sound
      obtain ⟨hinv, hwaits | ⟨block, hready, rfl, hroom, rfl⟩ | ⟨block, -, rfl, rfl⟩ |
        ⟨param, -, rfl, rfl⟩⟩ := inputMove_cases h.phase_inv hmove
      · obtain ⟨e, he⟩ := hwaits.same
        refine ⟨hinv, htied, ?_, fun block hblock => h.waiting block (hwaits.waiting_eq ▸ hblock)⟩
        show Reliable sb.queue
        rw [he]
        exact h.reliable
      · refine ⟨hinv, htied, ?_, fun _ hblock => by simp [InputPhase.waiting] at hblock⟩
        show Reliable (stepBlockInsert s.pos.sb block).queue
        rw [insert_queue hsound hroom]
        exact h.reliable.append (h.waiting block (by rw [hready]; rfl))
      · refine ⟨hinv, htied, ?_, fun _ hblock => by simp [InputPhase.waiting] at hblock⟩
        show Reliable (stepBlockReplan s.pos.sb block).queue
        rw [replan_queue hsound]
        split
        · exact h.reliable.recalculate
        · exact h.reliable
      · refine ⟨hinv, htied, ?_, fun _ hblock => by simp [InputPhase.waiting] at hblock⟩
        exact h.reliable.advances (idleTest_advances param hsound)
  | updateSrc =>
      obtain ⟨-, rfl⟩ := Option.ite_some_none_eq_some.mp hstep
      exact ⟨h.phase_inv, htied, h.reliable, h.waiting⟩
  | tick param pins =>
      obtain ⟨htimer, rfl⟩ := Option.ite_some_none_eq_some.mp hstep
      exact ⟨h.phase_inv.isr htimer param pins, htied,
        h.reliable.advances (isr_advances param pins h.phase_inv.sound htimer), h.waiting⟩

omit [Sqrtf R] [LawfulSqrtf R] in
theorem Positioner.boot_plans (param : Param R) : (Positioner.boot param).Plans where
  phase_inv := ⟨init_sound, fun _ hready => by simp [Positioner.boot] at hready⟩
  tied := by
    refine ⟨fun _ i => ?_, fun hbusy => by
      simp [Positioner.boot, Positioner.free, InputPhase.isIdle] at hbusy⟩
    show (0 : ℤ) = lround (param.mm2step i * 0)
    have hzero := lround_intCast (R := R) 0
    rw [Int.cast_zero] at hzero
    rw [mul_zero, hzero]
  reliable := ⟨fun b hb => absurd hb List.not_mem_nil, fun b hb => absurd hb List.not_mem_nil,
    trivial⟩
  waiting _ hwaiting := by simp [Positioner.boot, InputPhase.waiting] at hwaiting

omit [LawfulSqrtf R] in
/-- What is loaded can be driven exactly if the step meets the condition. -/
theorem Positioner.Plans.realisable_iff {microStep : Axis → ℤ} {s t : Positioner R}
    {a : MoveAction R} (h : s.Plans) (hcurrent : s.pos.sb.currentLine.Realisable)
    (hstep : s.step microStep a = some t) :
    t.pos.sb.currentLine.Realisable ↔ s.TakesReaching microStep a := by
  rcases step_current h.phase_inv hstep with ⟨htail, rateNominal, rateExit, hline⟩ |
    ⟨line, rest, htail, hqueue, hline⟩
  · rw [hline]
    refine ⟨fun _ u hu hne => ?_, fun _ => hcurrent⟩
    obtain rfl := Option.some.inj (hstep.symm.trans hu)
    exact absurd htail hne
  · have hreliable := h.reliable
    rw [hqueue] at hreliable
    rw [hline, hreliable.realisable_iff]
    constructor
    · intro hreaches u hu _ line' rest' hqueue'
      obtain ⟨rfl, rfl⟩ := List.cons.inj (hqueue.symm.trans hqueue')
      exact hreaches
    · intro htakes
      exact htakes t hstep htail line rest hqueue

end

/-- In every run of positive moves, with any interrupts in between, every motion that is
loaded can be driven exactly if every motion that the planner has looked at has a way long
enough to change between its entry speed and the speed planned for its end. -/
theorem exitRates_iff {microStep : Axis → ℤ} {param : Param ℝ} {as : List (MoveAction ℝ)}
    (hpositive : (mover microStep).AllSteps (Positioner.PositiveMove microStep)
      (.boot param) as) :
    (mover microStep).Always (fun s => s.pos.sb.currentLine.Realisable) (.boot param) as ↔
      (mover microStep).AllSteps (Positioner.TakesReaching microStep) (.boot param) as := by
  have hzero : (Positioner.boot param).pos.sb.currentLine.Realisable := by
    simp [MotionLine.Realisable, Positioner.boot, StepPosition.sb, stepPositionInit,
      stepPlannerInit, stepBlockInit, stepBlockReset, MotionLine.zero]
  exact Machine.always_iff_allSteps_of_guard
    (J := fun s : Positioner ℝ => s.Plans ∧ s.pos.sb.currentLine.Realisable) (fun _ h => h.2)
    (fun _ _ _ h hstep hparam htakes =>
      ⟨h.1.step hstep hparam, (h.1.realisable_iff h.2 hstep).mpr htakes⟩)
    (fun _ _ _ h hstep _ hmisses hreal =>
      hmisses ((h.1.realisable_iff h.2 hstep).mp hreal))
    ⟨Positioner.boot_plans param, hzero⟩ hpositive

theorem moveAxis_positive {R : Type*} [Field R] [LinearOrder R] [FloorRing R] [Sqrtf R]
    {param : Param R} (hparam : param.Positive) {i : Axis} {mm speed : R} {a : MoveAction R}
    (ha : a ∈ moveAxis param i mm speed) (s : Positioner R) :
    s.PositiveMove param.microStep a := by
  simp only [moveAxis, List.mem_cons, List.not_mem_nil, or_false] at ha
  rcases ha with rfl | rfl | rfl | rfl | rfl
  · exact hparam
  · trivial
  · trivial
  · trivial
  · trivial

theorem exitRates_iff_moveAxis :
    (mover realParam.microStep).Always (fun s => s.pos.sb.currentLine.Realisable)
        (.boot realParam) (moveAxis realParam 0 1 10) ↔
      (mover realParam.microStep).AllSteps (Positioner.TakesReaching realParam.microStep)
        (.boot realParam) (moveAxis realParam 0 1 10) :=
  exitRates_iff (Machine.allSteps_of_forall (fun _ ha => moveAxis_positive realParam_positive ha) _)

/-- One step of the X axis, then Z is lifted slowly by 0.05 mm, and the extruder follows.
The X axis is finished when all three moves have been input. -/
def liftSlowly : List (MoveAction ℚ) :=
  moveAxis resetRamParam 0 (1 / 5) 100 ++ moveAxis resetRamParam 3 (1 / 20) 1 ++
    moveAxis resetRamParam 2 5 50 ++ List.replicate 17 (.tick resetRamParam releasedPins)

/-- The lift is planned to begin with 1 mm/s and to end with 10 mm/s, the default entry speed
of the extruder, which takes 99 mm²/s² where its way is good for 20. -/
theorem liftSlowly_unreachable :
    ¬ ((mover resetRamParam.microStep).AllSteps (Positioner.PositiveMove resetRamParam.microStep)
        (.boot resetRamParam) liftSlowly →
      (mover resetRamParam.microStep).Always (fun s => s.pos.sb.currentLine.Realisable)
        (.boot resetRamParam) liftSlowly) := by
  intro hclaim
  have halways := hclaim (Machine.allSteps_of_forall (fun a ha s => ?_) _)
  · have hexec : ((mover resetRamParam.microStep).exec (.boot resetRamParam) liftSlowly).map
        (fun t => (t.pos.sb.currentLine.entryRate, t.pos.sb.currentLine.exitRate,
          t.pos.sb.currentLine.accelRate, t.pos.sb.currentLine.masterStep)) =
        some (640, 6400, 128000, 32) := by
      decide +kernel
    obtain ⟨t, ht, hobserved⟩ := Option.map_eq_some_iff.mp hexec
    simp only [Prod.mk.injEq] at hobserved
    obtain ⟨hentry, hexit, haccel, hmaster⟩ := hobserved
    have hreal := halways.exec ht
    rw [MotionLine.Realisable, hentry, hexit, haccel, hmaster] at hreal
    norm_num at hreal
  · simp only [liftSlowly, List.mem_append, or_assoc] at ha
    rcases ha with ha | ha | ha | ha
    · exact moveAxis_positive resetRamParam_positive ha s
    · exact moveAxis_positive resetRamParam_positive ha s
    · exact moveAxis_positive resetRamParam_positive ha s
    · obtain rfl := List.eq_of_mem_replicate ha
      trivial

end TdPrinter
