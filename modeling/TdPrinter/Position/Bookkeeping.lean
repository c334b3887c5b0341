import TdPrinter.Motion.Pipeline
import TdPrinter.Position.Positioner

/-!
# Stopping and redefining the position

Two operations connect the program's position with the hardware counters, and both
treat full steps and motor steps, or the far end and the near end of the queue, as
the same thing.

`stepPosition_stop` copies the counters to `step`, although the counters run in
motor steps and `stepPlanner_inputMotion` has multiplied by `microStep` on the way
to them.  After any moves, `stop_agrees_iff` says, it leaves the position alone
exactly if each axis either has `microStep` 1 or stands at 0.

`stepPosition_setMm` writes the counters although the motions planned before it may
still be on their way.  `bookkeeping_iff` says that the books stay balanced exactly
if the position is only redefined when nothing is on its way, on balance, on any
axis.  The program waits for this nowhere.
-/

namespace TdPrinter

section

variable {R : Type*} [Field R] [LinearOrder R] [FloorRing R] [Sqrtf R]

/-! ## Stopping -/

omit [Sqrtf R] in
/-- A stop leaves the steps alone, and the millimetres are the ones of these steps. -/
def StopAgrees (p : StepPosition R) : Prop :=
  (stepPositionStop p).step = p.step ∧ (stepPositionStop p).mm = step2mm p p.step

omit [LinearOrder R] [FloorRing R] [Sqrtf R] in
theorem stopAgrees_iff (p : StepPosition R) :
    StopAgrees p ↔ p.sb.stepAxis.hardPos = p.step := by
  constructor
  · exact fun h => h.1
  · intro h
    refine ⟨h, ?_⟩
    show step2mm p p.sb.stepAxis.hardPos = step2mm p p.step
    rw [h]

omit [Field R] [LinearOrder R] [FloorRing R] [Sqrtf R] in
/-- With every move executed, the counters are `microStep` times the position. -/
theorem Positioner.Inv.hardPos_of_idle {microStep : Axis → ℤ} {s : Positioner R}
    (h : s.Inv microStep) (hidle : s.Idle) (i : Axis) :
    s.pos.sb.stepAxis.hardPos i = microStep i * s.pos.step i := by
  rw [← projected_of_idle h.undisturbed hidle.timer_off hidle.empty, h.heading i,
    Positioner.target_of_free hidle.free]

/-- In every idle state that a sequence of moves can lead to, a stop agrees with the
program's position exactly if no axis away from 0 has a `microStep` other than 1. -/
theorem stop_agrees_iff (microStep : Axis → ℤ) (param : Param R) (as : List (MoveAction R)) :
    (mover microStep).Always
      (fun s => s.Idle → (StopAgrees s.pos ↔ ∀ i, microStep i = 1 ∨ s.pos.step i = 0))
      (Positioner.boot param) as := by
  refine Machine.always_of_allSteps (J := Positioner.Inv microStep) (C := fun _ _ => True)
    (fun s h hidle => ?_) (fun _ _ _ h hstep _ => h.step hstep)
    (Positioner.boot_inv microStep param) (Machine.allSteps_true _ _)
  rw [stopAgrees_iff, funext_iff]
  refine forall_congr' ?_
  intro i
  rw [h.hardPos_of_idle hidle i]
  constructor
  · intro heq
    have hfactor : (microStep i - 1) * s.pos.step i = 0 := by linarith
    rcases mul_eq_zero.mp hfactor with hone | hzero
    · exact Or.inl (by omega)
    · exact Or.inr hzero
  · rintro (hone | hzero)
    · rw [hone, one_mul]
    · rw [hzero, mul_zero]

end

/-! ### Sixteen motor steps to a step -/

/-- A move of the X axis by `x`, without ramps, up to the return from
`stepPosition_inputNextPosition`. -/
def moveX (x : ℚ) : List (MoveAction ℚ) :=
  [.move sampleParam (fun _ => x) (fun _ => false) (fun i => i = 0) 1 false, .input .insert,
    .input .replan, .input (.idleTest sampleParam), .updateSrc]

/-- One full step with the default `microStep` of 16, and its execution. -/
def sixteenSteps : List (MoveAction ℚ) :=
  moveX (1 / 100) ++ List.replicate 17 (.tick sampleParam releasedPins)

/-- After one full step the stop reads 16. -/
theorem sixteenSteps_stop_disagrees :
    ¬ (mover fun _ => 16).Always (fun s => s.Idle → StopAgrees s.pos)
      (Positioner.boot sampleParam) sixteenSteps := by
  intro halways
  have hexec : ((mover fun _ => 16).exec (Positioner.boot sampleParam) sixteenSteps).map
      (fun t => (t.free, t.pos.sb.timer.enabled, t.pos.sb.len, t.pos.sb.stepAxis.hardPos 0,
        t.pos.step 0)) = some (true, false, 0, 16, 1) := by
    decide +kernel
  obtain ⟨t, ht, hobserved⟩ := Option.map_eq_some_iff.mp hexec
  simp only [Prod.mk.injEq] at hobserved
  obtain ⟨hfree, htimer, hlen, hhard, hstep⟩ := hobserved
  have hagrees := (stopAgrees_iff _).mp (halways.exec ht ⟨hfree, htimer, hlen⟩)
  rw [hagrees, hstep] at hhard
  exact absurd hhard (by decide)

/-! ## Redefining the position -/

/-- Who runs next when positions are redefined: a step of a move, or G92 or M592
between two moves. -/
inductive PositionAction (R : Type*)
  | run (a : MoveAction R)
  | setMm (mm : Axis → R) (relative mask : Axis → Bool)

section

variable {R : Type*} [Field R] [LinearOrder R] [FloorRing R] [Sqrtf R]

/-- One step, with every `microStep` 1. -/
def Positioner.stepOrSet (s : Positioner R) : PositionAction R → Option (Positioner R)
  | .run a => s.step (fun _ => 1) a
  | .setMm mm relative mask =>
      if s.free then some { s with pos := stepPositionSetMm s.pos mm relative mask } else none

variable (R) in
/-- Moves and redefinitions as a machine. -/
def positioner : Machine (Positioner R) (PositionAction R) := ⟨Positioner.stepOrSet⟩

omit [Field R] [LinearOrder R] [FloorRing R] [Sqrtf R] in
/-- The books are balanced: the counter of each axis, the steps left in the current
motion and those of the queued motions add up to the position that the program
believes in. -/
def Positioner.Balanced (s : Positioner R) : Prop :=
  ∀ i, s.pos.sb.stepAxis.hardPos i + s.pos.sb.stepAxis.remaining i +
    signedSteps s.pos.sb.pending i = s.target i

omit [Field R] [LinearOrder R] [FloorRing R] [Sqrtf R] in
/-- The condition on a step: a redefinition comes when the steps on their way cancel
out on every axis, in particular when there are none. -/
def Positioner.SetsAtRest (s : Positioner R) : PositionAction R → Prop
  | .setMm _ _ _ => ∀ i, s.pos.sb.stepAxis.remaining i + signedSteps s.pos.sb.pending i = 0
  | .run _ => True

omit [Field R] [LinearOrder R] [FloorRing R] [Sqrtf R] in
theorem Positioner.Inv.balanced {s : Positioner R} (h : s.Inv fun _ => 1) : s.Balanced :=
  fun i => (h.heading i).trans (one_mul _)

omit [Sqrtf R] in
/-- After a redefinition the counters hold the new position, and what is on its way
still is. -/
theorem setMm_balanced_iff {s : Positioner R} (hfree : s.free = true) (mm : Axis → R)
    (relative mask : Axis → Bool) :
    Positioner.Balanced { s with pos := stepPositionSetMm s.pos mm relative mask } ↔
      s.SetsAtRest (.setMm mm relative mask) := by
  have htarget := Positioner.target_of_free
    (s := { s with pos := stepPositionSetMm s.pos mm relative mask }) hfree
  simp only [Positioner.Balanced, htarget, Positioner.SetsAtRest]
  refine forall_congr' ?_
  intro i
  show (stepPositionSetMm s.pos mm relative mask).step i + s.pos.sb.stepAxis.remaining i +
    signedSteps s.pos.sb.pending i = (stepPositionSetMm s.pos mm relative mask).step i ↔ _
  constructor <;> intro h <;> omega

omit [Sqrtf R] in
theorem Positioner.Inv.setMm {s : Positioner R} (h : s.Inv fun _ => 1) (hfree : s.free = true)
    {mm : Axis → R} {relative mask : Axis → Bool}
    (hrest : s.SetsAtRest (.setMm mm relative mask)) :
    Positioner.Inv (fun _ => 1) { s with pos := stepPositionSetMm s.pos mm relative mask } := by
  have hbalanced := (setMm_balanced_iff hfree mm relative mask).mpr hrest
  have hphase : s.phase = .idle := by
    simp only [Positioner.free, Bool.and_eq_true] at hfree
    exact InputPhase.eq_idle_of_isIdle hfree.1
  refine ⟨⟨h.phase_inv.sound.withStepAxis _, fun block hready => by simp [hphase] at hready⟩,
    ⟨⟨h.tallied.counted.busy_need, h.tallied.counted.step_le⟩, h.tallied.queued_nonneg⟩,
    ⟨h.undisturbed.complete, h.undisturbed.trigger_off, h.undisturbed.settled⟩, h.nonneg,
    h.returning_idle, fun i => ?_,
    fun block hblock => by simp [hphase, InputPhase.waiting] at hblock⟩
  rw [one_mul]
  exact hbalanced i

/-- The books are balanced throughout a run of moves, redefinitions and interrupts
exactly if every redefinition comes when nothing is on its way, on balance, on any
axis. -/
theorem bookkeeping_iff (param : Param R) (as : List (PositionAction R)) :
    (positioner R).Always Positioner.Balanced (Positioner.boot param) as ↔
      (positioner R).AllSteps Positioner.SetsAtRest (Positioner.boot param) as := by
  refine Machine.always_iff_allSteps (J := fun s => s.Inv fun _ => 1) (fun s h => h.balanced)
    (fun s a t h hstep hrest => ?_) (fun s a t h hstep hmiss => ?_)
    (Positioner.boot_inv _ param) as
  · cases a with
    | run a => exact h.step hstep
    | setMm mm relative mask =>
        obtain ⟨hfree, rfl⟩ := Option.ite_some_none_eq_some.mp hstep
        exact h.setMm hfree hrest
  · cases a with
    | run a => exact absurd trivial hmiss
    | setMm mm relative mask =>
        obtain ⟨hfree, rfl⟩ := Option.ite_some_none_eq_some.mp hstep
        exact fun hbalanced => hmiss ((setMm_balanced_iff hfree mm relative mask).mp hbalanced)

end

/-! ### G92 behind a move -/

/-- G1 X0.01 and G92 X0, before the step has been made. -/
def redefinedEarly : List (PositionAction ℚ) :=
  (moveX (1 / 100)).map .run ++ [.setMm (fun _ => 0) (fun _ => false) fun i => i = 0]

/-- The program believes to be at 0 and will end up at 1. -/
theorem redefinedEarly_unbalanced :
    ¬ (positioner ℚ).Always Positioner.Balanced (Positioner.boot sampleParam) redefinedEarly := by
  intro halways
  have hexec : ((positioner ℚ).exec (Positioner.boot sampleParam) redefinedEarly).map
      (fun t => (t.pos.sb.stepAxis.hardPos 0 + t.pos.sb.stepAxis.remaining 0 +
        signedSteps t.pos.sb.pending 0, t.target 0)) = some (1, 0) := by
    decide +kernel
  obtain ⟨t, ht, hobserved⟩ := Option.map_eq_some_iff.mp hexec
  simp only [Prod.mk.injEq] at hobserved
  have := halways.exec ht 0
  omega

end TdPrinter
