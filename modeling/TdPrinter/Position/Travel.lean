import TdPrinter.Position.Drift

/-!
# How far the motors will have gone

`Positioner.ahead` is where the hardware counter of an axis will be when all that has been asked
for is done: the motion that is still in the hands of `stepBlock_inputMotion` included.  A step of
the G-code thread or of the interrupt moves it by `microStep` times the steps that are handed to
the planner.  Unlike the heading, this does not depend on what the counters have been set to.
-/

namespace TdPrinter

section

variable {R : Type*}

/-- Where axis `i` is, in full steps, when the current move has ended. -/
def Positioner.dest (s : Positioner R) (i : Axis) : ℤ :=
  if s.free then s.pos.step i else s.pos.stepDst i

/-- Where the counter of axis `i` is when everything is done. -/
def Positioner.ahead (microStep : Axis → ℤ) (s : Positioner R) (i : Axis) : ℤ :=
  s.pos.sb.projected i + microStep i * (s.dest i - s.target i)

/-- The invariant of moves, without the values of the counters. -/
structure Positioner.Sound (microStep : Axis → ℤ) (s : Positioner R) : Prop where
  phase_inv : s.phase.Inv s.pos.sb
  tallied : s.pos.sb.Tallied
  undisturbed : s.pos.sb.Undisturbed
  nonneg : s.phase.Nonneg
  returning_idle : s.returning = true → s.phase = .idle
  offered : ∀ block, s.phase.waiting = some block → ∀ i,
    block.toCommand.signed i = (s.pos.stepDst i - s.pos.step i) * microStep i

theorem Positioner.dest_of_free {s : Positioner R} (h : s.free = true) : s.dest = s.pos.step := by
  funext i
  rw [Positioner.dest, if_pos h]

theorem Positioner.dest_of_busy {s : Positioner R} (h : s.free = false) :
    s.dest = s.pos.stepDst := by
  funext i
  rw [Positioner.dest, h, if_neg Bool.false_ne_true]

theorem Positioner.ahead_of_free {microStep : Axis → ℤ} {s : Positioner R} (h : s.free = true)
    (i : Axis) : s.ahead microStep i = s.pos.sb.projected i := by
  rw [Positioner.ahead, Positioner.dest_of_free h, Positioner.target_of_free h, sub_self, mul_zero,
    add_zero]

end

section

variable {R : Type*} [Field R] [LinearOrder R] [FloorRing R] [Sqrtf R]
  {microStep : Axis → ℤ} {s t : Positioner R}

/-- The difference between the counters and the target stays. -/
def SameLead (microStep : Axis → ℤ) (s t : Positioner R) : Prop :=
  ∀ i, t.pos.sb.projected i - microStep i * t.target i =
    s.pos.sb.projected i - microStep i * s.target i

theorem Positioner.Sound.move (h : s.Sound microStep) (hfree : s.free = true) (param : Param R)
    (mm : Axis → R) (relative mask : Axis → Bool) (speed : R) (useAccel : Bool) :
    let t := (s.beginMove { param with microStep := microStep } mm relative mask speed useAccel).1
    t.Sound microStep ∧ SameLead microStep s t := by
  have htarget := Positioner.target_of_free hfree
  simp only [Positioner.free, Bool.and_eq_true, Bool.not_eq_true'] at hfree
  obtain ⟨hidle, hreturning⟩ := hfree
  have hphase := InputPhase.eq_idle_of_isIdle hidle
  have hbegins := beginMove_spec h.phase_inv { param with microStep := microStep } mm relative
    mask speed useAccel
  generalize s.beginMove { param with microStep := microStep } mm relative mask speed useAccel = r
    at hbegins
  obtain ⟨t, moves⟩ := r
  have hheld := hbegins.not_holding hphase
  have hoffered := hbegins.offered hphase
  have hret : t.returning = false := hbegins.returning_eq.trans hreturning
  obtain ⟨e, he, -⟩ := hbegins.same
  refine ⟨⟨hbegins.phase_inv, ?_, ?_, fun block hblock => (hoffered block hblock).1, ?_,
    fun block hblock => (hoffered block hblock).2⟩, fun i => ?_⟩
  · rw [he]
    exact ⟨h.tallied.counted, h.tallied.queued_nonneg⟩
  · rw [he]
    exact ⟨h.undisturbed.complete, h.undisturbed.trigger_off, h.undisturbed.settled⟩
  · intro hreturns
    exact absurd (hret.symm.trans hreturns) Bool.false_ne_true
  · have hbelieved : t.target i = s.target i := by
      rw [htarget, Positioner.target, Positioner.landed, hheld, hret, hbegins.step_eq]
      rfl
    rw [hbelieved, he]
    rfl

theorem Positioner.Sound.input {m : InputMove R} {phase : InputPhase R} {sb : StepBlock R}
    (h : s.Sound microStep) (hmove : inputMove s.phase s.pos.sb m = some (phase, sb)) :
    let t : Positioner R := { pos := s.pos.withSb sb, phase := phase, returning := phase.isIdle }
    t.Sound microStep ∧ SameLead microStep s t := by
  obtain ⟨htallied, hnonneg⟩ := move_tallied h.phase_inv h.tallied h.nonneg hmove
  obtain ⟨hundisturbed, hproj⟩ := move_undisturbed h.phase_inv h.tallied h.undisturbed hmove
  obtain ⟨hinv, hcases⟩ := inputMove_cases h.phase_inv hmove
  have hreturning : s.phase ≠ .idle → s.returning = false := fun hne =>
    Bool.eq_false_iff.mpr fun hret => hne (h.returning_idle hret)
  refine ⟨⟨hinv, htallied, hundisturbed, hnonneg,
    fun hret => InputPhase.eq_idle_of_isIdle hret, ?_⟩, ?_⟩
  · intro block hblock
    rcases hcases with hwaits | ⟨_, _, rfl, -⟩ | ⟨_, _, rfl, -⟩ | ⟨_, _, rfl, -⟩
    · exact h.offered block (hwaits.waiting_eq ▸ hblock)
    · simp [InputPhase.waiting] at hblock
    · simp [InputPhase.waiting] at hblock
    · simp [InputPhase.waiting] at hblock
  · intro i
    show sb.projected i - _ = _
    rw [hproj i]
    simp only [Positioner.target, Positioner.landed, StepPosition.withSb]
    rcases hcases with hwaits | ⟨block, hready, rfl, -, -⟩ | ⟨block, hinserted, rfl, -⟩ |
      ⟨param, hplanned, rfl, -⟩
    · have hne : phase.waiting ≠ none := by
        rw [hwaits.waiting_eq]
        exact hwaits.waiting_ne
      have hidle : phase.isIdle = false := by
        cases phase with
        | idle => simp [InputPhase.waiting] at hne
        | _ => rfl
      have hret := hreturning fun hphase => hwaits.waiting_ne (by rw [hphase]; rfl)
      simp [hwaits.landing, InputPhase.not_holding_of_waiting hne,
        InputPhase.not_holding_of_waiting hwaits.waiting_ne, hidle, hret]
    · -- the motion is in the buffer from here on
      have hret := hreturning (by simp [hready])
      have hoffered := h.offered block (by rw [hready]; rfl) i
      simp only [hready, hret, InputPhase.holding, InputPhase.landing, hoffered, Bool.or_false,
        Bool.false_eq_true, if_false, Bool.true_or, if_true]
      ring
    · simp [hinserted, InputPhase.holding, InputPhase.landing]
    · simp [hplanned, InputPhase.holding, InputPhase.landing, InputPhase.isIdle]

theorem Positioner.Sound.step {a : MoveAction R} (h : s.Sound microStep)
    (hstep : s.step microStep a = some t) : t.Sound microStep ∧ SameLead microStep s t := by
  cases a with
  | move param mm relative mask speed useAccel =>
      obtain ⟨hfree, rfl⟩ := Option.ite_some_none_eq_some.mp hstep
      exact h.move hfree param mm relative mask speed useAccel
  | input m =>
      obtain ⟨⟨phase, sb⟩, hmove, rfl⟩ := Option.map_eq_some_iff.mp hstep
      exact h.input hmove
  | updateSrc =>
      obtain ⟨hreturning, rfl⟩ := Option.ite_some_none_eq_some.mp hstep
      have hphase := h.returning_idle hreturning
      refine ⟨⟨h.phase_inv, h.tallied, h.undisturbed, h.nonneg, fun hret => by simp at hret, ?_⟩,
        fun i => ?_⟩
      · intro block hblock
        simp [hphase, InputPhase.waiting] at hblock
      · simp only [Positioner.target, Positioner.landed, hreturning, hphase, InputPhase.holding,
          Bool.or_true, Bool.or_self, Bool.false_eq_true, if_false, if_true]
        rfl
  | tick param pins =>
      obtain ⟨htimer, rfl⟩ := Option.ite_some_none_eq_some.mp hstep
      obtain ⟨hundisturbed, hproj⟩ :=
        h.undisturbed.isr h.phase_inv.sound h.tallied htimer param pins
      refine ⟨⟨h.phase_inv.isr htimer param pins,
        h.tallied.isr h.phase_inv.sound htimer param pins, hundisturbed, h.nonneg,
        h.returning_idle, h.offered⟩, fun i => ?_⟩
      exact congrArg (· - microStep i * s.target i) (hproj i)

/-- A step moves the end of the current move by the steps that are handed to the planner. -/
theorem Positioner.dest_of_step {a : MoveAction R} (hstep : s.step microStep a = some t)
    (i : Axis) : t.dest i = s.dest i + a.handed microStep s.pos i := by
  rcases step_position hstep with ⟨hfree, hpstep, -, -, hdst, -, hhanded, -⟩ |
    ⟨hfree, hpstep, -, -, -, hdropped, hhanded⟩ | ⟨hbusy, hpstep, -, -, hdst, -, hhanded, -⟩
  · rw [Positioner.dest, Positioner.dest, hfree, hpstep, hdst, hhanded, Pi.zero_apply, add_zero]
  · rw [Positioner.dest_of_free hfree, hhanded, hpstep]
    cases htfree : t.free with
    | true =>
        rw [Positioner.dest_of_free htfree, hdropped htfree, hpstep]
        ring
    | false =>
        rw [Positioner.dest_of_busy htfree]
        ring
  · rw [Positioner.dest_of_busy hbusy, hhanded, Pi.zero_apply, add_zero, Positioner.dest, hpstep,
      hdst, ite_self]

theorem Positioner.Sound.ahead {a : MoveAction R} (h : s.Sound microStep)
    (hstep : s.step microStep a = some t) (i : Axis) :
    t.ahead microStep i = s.ahead microStep i + microStep i * a.handed microStep s.pos i := by
  have hlead := (h.step hstep).2 i
  rw [Positioner.ahead, Positioner.ahead, Positioner.dest_of_step hstep]
  linear_combination hlead

/-- Only a call changes the destination in millimetres. -/
theorem Positioner.mmDst_of_step {a : MoveAction R} (hstep : s.step microStep a = some t)
    (hcall : a.isCall = false) : t.pos.mmDst = s.pos.mmDst := by
  cases a with
  | move param mm relative mask speed useAccel => exact absurd hcall (by simp [MoveAction.isCall])
  | input m =>
      obtain ⟨_, -, rfl⟩ := Option.map_eq_some_iff.mp hstep
      rfl
  | updateSrc =>
      obtain ⟨-, rfl⟩ := Option.ite_some_none_eq_some.mp hstep
      rfl
  | tick param pins =>
      obtain ⟨-, rfl⟩ := Option.ite_some_none_eq_some.mp hstep
      rfl

/-- A call sets it, whether the move is dropped or not. -/
theorem Positioner.mmDst_of_call {param : Param R} {mm : Axis → R} {relative mask : Axis → Bool}
    {speed : R} {useAccel : Bool}
    (hstep : s.step microStep (.move param mm relative mask speed useAccel) = some t) :
    t.pos.mmDst = moveTo s.pos.mmDst mm relative mask := by
  obtain ⟨-, rfl⟩ := Option.ite_some_none_eq_some.mp hstep
  have hinput : ∀ param : Param R, (stepPositionInputNextPosition param s.pos mm relative mask
      speed useAccel).1.mmDst = moveTo s.pos.mmDst mm relative mask := by
    intro param
    simp only [stepPositionInputNextPosition]
    split <;> rfl
  simp only [Positioner.beginMove]
  split
  · exact hinput _
  · exact hinput _

end

end TdPrinter
