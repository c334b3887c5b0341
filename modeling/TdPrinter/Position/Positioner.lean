import TdPrinter.Foundation.Machine
import TdPrinter.Position.StepPosition

/-!
# The program's position and the hardware's

`Positioner` is the G-code thread between two commands or inside a move, together
with the interrupt.  A move goes through `stepPosition_inputNextPosition`, the
phases of `stepBlock_inputMotion` and `stepPosition_updateSrc`.

The invariant compares where the program believes the axes will be, in full steps
(`target`), with where the hardware counters are heading, in motor steps
(`StepBlock.projected`): the second is `microStep` times the first.  From the
insertion on, when the motion is already queued but `step` has not yet been
brought up to date, the program's belief is `stepDst`.
-/

namespace TdPrinter

/-- The G-code thread and the motion queue. -/
structure Positioner (R : Type*) where
  pos : StepPosition R
  phase : InputPhase R
  /-- `stepBlock_inputMotion` has returned, `stepPosition_updateSrc` has not run -/
  returning : Bool

/-- Who runs next in a sequence of moves. -/
inductive MoveAction (R : Type*)
  | move (param : Param R) (mm : Axis → R) (relative mask : Axis → Bool) (speed : R)
      (useAccel : Bool)
  | input (m : InputMove R)
  | updateSrc
  | tick (param : Param R) (pins : TriggerPins)

section

variable {R : Type*}

/-- The motion of the current move is in the buffer. -/
def Positioner.landed (s : Positioner R) : Bool := s.phase.holding || s.returning

/-- Where the program believes axis `i` will be. -/
def Positioner.target (s : Positioner R) (i : Axis) : ℤ :=
  if s.landed then s.pos.stepDst i else s.pos.step i

/-- The thread is between two commands. -/
def Positioner.free (s : Positioner R) : Bool := s.phase.isIdle && !s.returning

/-- All moves are finished and executed. -/
structure Positioner.Idle (s : Positioner R) : Prop where
  free : s.free = true
  timer_off : s.pos.sb.timer.enabled = false
  empty : s.pos.sb.len = 0

theorem Positioner.target_of_free {s : Positioner R} (h : s.free = true) :
    s.target = s.pos.step := by
  simp only [Positioner.free, Bool.and_eq_true, Bool.not_eq_true'] at h
  have hphase := InputPhase.eq_idle_of_isIdle h.1
  funext i
  simp [Positioner.target, Positioner.landed, h.2, hphase, InputPhase.holding]

end

section

variable {R : Type*} [Field R] [LinearOrder R] [FloorRing R] [Sqrtf R]

/-- The beginning of `stepPosition_inputNextPosition`, up to the first piece of
`stepBlock_inputMotion` if that is called; the second component tells whether it
is. -/
def Positioner.beginMove (s : Positioner R) (param : Param R) (mm : Axis → R)
    (relative mask : Axis → Bool) (speed : R) (useAccel : Bool) : Positioner R × Bool :=
  let r := stepPositionInputNextPosition param s.pos mm relative mask speed useAccel
  if r.2 then
    let input := stepBlockInputMotion r.1.sb r.1.planner.block
    ({ s with pos := r.1.withSb input.2, phase := input.1 }, true)
  else ({ s with pos := r.1 }, false)

/-- One step of a sequence of moves; `microStep` stays fixed, the other parameters
may change. -/
def Positioner.step (microStep : Axis → ℤ) (s : Positioner R) :
    MoveAction R → Option (Positioner R)
  | .move param mm relative mask speed useAccel =>
      if s.free then
        some (s.beginMove { param with microStep := microStep } mm relative mask speed useAccel).1
      else none
  | .input m =>
      (inputMove s.phase s.pos.sb m).map fun r =>
        { pos := s.pos.withSb r.2, phase := r.1, returning := r.1.isIdle }
  | .updateSrc =>
      if s.returning then some { s with pos := stepPositionUpdateSrc s.pos, returning := false }
      else none
  | .tick param pins =>
      if s.pos.sb.timer.enabled then
        some { s with pos := s.pos.withSb (stepBlockISR param pins s.pos.sb) }
      else none

def mover (microStep : Axis → ℤ) : Machine (Positioner R) (MoveAction R) :=
  ⟨Positioner.step microStep⟩

omit [Sqrtf R] in
/-- After `stepPosition_init`. -/
def Positioner.boot (param : Param R) : Positioner R where
  pos := stepPositionInit param
  phase := .idle
  returning := false

/-! ## The beginning of a move -/

/-- What the beginning of a move leaves alone, and the motion that it offers. -/
structure BeginsMove (s t : Positioner R) (param : Param R) (moves : Bool) : Prop where
  phase_inv : t.phase.Inv t.pos.sb
  same : ∃ e, t.pos.sb = { s.pos.sb with event := e } ∧
    (.blockIdle ∈ e.set ↔ .blockIdle ∈ s.pos.sb.event.set) ∧
    s.pos.sb.event.NoNews .corePrinterThread e
  step_eq : t.pos.step = s.pos.step
  returning_eq : t.returning = s.returning
  not_moving : moves = false → t.phase = s.phase
  moving : moves = true → ∃ block, t.phase.waiting = some block ∧ (∀ i, 0 ≤ block.steps i) ∧
    ∀ i, block.toCommand.signed i = (t.pos.stepDst i - t.pos.step i) * param.microStep i

theorem beginMove_spec {s : Positioner R} (h : s.phase.Inv s.pos.sb) (param : Param R)
    (mm : Axis → R) (relative mask : Axis → Bool) (speed : R) (useAccel : Bool) :
    BeginsMove s (s.beginMove param mm relative mask speed useAccel).1 param
      (s.beginMove param mm relative mask speed useAccel).2 := by
  have hframe := inputNextPosition_frame param s.pos mm relative mask speed useAccel
  simp only [Positioner.beginMove]
  generalize hinput : stepPositionInputNextPosition param s.pos mm relative mask speed useAccel = r
    at hframe
  obtain ⟨p', moves⟩ := r
  simp only at hframe
  obtain ⟨hsb, hstep, -⟩ := hframe
  cases moves with
  | true =>
      obtain ⟨hsigned, hnonneg⟩ := inputNextPosition_motion hinput
      obtain ⟨hinv, hwaiting, e, he, hidle, hnews⟩ :=
        inputMotion_waits h.sound p'.planner.block
      rw [← hsb] at hinv hwaiting he
      simp only [if_true]
      refine ⟨hinv, ⟨e, ?_, hidle, hnews⟩, hstep, rfl, fun hmoves => by simp at hmoves,
        fun _ => ⟨_, hwaiting, hnonneg, hsigned⟩⟩
      rw [← hsb]
      exact he
  | false =>
      simp only [Bool.false_eq_true, if_false]
      refine ⟨?_, ⟨s.pos.sb.event, hsb, Iff.rfl, .refl _ _⟩, hstep, rfl, fun _ => rfl,
        fun hmoves => by simp at hmoves⟩
      show s.phase.Inv p'.sb
      rw [hsb]
      exact h

omit [Field R] [LinearOrder R] [FloorRing R] [Sqrtf R] in
/-- A motion that has just been offered is not in the buffer yet. -/
theorem BeginsMove.not_holding {s t : Positioner R} {param : Param R} {moves : Bool}
    (h : BeginsMove s t param moves) (hphase : s.phase = .idle) : t.phase.holding = false := by
  cases moves with
  | true =>
      obtain ⟨block, hwaiting, -⟩ := h.moving rfl
      exact InputPhase.not_holding_of_waiting (by simp [hwaiting])
  | false =>
      rw [h.not_moving rfl, hphase]
      rfl

omit [Field R] [LinearOrder R] [FloorRing R] [Sqrtf R] in
theorem BeginsMove.offered {s t : Positioner R} {param : Param R} {moves : Bool}
    (h : BeginsMove s t param moves) (hphase : s.phase = .idle) :
    ∀ block, t.phase.waiting = some block → (∀ i, 0 ≤ block.steps i) ∧
      ∀ i, block.toCommand.signed i = (t.pos.stepDst i - t.pos.step i) * param.microStep i := by
  intro block hblock
  cases moves with
  | true =>
      obtain ⟨block', hwaiting, hoffer⟩ := h.moving rfl
      obtain rfl := Option.some.inj (hwaiting.symm.trans hblock)
      exact hoffer
  | false =>
      rw [h.not_moving rfl, hphase] at hblock
      simp [InputPhase.waiting] at hblock

/-! ## The invariant -/

omit [Field R] [LinearOrder R] [FloorRing R] [Sqrtf R] in
/-- The hardware counters head for `microStep` times the program's position. -/
structure Positioner.Inv (microStep : Axis → ℤ) (s : Positioner R) : Prop where
  phase_inv : s.phase.Inv s.pos.sb
  tallied : s.pos.sb.Tallied
  undisturbed : s.pos.sb.Undisturbed
  nonneg : s.phase.Nonneg
  returning_idle : s.returning = true → s.phase = .idle
  heading : ∀ i, s.pos.sb.projected i = microStep i * s.target i
  offered : ∀ block, s.phase.waiting = some block → ∀ i,
    block.toCommand.signed i = (s.pos.stepDst i - s.pos.step i) * microStep i

omit [LinearOrder R] [FloorRing R] [Sqrtf R] in
theorem Positioner.boot_inv (microStep : Axis → ℤ) (param : Param R) :
    (Positioner.boot param).Inv microStep where
  phase_inv := ⟨init_sound, fun _ h => by simp [Positioner.boot] at h⟩
  tallied := init_tallied
  undisturbed := init_undisturbed
  nonneg _ h := by simp [Positioner.boot, InputPhase.waiting] at h
  returning_idle h := by simp [Positioner.boot] at h
  heading i := by
    simp [Positioner.boot, Positioner.target, Positioner.landed, InputPhase.holding,
      StepPosition.sb, stepPositionInit, stepPlannerInit, StepBlock.projected, signedSteps]
    rfl
  offered _ h := by simp [Positioner.boot, InputPhase.waiting] at h

/-- The beginning of a move offers its displacement and leaves the heading alone. -/
theorem Positioner.Inv.move {microStep : Axis → ℤ} {s : Positioner R} (h : s.Inv microStep)
    (hfree : s.free = true) (param : Param R) (mm : Axis → R) (relative mask : Axis → Bool)
    (speed : R) (useAccel : Bool) :
    (s.beginMove { param with microStep := microStep } mm relative mask speed useAccel).1.Inv
      microStep := by
  have htarget := Positioner.target_of_free hfree
  simp only [Positioner.free, Bool.and_eq_true, Bool.not_eq_true'] at hfree
  obtain ⟨hidle, hreturning⟩ := hfree
  have hphase := InputPhase.eq_idle_of_isIdle hidle
  have hbegins := beginMove_spec h.phase_inv { param with microStep := microStep } mm relative
    mask speed useAccel
  generalize s.beginMove { param with microStep := microStep } mm relative mask speed useAccel = r
    at hbegins
  obtain ⟨t, moves⟩ := r
  have hheld := hbegins.not_holding hphase
  have hoffered := hbegins.offered hphase
  have hret : t.returning = false := hbegins.returning_eq.trans hreturning
  obtain ⟨e, he, -⟩ := hbegins.same
  refine ⟨hbegins.phase_inv, ?_, ?_, fun block hblock => (hoffered block hblock).1, ?_, ?_,
    fun block hblock => (hoffered block hblock).2⟩
  · rw [he]
    exact ⟨h.tallied.counted, h.tallied.queued_nonneg⟩
  · rw [he]
    exact ⟨h.undisturbed.complete, h.undisturbed.trigger_off, h.undisturbed.settled⟩
  · intro hreturns
    simp [hret] at hreturns
  · intro i
    have hheading := h.heading i
    rw [htarget] at hheading
    simp only [Positioner.target, Positioner.landed, hheld, hret, Bool.or_self,
      Bool.false_eq_true, if_false]
    rw [hbegins.step_eq, ← hheading, he]
    rfl

/-- The insertion turns the offered displacement into the target; the other pieces of
`stepBlock_inputMotion` leave the heading alone. -/
theorem Positioner.Inv.input {microStep : Axis → ℤ} {s : Positioner R} {m : InputMove R}
    {phase : InputPhase R} {sb : StepBlock R} (h : s.Inv microStep)
    (hmove : inputMove s.phase s.pos.sb m = some (phase, sb)) :
    Positioner.Inv microStep
      { pos := s.pos.withSb sb, phase := phase, returning := phase.isIdle } := by
  obtain ⟨htallied, hnonneg⟩ := move_tallied h.phase_inv h.tallied h.nonneg hmove
  obtain ⟨hundisturbed, hproj⟩ := move_undisturbed h.phase_inv h.tallied h.undisturbed hmove
  obtain ⟨hinv, hcases⟩ := inputMove_cases h.phase_inv hmove
  have hreturning : s.phase ≠ .idle → s.returning = false := fun hne =>
    Bool.eq_false_iff.mpr fun hret => hne (h.returning_idle hret)
  refine ⟨hinv, htallied, hundisturbed, hnonneg,
    fun hret => InputPhase.eq_idle_of_isIdle hret, ?_, ?_⟩
  · intro i
    show sb.projected i = _
    rw [hproj i, h.heading i]
    simp only [Positioner.target, Positioner.landed, StepPosition.withSb]
    rcases hcases with hwaits | ⟨block, hready, rfl, -, -⟩ | ⟨block, hinserted, rfl, -⟩ |
      ⟨param, hplanned, rfl, -⟩
    · have hne : phase.waiting ≠ none := by
        rw [hwaits.waiting_eq]
        exact hwaits.waiting_ne
      have hidle : phase.isIdle = false := by
        cases phase with
        | idle => simp [InputPhase.waiting] at hne
        | _ => rfl
      have hret := hreturning fun hphase => hwaits.waiting_ne (by rw [hphase]; rfl)
      simp [hwaits.landing, InputPhase.not_holding_of_waiting hne,
        InputPhase.not_holding_of_waiting hwaits.waiting_ne, hidle, hret]
    · -- `step` is behind from here on, until `stepPosition_updateSrc`
      have hret := hreturning (by simp [hready])
      have hoffered := h.offered block (by rw [hready]; rfl) i
      simp only [hready, hret, InputPhase.holding, InputPhase.landing, hoffered, Bool.or_false,
        Bool.false_eq_true, if_false, Bool.true_or, if_true]
      ring
    · simp [hinserted, InputPhase.holding, InputPhase.landing]
    · simp [hplanned, InputPhase.holding, InputPhase.landing, InputPhase.isIdle]
  · intro block hblock
    rcases hcases with hwaits | ⟨_, _, rfl, -⟩ | ⟨_, _, rfl, -⟩ | ⟨_, _, rfl, -⟩
    · exact h.offered block (hwaits.waiting_eq ▸ hblock)
    · simp [InputPhase.waiting] at hblock
    · simp [InputPhase.waiting] at hblock
    · simp [InputPhase.waiting] at hblock

omit [Field R] [LinearOrder R] [FloorRing R] [Sqrtf R] in
/-- `stepPosition_updateSrc` brings `step` up to the target. -/
theorem Positioner.Inv.updateSrc {microStep : Axis → ℤ} {s : Positioner R} (h : s.Inv microStep)
    (hreturning : s.returning = true) :
    Positioner.Inv microStep
      { s with pos := stepPositionUpdateSrc s.pos, returning := false } := by
  have hphase := h.returning_idle hreturning
  refine ⟨h.phase_inv, h.tallied, h.undisturbed, h.nonneg, fun hret => by simp at hret, ?_, ?_⟩
  · intro i
    have hheading := h.heading i
    simp only [Positioner.target, Positioner.landed, hreturning, Bool.or_true, if_true]
      at hheading
    simp only [Positioner.target, Positioner.landed, hphase, InputPhase.holding, Bool.or_self,
      Bool.false_eq_true, if_false]
    exact hheading
  · intro block hblock
    simp [hphase, InputPhase.waiting] at hblock

/-- Every step of a sequence of moves keeps the invariant. -/
theorem Positioner.Inv.step {microStep : Axis → ℤ} {s t : Positioner R} {a : MoveAction R}
    (h : s.Inv microStep) (hstep : s.step microStep a = some t) : t.Inv microStep := by
  cases a with
  | move param mm relative mask speed useAccel =>
      obtain ⟨hfree, rfl⟩ := Option.ite_some_none_eq_some.mp hstep
      exact h.move hfree param mm relative mask speed useAccel
  | input m =>
      obtain ⟨⟨phase, sb⟩, hmove, rfl⟩ := Option.map_eq_some_iff.mp hstep
      exact h.input hmove
  | updateSrc =>
      obtain ⟨hreturning, rfl⟩ := Option.ite_some_none_eq_some.mp hstep
      exact h.updateSrc hreturning
  | tick param pins =>
      obtain ⟨htimer, rfl⟩ := Option.ite_some_none_eq_some.mp hstep
      obtain ⟨hundisturbed, hproj⟩ :=
        h.undisturbed.isr h.phase_inv.sound h.tallied htimer param pins
      exact ⟨h.phase_inv.isr htimer param pins,
        h.tallied.isr h.phase_inv.sound htimer param pins, hundisturbed, h.nonneg,
        h.returning_idle, fun i => (hproj i).trans (h.heading i), h.offered⟩

end

end TdPrinter
