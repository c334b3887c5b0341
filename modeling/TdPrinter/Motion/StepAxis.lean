import TdPrinter.Foundation.Arithmetic

/-!
# The step generator

`libStepAxis` turns one motion into step pulses.  `stepAxis_reload` sets up a
digital differential analyser; each call of `stepAxis_step` advances it by one
master step, and an axis makes a step when its counter passes `masterStep`.  A
pressed end switch stops its axis if `enableTrigger` is set and the axis moves
towards the switch.

The arrays of `stepAxis_t` are functions of the axis.  The loop bodies touch only
the entries of their own axis, so the loops over the axes are pointwise.
-/

namespace TdPrinter

/-- `MOTION_BUFFER_SIZE`. -/
abbrev motionBufferSize : ℕ := 16

/-- `STEPPER_NUM` of `TDPRINTER_B`. -/
abbrev stepperNum : ℕ := 4

instance : NeZero motionBufferSize := ⟨by decide⟩

instance : NeZero stepperNum := ⟨by decide⟩

abbrev Axis := Fin stepperNum

/-! ## End switches -/

/-- `trigger_t`: `invTrigger` inverts the pin, `fakeOutput` makes the switch read
as released for good. -/
structure Trigger where
  invTrigger : Bool
  fakeOutput : Bool

/-- `trigger_read`: true when the switch is pressed. -/
def triggerRead (t : Trigger) (pin : Bool) : Bool :=
  if t.fakeOutput then false else pin ^^ t.invTrigger

/-- The levels of the trigger pins at one moment. -/
structure TriggerPins where
  maxPin : Axis → Bool
  minPin : Axis → Bool

/-- `defaultMaxTrigger` of `TDPRINTER_B`: only X has a switch at its far end. -/
def defaultMaxTrigger : Axis → Trigger := fun i => ⟨false, i ≠ 0⟩

/-- `defaultMinTrigger` of `TDPRINTER_B`: Y and Z have a switch at their near
end. -/
def defaultMinTrigger : Axis → Trigger := fun i => ⟨false, i ≠ 1 ∧ i ≠ 3⟩

/-! ## The state and the operations -/

/-- `stepAxis_t`. -/
structure StepAxis (R : Type*) where
  maxTrigger : Axis → Trigger
  minTrigger : Axis → Trigger
  /-- Bit `i` of `busyFlag`. -/
  busyFlag : Axis → Bool
  masterStep : ℤ
  step : Axis → ℤ
  counter : Axis → ℤ
  stepNeed : Axis → ℤ
  hardPos : Axis → ℤ
  dir : Axis → Bool
  enableTrigger : Bool
  advance : R
  currentAdvance : R
  extruderStep : ℤ

/-- `dir?1:-1`. -/
def dirSign (dir : Bool) : ℤ := if dir then 1 else -1

section

variable {R : Type*}

/-- `stepAxis_isBusy`. -/
def stepAxisIsBusy (a : StepAxis R) : Bool := decide (∃ i, a.busyFlag i = true)

/-- `stepAxis_setHardPos`. -/
def stepAxisSetHardPos (a : StepAxis R) (hardPos : Axis → ℤ) : StepAxis R :=
  { a with hardPos := hardPos }

/-- `stepAxis_reset`, which leaves `hardPos` alone. -/
def stepAxisReset [Zero R] (a : StepAxis R) : StepAxis R :=
  { a with
    masterStep := 0
    busyFlag := fun _ => false
    counter := fun _ => 0
    step := fun _ => 0
    stepNeed := fun _ => 0
    dir := fun _ => false
    enableTrigger := false
    advance := 0
    currentAdvance := 0
    extruderStep := 0 }

/-- `stepAxis_construct` and `stepAxis_init` on zeroed storage. -/
def stepAxisInit [Zero R] : StepAxis R :=
  stepAxisReset
    { maxTrigger := defaultMaxTrigger
      minTrigger := defaultMinTrigger
      busyFlag := fun _ => false
      masterStep := 0
      step := fun _ => 0
      counter := fun _ => 0
      stepNeed := fun _ => 0
      hardPos := fun _ => 0
      dir := fun _ => false
      enableTrigger := false
      advance := 0
      currentAdvance := 0
      extruderStep := 0 }

/-- `stepAxis_reload`. -/
def stepAxisReload (a : StepAxis R) (masterStep : ℤ) (step : Axis → ℤ) (dir : Axis → Bool) :
    StepAxis R :=
  { a with
    busyFlag := fun i => decide (0 < step i)
    masterStep := masterStep
    counter := fun _ => 0
    step := fun _ => 0
    stepNeed := step
    dir := dir }

/-- The bit of axis `i` after the tests at the start of the loop body of
`stepAxis_step`: it is cleared once the axis has made its steps, and when the
switch it moves towards is pressed while triggers are enabled. -/
def stepAxisStillBusy (a : StepAxis R) (pins : TriggerPins) (i : Axis) : Bool :=
  if a.busyFlag i then
    if a.step i ≥ a.stepNeed i then false
    else if a.enableTrigger then
      if a.dir i = true ∧ triggerRead (a.maxTrigger i) (pins.maxPin i) then false
      else if a.dir i = false ∧ triggerRead (a.minTrigger i) (pins.minPin i) then false
      else true
    else true
  else false

/-- `a->counter[i] += a->stepNeed[i]`. -/
def stepAxisCount (a : StepAxis R) (i : Axis) : ℤ := wrap32 (a.counter i + a.stepNeed i)

/-- Axis `i` makes a step in this call of `stepAxis_step`. -/
def stepAxisFires (a : StepAxis R) (pins : TriggerPins) (i : Axis) : Bool :=
  stepAxisStillBusy a pins i && decide (stepAxisCount a i ≥ a.masterStep)

/-- `stepAxis_step`.  The steps of the extruder (axis 2) go to `extruderStep`,
from where `stepAxis_AdvanceISR` sends them to the motor. -/
def stepAxisStep (a : StepAxis R) (pins : TriggerPins) : StepAxis R :=
  { a with
    busyFlag := stepAxisStillBusy a pins
    counter := fun i =>
      if stepAxisFires a pins i then stepAxisCount a i - a.masterStep
      else if stepAxisStillBusy a pins i then stepAxisCount a i
      else a.counter i
    hardPos := fun i =>
      if stepAxisFires a pins i then a.hardPos i + dirSign (a.dir i) else a.hardPos i
    step := fun i => if stepAxisFires a pins i then a.step i + 1 else a.step i
    extruderStep :=
      if stepAxisFires a pins 2 then a.extruderStep + dirSign (a.dir 2) else a.extruderStep }

end

section

variable {R : Type*} [Field R] [LinearOrder R] [FloorRing R]

/-- `stepAxis_applyAdvance`. -/
def stepAxisApplyAdvance (a : StepAxis R) : StepAxis R :=
  let advance : ℤ := ⌈a.advance - a.currentAdvance⌉
  { a with
    currentAdvance := a.currentAdvance + advance
    extruderStep := a.extruderStep + advance }

/-- `stepAxis_setAdvance`. -/
def stepAxisSetAdvance (a : StepAxis R) (advance : R) : StepAxis R :=
  stepAxisApplyAdvance { a with advance := if advance > 300 then 300 else advance }

end

/-! ## Remaining steps -/

section

variable {R : Type*}

/-- The signed steps that axis `i` still has to make in the motion that was loaded
last. -/
def StepAxis.remaining (a : StepAxis R) (i : Axis) : ℤ :=
  dirSign (a.dir i) * (a.stepNeed i - a.step i)

/-- What every operation keeps of the step counts: an axis whose bit is set has a
positive demand, and no axis overshoots its demand. -/
structure StepAxis.Counted (a : StepAxis R) : Prop where
  busy_need : ∀ i, a.busyFlag i = true → 0 < a.stepNeed i
  step_le : ∀ i, a.step i ≤ a.stepNeed i

/-- The axes whose bit is cleared have made all their steps. -/
def StepAxis.Complete (a : StepAxis R) : Prop :=
  ∀ i, a.busyFlag i = false → a.step i = a.stepNeed i

theorem isBusy_eq_false_iff {a : StepAxis R} :
    stepAxisIsBusy a = false ↔ ∀ i, a.busyFlag i = false := by
  simp [stepAxisIsBusy]

theorem StepAxis.Complete.remaining_eq_zero {a : StepAxis R} (h : a.Complete)
    (hbusy : stepAxisIsBusy a = false) (i : Axis) : a.remaining i = 0 := by
  rw [StepAxis.remaining, h i (isBusy_eq_false_iff.mp hbusy i), sub_self, mul_zero]

/-- A step is only made by a busy axis that has steps left. -/
theorem fires_imp {a : StepAxis R} {pins : TriggerPins} {i : Axis}
    (h : stepAxisFires a pins i = true) :
    a.busyFlag i = true ∧ a.step i < a.stepNeed i := by
  simp only [stepAxisFires, stepAxisStillBusy, Bool.and_eq_true] at h
  obtain ⟨hbusy, -⟩ := h
  split at hbusy
  · rename_i hflag
    split at hbusy
    · simp at hbusy
    · rename_i hlt
      exact ⟨hflag, not_le.mp hlt⟩
  · simp at hbusy

/-- One step changes the hardware position and the count of the axis together. -/
theorem step_hardPos_add_remaining (a : StepAxis R) (pins : TriggerPins) (i : Axis) :
    (stepAxisStep a pins).hardPos i + (stepAxisStep a pins).remaining i =
      a.hardPos i + a.remaining i := by
  simp only [StepAxis.remaining, stepAxisStep]
  split <;> ring

theorem StepAxis.Counted.step {a : StepAxis R} (h : a.Counted) (pins : TriggerPins) :
    (stepAxisStep a pins).Counted where
  busy_need i hbusy := by
    apply h.busy_need i
    simp only [stepAxisStep, stepAxisStillBusy] at hbusy
    split at hbusy
    · assumption
    · simp at hbusy
  step_le i := by
    simp only [stepAxisStep]
    split
    · rename_i hfires
      have := (fires_imp hfires).2
      omega
    · exact h.step_le i

/-- Nothing but a pressed switch stops an axis short. -/
theorem StepAxis.Complete.step {a : StepAxis R} (h : a.Complete) (hcount : a.Counted)
    {pins : TriggerPins}
    (hpins : ∀ i, a.busyFlag i = true → a.step i < a.stepNeed i → stepAxisStillBusy a pins i) :
    (stepAxisStep a pins).Complete := by
  intro i hclear
  change stepAxisStillBusy a pins i = false at hclear
  have hstill : stepAxisFires a pins i = false := by simp [stepAxisFires, hclear]
  simp only [stepAxisStep, hstill, Bool.false_eq_true, if_false]
  by_cases hbusy : a.busyFlag i = true
  · by_contra hne
    have hlt : a.step i < a.stepNeed i := lt_of_le_of_ne (hcount.step_le i) hne
    simp [hpins i hbusy hlt] at hclear
  · exact h i (Bool.eq_false_iff.mpr hbusy)

/-- With triggers disabled no axis is stopped short. -/
theorem stillBusy_of_not_enableTrigger {a : StepAxis R} (h : a.enableTrigger = false)
    {pins : TriggerPins} {i : Axis} (hbusy : a.busyFlag i = true)
    (hlt : a.step i < a.stepNeed i) : stepAxisStillBusy a pins i = true := by
  simp [stepAxisStillBusy, hbusy, hlt, h]

/-- The switch that axis `i` moves towards is pressed. -/
def switchPressed (a : StepAxis R) (pins : TriggerPins) (i : Axis) : Bool :=
  if a.dir i then triggerRead (a.maxTrigger i) (pins.maxPin i)
  else triggerRead (a.minTrigger i) (pins.minPin i)

/-- The next step stops an axis that has steps left. -/
def StepAxis.Trips (a : StepAxis R) (pins : TriggerPins) : Prop :=
  a.enableTrigger = true ∧
    ∃ i, a.busyFlag i = true ∧ a.step i < a.stepNeed i ∧ switchPressed a pins i = true

/-- An axis with steps left goes on unless its switch is pressed while switches are
enabled. -/
theorem stillBusy_eq {a : StepAxis R} {pins : TriggerPins} {i : Axis}
    (hbusy : a.busyFlag i = true) (hlt : a.step i < a.stepNeed i) :
    stepAxisStillBusy a pins i = !(a.enableTrigger && switchPressed a pins i) := by
  simp only [stepAxisStillBusy, switchPressed, hbusy, if_true, not_le.mpr hlt, if_false]
  cases a.enableTrigger <;> cases a.dir i <;> simp

/-- A step keeps the axes complete exactly if no switch stops one of them. -/
theorem StepAxis.Complete.step_iff {a : StepAxis R} (h : a.Complete) (hcount : a.Counted)
    (pins : TriggerPins) : (stepAxisStep a pins).Complete ↔ ¬ a.Trips pins := by
  constructor
  · rintro hcomplete ⟨henabled, i, hbusy, hlt, hpressed⟩
    have hclear : stepAxisStillBusy a pins i = false := by
      rw [stillBusy_eq hbusy hlt, henabled, hpressed]
      rfl
    have hdone := hcomplete i hclear
    have hstill : stepAxisFires a pins i = false := by simp [stepAxisFires, hclear]
    simp only [stepAxisStep, hstill, Bool.false_eq_true, if_false] at hdone
    omega
  · intro hno
    refine h.step hcount ?_
    intro i hbusy hlt
    rw [stillBusy_eq hbusy hlt, Bool.not_eq_true', Bool.and_eq_false_iff]
    by_contra hpressed
    simp only [not_or, Bool.not_eq_false] at hpressed
    exact hno ⟨hpressed.1, i, hbusy, hlt, hpressed.2⟩

theorem reload_counted (a : StepAxis R) (masterStep : ℤ) (dir : Axis → Bool) {step : Axis → ℤ}
    (h : ∀ i, 0 ≤ step i) : (stepAxisReload a masterStep step dir).Counted where
  busy_need i hbusy := by simpa [stepAxisReload] using hbusy
  step_le i := h i

theorem reload_complete (a : StepAxis R) (masterStep : ℤ) (dir : Axis → Bool) {step : Axis → ℤ}
    (h : ∀ i, 0 ≤ step i) : (stepAxisReload a masterStep step dir).Complete := by
  intro i hclear
  have hle : ¬ 0 < step i := by simpa [stepAxisReload] using hclear
  have := h i
  simp only [stepAxisReload]
  omega

theorem reload_remaining (a : StepAxis R) (masterStep : ℤ) (step : Axis → ℤ) (dir : Axis → Bool)
    (i : Axis) : (stepAxisReload a masterStep step dir).remaining i = dirSign (dir i) * step i := by
  simp [StepAxis.remaining, stepAxisReload]

end

end TdPrinter
