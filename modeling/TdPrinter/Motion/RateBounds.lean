import TdPrinter.Motion.Pipeline

/-!
# Rates within the bounds of the timer

The speed ramp of `stepBlock_ISR` is an integrator: each tick adds or subtracts
`accelRate` times the length of the last interval, which is the reciprocal of the rate
that the tick before has set.  The caps at `nominalRate` and `exitRate` keep the rate
between the slower end of the block and its nominal rate, whatever the two switching
points are (`rate_bounded`).

For rates from 120 to 24000000 steps/s the timer does what `stepTimer_setRate` asks
for: the 16-bit reload value is the quotient less one, and the interval in the
registers is short of `dt` by less than one count (`StepTimer.Keeps`).
-/

namespace TdPrinter

section

variable {R : Type*} [Field R] [LinearOrder R] [FloorRing R]

/-! ## The timer -/

omit [LinearOrder R] [FloorRing R] in
/-- One prescaled count of the timer, in seconds; the counter runs with 24 MHz if
`prescale` is 6. -/
def StepTimer.count (t : StepTimer R) : R := ((t.prescale : R) + 1) / 7 / 24000000

omit [LinearOrder R] [FloorRing R] in
/-- The interval that the registers ask for, in seconds. -/
def StepTimer.interval (t : StepTimer R) : R := ((t.reload : R) + 1) * t.count

/-- The frequency that `stepTimer_setRate` divides by the rate: `TIMER_CLK` or
`TIMER_CLK_DIV_50`. -/
def timerClk (rate : R) : R := if rate > 500 then 24000000 else 480000

structure StepTimer.Keeps (t : StepTimer R) (rate : R) : Prop where
  rate_pos : 0 < rate
  dt_eq : t.dt = 1 / rate
  reload_eq : t.reload = ⌊timerClk rate / rate⌋ - 1
  reload_nonneg : 0 ≤ t.reload
  reload_lt : t.reload < 65536
  interval_le : t.interval ≤ t.dt
  dt_lt : t.dt < t.interval + t.count

section

variable [IsStrictOrderedRing R]

theorem floor_timerClk {rate : R} (hlow : 120 ≤ rate) (hhigh : rate ≤ 24000000) :
    1 ≤ ⌊timerClk rate / rate⌋ ∧ ⌊timerClk rate / rate⌋ ≤ 48000 := by
  have hpos : 0 < rate := lt_of_lt_of_le (by norm_num) hlow
  have hquotient : 1 ≤ timerClk rate / rate ∧ timerClk rate / rate ≤ 48000 := by
    rw [le_div_iff₀ hpos, div_le_iff₀ hpos, timerClk]
    split
    · constructor <;> linarith
    · constructor <;> linarith
  constructor
  · exact Int.le_floor.mpr (by exact_mod_cast hquotient.1)
  · have hfloor := (Int.floor_le (timerClk rate / rate)).trans hquotient.2
    exact_mod_cast hfloor

theorem setRate_keeps (t : StepTimer R) {rate : R} (hlow : 120 ≤ rate)
    (hhigh : rate ≤ 24000000) : (stepTimerSetRate t rate).Keeps rate := by
  have hpos : 0 < rate := lt_of_lt_of_le (by norm_num) hlow
  obtain ⟨hone, hmax⟩ := floor_timerClk hlow hhigh
  have hreload : (stepTimerSetRate t rate).reload = ⌊timerClk rate / rate⌋ - 1 := by
    have hten : rate > 10 := lt_of_lt_of_le (by norm_num) hlow
    have hmod : (⌊timerClk rate / rate⌋ - 1) % 65536 = ⌊timerClk rate / rate⌋ - 1 := by omega
    rw [← hmod]
    simp only [stepTimerSetRate, timerClk, if_pos hten]
    split <;> rfl
  have hcount : (stepTimerSetRate t rate).count = 1 / timerClk rate := by
    simp only [StepTimer.count, stepTimerSetRate, timerClk]
    split <;> norm_num
  have hclk : 0 < timerClk rate := by
    unfold timerClk
    split <;> norm_num
  have hinterval : (stepTimerSetRate t rate).interval =
      (⌊timerClk rate / rate⌋ : R) / timerClk rate := by
    rw [StepTimer.interval, hreload, hcount]
    push_cast
    ring
  have hdt : (stepTimerSetRate t rate).dt = timerClk rate / rate / timerClk rate := by
    show 1 / rate = _
    field_simp
  refine ⟨hpos, rfl, hreload, by omega, by omega, ?_, ?_⟩
  · rw [hinterval, hdt]
    exact div_le_div_of_nonneg_right (Int.floor_le _) hclk.le
  · rw [hinterval, hdt, hcount, ← add_div]
    exact div_lt_div_of_pos_right (Int.lt_floor_add_one _) hclk

end

/-! ## The ramp -/

omit [FloorRing R] in
/-- A motion with ramps and with rates that the timer can keep. -/
structure MotionLine.InRange (b : MotionLine R) : Prop where
  useAccel : b.useAccel = true
  accelRate_nonneg : 0 ≤ b.accelRate
  le_entryRate : 120 ≤ b.entryRate
  entryRate_le : b.entryRate ≤ b.nominalRate
  le_exitRate : 120 ≤ b.exitRate
  exitRate_le : b.exitRate ≤ b.nominalRate
  nominalRate_le : b.nominalRate ≤ 24000000

/-- The current rate is between the slower end of the current motion and its nominal
rate, and the timer keeps it. -/
structure StepBlock.RateBounded (sb : StepBlock R) : Prop where
  le_currentRate : min sb.currentLine.entryRate sb.currentLine.exitRate ≤ sb.currentRate
  currentRate_le : sb.currentRate ≤ sb.currentLine.nominalRate
  keeps : sb.timer.Keeps sb.currentRate

variable [IsStrictOrderedRing R]

/-- A rate that is set within the bounds of the current motion. -/
theorem StepBlock.rateBounded_of_setRate {sb : StepBlock R} (h : sb.currentLine.InRange)
    {t : StepTimer R} (htimer : sb.timer = stepTimerSetRate t sb.currentRate)
    (hlow : min sb.currentLine.entryRate sb.currentLine.exitRate ≤ sb.currentRate)
    (hhigh : sb.currentRate ≤ sb.currentLine.nominalRate) : sb.RateBounded where
  le_currentRate := hlow
  currentRate_le := hhigh
  keeps := by
    rw [htimer]
    have hleast : 120 ≤ sb.currentRate := (le_min h.le_entryRate h.le_exitRate).trans hlow
    exact setRate_keeps t hleast (hhigh.trans h.nominalRate_le)

theorem load_rateBounded (param : Param R) (sb : StepBlock R)
    (h : (stepBlockLoad param sb).currentLine.InRange) :
    (stepBlockLoad param sb).RateBounded := by
  have haccel : (sb.buffer sb.tail).useAccel = true := h.useAccel
  have hrate : (stepBlockLoad param sb).currentRate = (sb.buffer sb.tail).entryRate := by
    simp only [stepBlockLoad, haccel, if_true]
  have hkeeps : (stepTimerSetRate sb.timer (stepBlockLoad param sb).currentRate).Keeps
      (stepBlockLoad param sb).currentRate := setRate_keeps sb.timer (hrate ▸ h.le_entryRate)
    (hrate ▸ h.entryRate_le.trans h.nominalRate_le)
  refine ⟨?_, ?_, ⟨hkeeps.rate_pos, hkeeps.dt_eq, hkeeps.reload_eq, hkeeps.reload_nonneg,
    hkeeps.reload_lt, hkeeps.interval_le, hkeeps.dt_lt⟩⟩
  · rw [hrate]
    exact min_le_left _ _
  · rw [hrate]
    exact h.entryRate_le

omit [IsStrictOrderedRing R] in
theorem ramp_timer {sb : StepBlock R} (haccel : sb.currentLine.useAccel = true) :
    (stepBlockRamp sb).timer = stepTimerSetRate sb.timer (stepBlockRamp sb).currentRate := by
  simp only [stepBlockRamp, if_pos haccel]
  split
  · rfl
  · split
    · rfl
    · rfl

/-- The three phases of the ramp: the rate grows up to the nominal one, or falls down to
the exit rate, or is the nominal one.  Bounds that hold of these hold on; the exit rate only
counts while the motion brakes. -/
theorem ramp_rate {sb : StepBlock R} (haccel : sb.currentLine.useAccel = true)
    (hchange : 0 ≤ sb.currentLine.accelRate * sb.timer.dt) {low high : R}
    (hrate : low ≤ sb.currentRate ∧ sb.currentRate ≤ high)
    (hnominal : low ≤ sb.currentLine.nominalRate ∧ sb.currentLine.nominalRate ≤ high)
    (hexit : sb.currentLine.decelAfter ≤ sb.masterCounter →
      low ≤ sb.currentLine.exitRate ∧ sb.currentLine.exitRate ≤ high) :
    low ≤ (stepBlockRamp sb).currentRate ∧ (stepBlockRamp sb).currentRate ≤ high := by
  simp only [stepBlockRamp, if_pos haccel]
  split
  · constructor
    · exact le_min (hrate.1.trans (le_add_of_nonneg_right hchange)) hnominal.1
    · exact (min_le_right _ _).trans hnominal.2
  · split
    · rename_i hbraking
      obtain ⟨hexitLow, hexitHigh⟩ := hexit hbraking
      constructor
      · exact hexitLow.trans (le_max_right _ _)
      · exact max_le ((sub_le_self _ hchange).trans hrate.2) hexitHigh
    · exact hnominal

theorem ramp_rateBounded {sb : StepBlock R} (h : sb.currentLine.InRange)
    (hbounded : sb.RateBounded) : (stepBlockRamp sb).RateBounded := by
  obtain ⟨hlow, hhigh, hkeeps⟩ := hbounded
  have hdt : 0 ≤ sb.timer.dt := by
    rw [hkeeps.dt_eq]
    exact (one_div_pos.mpr hkeeps.rate_pos).le
  have hnominal : min sb.currentLine.entryRate sb.currentLine.exitRate ≤
      sb.currentLine.nominalRate := (min_le_left _ _).trans h.entryRate_le
  have hrate := ramp_rate h.useAccel (mul_nonneg h.accelRate_nonneg hdt) ⟨hlow, hhigh⟩
    ⟨hnominal, le_rfl⟩ fun _ => ⟨min_le_right _ _, h.exitRate_le⟩
  obtain ⟨rateNominal, rateExit, rate, elapsed, timer, hframe, -⟩ := ramp_frame sb
  have hline : (stepBlockRamp sb).currentLine =
      { sb.currentLine with trueNominalRate := rateNominal, trueExitRate := rateExit } := by
    rw [hframe]
  refine StepBlock.rateBounded_of_setRate (t := sb.timer) ?_ (ramp_timer h.useAccel) ?_ ?_
  · rw [hline]
    exact ⟨h.useAccel, h.accelRate_nonneg, h.le_entryRate, h.entryRate_le, h.le_exitRate,
      h.exitRate_le, h.nominalRate_le⟩
  · rw [hline]
    exact hrate.1
  · rw [hline]
    exact hrate.2

/-! ## The interrupt -/

omit [IsStrictOrderedRing R] [LinearOrder R] [FloorRing R] in
/-- The current motion and its rate are the same, and the timer is set alike; it may be
switched on or off, and steps may have been made. -/
structure SameRate (sb sb' : StepBlock R) : Prop where
  line : ∃ rateNominal rateExit, sb'.currentLine =
    { sb.currentLine with trueNominalRate := rateNominal, trueExitRate := rateExit }
  rate : sb'.currentRate = sb.currentRate
  timer : ∃ on, sb'.timer = stepTimerSetEnable sb.timer on
  masterCounter_le : sb.masterCounter ≤ sb'.masterCounter

omit [Field R] [IsStrictOrderedRing R] [LinearOrder R] [FloorRing R] in
theorem step_masterCounter (pins : TriggerPins) (sb : StepBlock R) :
    sb.masterCounter ≤ (stepBlockStep pins sb).masterCounter := by
  unfold stepBlockStep
  split
  · show sb.masterCounter ≤ sb.masterCounter + 1
    omega
  · exact le_rfl

section

variable {P : StepBlock R → Prop} (hsame : ∀ {sb sb' : StepBlock R}, SameRate sb sb' → P sb → P sb')
  (hload : ∀ (param : Param R) (sb : StepBlock R), P (stepBlockLoad param sb))
include hsame hload

omit [IsStrictOrderedRing R] in
theorem loadNextMotion_rule (param : Param R) {sb : StepBlock R} (h : P sb) :
    P (stepBlockLoadNextMotion param sb).2 := by
  unfold stepBlockLoadNextMotion
  split
  · exact hload param sb
  · exact hsame ⟨⟨_, _, rfl⟩, rfl, ⟨false, rfl⟩, le_rfl⟩ h

omit [IsStrictOrderedRing R] in
theorem idleTest_rule (param : Param R) {sb : StepBlock R} (h : P sb) :
    P (stepBlockIdleTest param sb) := by
  have hrecv : P { sb with event := (rtEventRecv sb.event recvIdleClear false).1 } :=
    hsame ⟨⟨_, _, rfl⟩, rfl, ⟨sb.timer.enabled, rfl⟩, le_rfl⟩ h
  unfold stepBlockIdleTest
  dsimp only
  split
  · exact loadNextMotion_rule hsame hload param hrecv
  · exact hrecv

omit [IsStrictOrderedRing R] in
/-- What a load establishes and the ramp keeps, the interrupt keeps. -/
theorem isr_rule (hramp : ∀ {sb : StepBlock R}, P sb → P (stepBlockRamp sb)) (param : Param R)
    (pins : TriggerPins) {sb : StepBlock R} (h : P sb) : P (stepBlockISR param pins sb) := by
  have hexecute : P (stepBlockExecute param pins sb) := by
    obtain ⟨axis, counter, hstep, -⟩ := step_frame pins sb
    have hstepped : P (stepBlockStep pins sb) := by
      have hcounter := step_masterCounter pins sb
      rw [hstep] at hcounter ⊢
      exact hsame ⟨⟨_, _, rfl⟩, rfl, ⟨sb.timer.enabled, rfl⟩, hcounter⟩ h
    -- the extruder advance sets neither rate nor timer
    unfold stepBlockExecute stepBlockAdvance
    split
    · exact hsame ⟨⟨_, _, rfl⟩, rfl, ⟨_, rfl⟩, le_rfl⟩ (hramp hstepped)
    · exact hramp hstepped
  have hcomplete : P (stepBlockComplete param (stepBlockExecute param pins sb)) := by
    obtain ⟨buf, hwrite⟩ := writeBack_frame (stepBlockExecute param pins sb)
    have hwritten : P (stepBlockWriteBack (stepBlockExecute param pins sb)) := by
      rw [hwrite]
      exact hsame ⟨⟨_, _, rfl⟩, rfl, ⟨_, rfl⟩, le_rfl⟩ hexecute
    have hnext := loadNextMotion_rule hsame hload param hwritten
    unfold stepBlockComplete
    dsimp only
    split
    · exact hsame ⟨⟨_, _, rfl⟩, rfl, ⟨_, rfl⟩, le_rfl⟩ hnext
    · exact hsame ⟨⟨_, _, rfl⟩, rfl, ⟨_, rfl⟩, le_rfl⟩ hnext
  unfold stepBlockISR
  dsimp only
  split
  · exact hexecute
  · exact hcomplete

end

/-- The bounds hold if the current motion asks for them. -/
def StepBlock.KeepsRate (sb : StepBlock R) : Prop := sb.currentLine.InRange → sb.RateBounded

omit [IsStrictOrderedRing R] in
theorem SameRate.keepsRate {sb sb' : StepBlock R} (hsame : SameRate sb sb') (h : sb.KeepsRate) :
    sb'.KeepsRate := by
  intro hrange
  obtain ⟨rateNominal, rateExit, hline⟩ := hsame.line
  obtain ⟨on, htimer⟩ := hsame.timer
  rw [hline] at hrange
  have hrange' : sb.currentLine.InRange := ⟨hrange.useAccel, hrange.accelRate_nonneg,
    hrange.le_entryRate, hrange.entryRate_le, hrange.le_exitRate, hrange.exitRate_le,
    hrange.nominalRate_le⟩
  obtain ⟨hlow, hhigh, hkeeps⟩ := h hrange'
  refine ⟨?_, ?_, ?_⟩
  · rw [hline, hsame.rate]
    exact hlow
  · rw [hline, hsame.rate]
    exact hhigh
  · rw [htimer, hsame.rate]
    exact ⟨hkeeps.rate_pos, hkeeps.dt_eq, hkeeps.reload_eq, hkeeps.reload_nonneg,
      hkeeps.reload_lt, hkeeps.interval_le, hkeeps.dt_lt⟩

theorem ramp_keepsRate {sb : StepBlock R} (h : sb.KeepsRate) : (stepBlockRamp sb).KeepsRate := by
  intro hrange
  obtain ⟨rateNominal, rateExit, rate, elapsed, timer, hframe, -⟩ := ramp_frame sb
  have hrange' : sb.currentLine.InRange := by
    rw [hframe] at hrange
    exact ⟨hrange.useAccel, hrange.accelRate_nonneg, hrange.le_entryRate, hrange.entryRate_le,
      hrange.le_exitRate, hrange.exitRate_le, hrange.nominalRate_le⟩
  exact ramp_rateBounded hrange' (h hrange')

theorem isr_keepsRate (param : Param R) (pins : TriggerPins) {sb : StepBlock R}
    (h : sb.KeepsRate) : (stepBlockISR param pins sb).KeepsRate :=
  isr_rule SameRate.keepsRate load_rateBounded ramp_keepsRate param pins h

omit [IsStrictOrderedRing R] in
def stepBlockTicks (sb : StepBlock R) (ticks : List (Param R × TriggerPins)) : StepBlock R :=
  ticks.foldl (fun sb tick => stepBlockISR tick.1 tick.2 sb) sb

theorem ticks_keepsRate (ticks : List (Param R × TriggerPins)) {sb : StepBlock R}
    (h : sb.KeepsRate) : (stepBlockTicks sb ticks).KeepsRate := by
  induction ticks generalizing sb with
  | nil => exact h
  | cons tick ticks ih => exact ih (isr_keepsRate tick.1 tick.2 h)

/-- From the moment a motion is loaded, after any number of interrupts, the rate is
within the bounds of the current motion and the timer keeps it. -/
theorem rate_bounded (param : Param R) (sb : StepBlock R) (ticks : List (Param R × TriggerPins))
    (hrange : (stepBlockTicks (stepBlockLoad param sb) ticks).currentLine.InRange) :
    (stepBlockTicks (stepBlockLoad param sb) ticks).RateBounded :=
  ticks_keepsRate ticks (load_rateBounded param sb) hrange

end

/-- Three steps of the X axis, from 200 to 300 steps/s. -/
def threeSteps : MotionLine ℚ :=
  { MotionLine.zero with
    masterStep := 3
    steps := fun i => if i = 0 then 3 else 0
    nominalRate := 400
    accelRate := 6000
    entryRate := 200
    exitRate := 300
    accelBefore := 2
    decelAfter := 2
    useAccel := true }

theorem rate_bounded_threeSteps :
    (stepBlockTicks (stepBlockLoad sampleParam (stepBlockInsert stepBlockInit threeSteps))
      (List.replicate 2 (sampleParam, releasedPins))).RateBounded :=
  rate_bounded _ _ _ ⟨by decide +kernel, by decide +kernel, by decide +kernel, by decide +kernel,
    by decide +kernel, by decide +kernel, by decide +kernel⟩

end TdPrinter
