import TdPrinter.Planning.AxisLimits
import TdPrinter.Position.MoveArgs
import TdPrinter.Print.DistanceLog

/-!
# Changing the flow ratio

The buttons of `screen_main_status.c` scale the extruder while a print is going on: they
set `gFlowRatio` and with it `mm2step[2]` of the position.  Neither `step` nor `mm` is
touched, although `step` was rounded with the old scale.  The next move rounds its
destination with the new one, and the difference, the steps for all of the extruder
coordinate so far, goes into that one move.

`flow_iff` says when this does no harm: if the steps so far are still the nearest ones
under the new scale, up to a tie.  `zeroDivisor_iff` is about the case in which the new
scale gives the extruder steps to make although there is no way to go.
-/

namespace TdPrinter

structure Flow (R : Type*) where
  mover : Positioner R
  gFlowRatio : R

inductive FlowButton
  | p1
  | m1
  | p10
  | m10
  | e0
  deriving DecidableEq

/-- Who runs next: a step of a move, G92 or M592 between two moves, a stop, or a button
between two moves. -/
inductive FlowAction (R : Type*)
  | run (a : MoveAction R)
  | setMm (mm : Axis → R) (relative mask : Axis → Bool)
  | stop
  | press (param : Param R) (button : FlowButton)

section

variable {R : Type*} [Field R] [LinearOrder R]

/-! ## The buttons -/

omit [LinearOrder R] in
/-- The assignments that all buttons share. -/
def setFlowRatio (param : Param R) (s : Flow R) (ratio : R) : Flow R where
  mover :=
    { s.mover with
      pos :=
        { s.mover.pos with
          mm2step := Function.update s.mover.pos.mm2step 2 (ratio * param.mm2step 2) } }
  gFlowRatio := ratio

omit [LinearOrder R] in
def raiseFlowRatio (amount : R) (param : Param R) (s : Flow R) : Flow R :=
  setFlowRatio param s (s.gFlowRatio + amount)

def lowerFlowRatio (amount : R) (param : Param R) (s : Flow R) : Flow R :=
  if s.gFlowRatio < 2 / 10 then s else setFlowRatio param s (s.gFlowRatio - amount)

omit [LinearOrder R] in
/-- `flowratioP1`. -/
def flowratioP1 : Param R → Flow R → Flow R := raiseFlowRatio (1 / 100)

/-- `flowratioM1`. -/
def flowratioM1 : Param R → Flow R → Flow R := lowerFlowRatio (1 / 100)

omit [LinearOrder R] in
/-- `flowratioP10`. -/
def flowratioP10 : Param R → Flow R → Flow R := raiseFlowRatio (1 / 10)

/-- `flowratioM10`. -/
def flowratioM10 : Param R → Flow R → Flow R := lowerFlowRatio (1 / 10)

omit [LinearOrder R] in
/-- `flowratioE0`. -/
def flowratioE0 (param : Param R) (s : Flow R) : Flow R := setFlowRatio param s 1

def FlowButton.press : FlowButton → Param R → Flow R → Flow R
  | .p1 => flowratioP1
  | .m1 => flowratioM1
  | .p10 => flowratioP10
  | .m10 => flowratioM10
  | .e0 => flowratioE0

/-- What a button can do: nothing, or set another ratio of at least a tenth. -/
theorem press_cases [IsStrictOrderedRing R] (button : FlowButton) (param : Param R) {s : Flow R}
    (h : 1 / 10 ≤ s.gFlowRatio) : button.press param s = s ∨
      ∃ ratio, 1 / 10 ≤ ratio ∧ button.press param s = setFlowRatio param s ratio := by
  have hraise : ∀ amount : R, 0 ≤ amount → ∃ ratio, 1 / 10 ≤ ratio ∧
      raiseFlowRatio amount param s = setFlowRatio param s ratio := fun amount hamount =>
    ⟨_, h.trans (le_add_of_nonneg_right hamount), rfl⟩
  have hlower : ∀ amount : R, amount ≤ 1 / 10 → lowerFlowRatio amount param s = s ∨
      ∃ ratio, 1 / 10 ≤ ratio ∧ lowerFlowRatio amount param s = setFlowRatio param s ratio := by
    intro amount hamount
    unfold lowerFlowRatio
    split
    · exact Or.inl rfl
    · rename_i hhigh
      refine Or.inr ⟨_, ?_, rfl⟩
      rw [not_lt] at hhigh
      linarith
  cases button with
  | p1 => exact Or.inr (hraise _ (by norm_num))
  | m1 => exact hlower _ (by norm_num)
  | p10 => exact Or.inr (hraise _ (by norm_num))
  | m10 => exact hlower _ le_rfl
  | e0 => exact Or.inr ⟨1, by norm_num, rfl⟩

end

section

variable {R : Type*} [Field R] [LinearOrder R] [FloorRing R] [Sqrtf R]

/-! ## Runs -/

/-- One step; `microStep` stays fixed. -/
def Flow.step (microStep : Axis → ℤ) (s : Flow R) : FlowAction R → Option (Flow R)
  | .run a => (s.mover.step microStep a).map fun mover => { s with mover }
  | .setMm mm relative mask =>
      if s.mover.free then
        some { s with mover := { s.mover with
          pos := stepPositionSetMm s.mover.pos mm relative mask } }
      else none
  | .stop => some { s with mover := s.mover.stop }
  | .press param button => if s.mover.free then some (button.press param s) else none

def flow (microStep : Axis → ℤ) : Machine (Flow R) (FlowAction R) := ⟨Flow.step microStep⟩

omit [Sqrtf R] in
/-- The printer when it is switched on. -/
def Flow.boot (param : Param R) : Flow R := ⟨Positioner.boot param, 1⟩

omit [FloorRing R] [Sqrtf R] in
def Flow.PositiveParam (_s : Flow R) : FlowAction R → Prop
  | .press param _ => param.Positive
  | _ => True

/-- The scales stay positive, and the steps tied to the millimetres. -/
structure Flow.Inv (Q : Axis → ℤ → R → Prop) (s : Flow R) : Prop where
  tied : s.mover.Tied Q
  mm2step_pos : ∀ i, 0 < s.mover.pos.mm2step i
  flowRatio_ge : 1 / 10 ≤ s.gFlowRatio

/-- The tie that a button has to leave intact; the other actions always do. -/
def Flow.KeepsTie (Q : Axis → ℤ → R → Prop) (s : Flow R) : FlowAction R → Prop
  | .press param button => (button.press param s).mover.pos.Tied Q
  | _ => True

section

variable [IsStrictOrderedRing R] {Q : Axis → ℤ → R → Prop}

omit [Sqrtf R] in
/-- Where the millimetres have been computed from the steps, they are tied. -/
theorem tied_of_step2mm (hQ : ∀ i x, Q i (lround x) x) {p : StepPosition R}
    (hpos : ∀ i, 0 < p.mm2step i) (hmm : p.mm = step2mm p p.step) : p.Tied Q := by
  intro i
  have hexact : p.mm2step i * p.mm i = (p.step i : R) := by
    rw [hmm]
    exact mul_div_cancel₀ _ (hpos i).ne'
  have hround := hQ i (p.step i : R)
  rw [lround_intCast] at hround
  rw [hexact]
  exact hround

omit [Sqrtf R] in
theorem Flow.boot_inv (hQ : ∀ i x, Q i (lround x) x) {param : Param R} (hparam : param.Positive) :
    (Flow.boot param).Inv Q where
  tied := by
    refine ⟨fun _ => tied_of_step2mm hQ hparam.mm2step_pos ?_, fun hbusy => by
      simp [Flow.boot, Positioner.boot, Positioner.free, InputPhase.isIdle] at hbusy⟩
    funext i
    simp [Flow.boot, Positioner.boot, stepPositionInit, step2mm]
  mm2step_pos := hparam.mm2step_pos
  flowRatio_ge := by
    show (1 : R) / 10 ≤ 1
    norm_num

omit [FloorRing R] [Sqrtf R] in
/-- A button rescales the extruder, and nothing else. -/
theorem press_spec {param : Param R} (hparam : param.Positive) {s : Flow R}
    (hpos : ∀ i, 0 < s.mover.pos.mm2step i) (hratio : 1 / 10 ≤ s.gFlowRatio)
    (button : FlowButton) :
    (button.press param s).mover.free = s.mover.free ∧
      (∀ i, 0 < (button.press param s).mover.pos.mm2step i) ∧
      1 / 10 ≤ (button.press param s).gFlowRatio ∧
      (button.press param s).mover.pos.step = s.mover.pos.step ∧
      (button.press param s).mover.pos.mm = s.mover.pos.mm ∧
      ∀ i ≠ 2, (button.press param s).mover.pos.mm2step i = s.mover.pos.mm2step i := by
  rcases press_cases button param hratio with hsame | ⟨ratio, hratio', hset⟩
  · rw [hsame]
    exact ⟨rfl, hpos, hratio, rfl, rfl, fun _ _ => rfl⟩
  · rw [hset]
    refine ⟨rfl, fun i => ?_, hratio', rfl, rfl, fun i hi => Function.update_of_ne hi _ _⟩
    show 0 < Function.update s.mover.pos.mm2step 2 (ratio * param.mm2step 2) i
    rcases eq_or_ne i 2 with rfl | hi
    · rw [Function.update_self]
      have htenth : (0 : R) < 1 / 10 := by positivity
      exact mul_pos (htenth.trans_le hratio') (hparam.mm2step_pos 2)
    · rw [Function.update_of_ne hi]
      exact hpos i

theorem Flow.Inv.step (hQ : ∀ i x, Q i (lround x) x) {microStep : Axis → ℤ} {s t : Flow R}
    {a : FlowAction R} (h : s.Inv Q) (hstep : s.step microStep a = some t)
    (hparam : s.PositiveParam a) (htie : s.KeepsTie Q a) : t.Inv Q := by
  cases a with
  | run a =>
      obtain ⟨mover, hmove, rfl⟩ := Option.map_eq_some_iff.mp hstep
      have hscale : mover.pos.mm2step = s.mover.pos.mm2step := by
        rcases step_position hmove with ⟨-, -, -, hscale, -⟩ | ⟨-, -, -, hscale, -⟩ |
          ⟨-, -, -, hscale, -⟩ <;> exact hscale
      refine ⟨h.tied.step hQ hmove, ?_, h.flowRatio_ge⟩
      rw [hscale]
      exact h.mm2step_pos
  | setMm mm relative mask =>
      obtain ⟨hfree, rfl⟩ := Option.ite_some_none_eq_some.mp hstep
      refine ⟨⟨fun _ => tied_of_step2mm hQ h.mm2step_pos rfl, fun hbusy => ?_⟩, h.mm2step_pos,
        h.flowRatio_ge⟩
      change s.mover.free = false at hbusy
      simp [hfree] at hbusy
  | stop =>
      obtain rfl := Option.some.inj hstep
      refine ⟨⟨fun _ => tied_of_step2mm hQ h.mm2step_pos rfl, fun hbusy => ?_⟩, h.mm2step_pos,
        h.flowRatio_ge⟩
      simp [Positioner.stop, Positioner.free, InputPhase.isIdle] at hbusy
  | press param button =>
      obtain ⟨hfree, rfl⟩ := Option.ite_some_none_eq_some.mp hstep
      obtain ⟨hfree', hpos, hratio, -⟩ :=
        press_spec hparam h.mm2step_pos h.flowRatio_ge button
      refine ⟨⟨fun _ => htie, fun hbusy => ?_⟩, hpos, hratio⟩
      simp [hfree', hfree] at hbusy

/-! ## The extruder does not move by itself -/

/-- Whatever the next move is, its extruder steps are those of its way, up to one. -/
def Flow.ExtrudesAsAsked (s : Flow R) : Prop :=
  s.mover.free = true → ∀ (param : Param R) (mm : Axis → R) (relative mask : Axis → Bool)
    (speed : R) (useAccel : Bool),
    let p := (stepPositionInputNextPosition param s.mover.pos mm relative mask speed useAccel).1
    |(p.stepOffset 2 : R) - p.mm2step 2 * (p.mmDst 2 - p.mm 2)| ≤ 1

omit [Sqrtf R] in
/-- The steps of the extruder are the nearest ones, up to a tie. -/
def StepPosition.Near (p : StepPosition R) : Prop :=
  |(p.step 2 : R) - p.mm2step 2 * p.mm 2| ≤ 1 / 2

omit [Sqrtf R] in
/-- The condition on a button: rescaled, the extruder's coordinate still belongs to the
steps made so far. -/
def Flow.StaysNear (s : Flow R) : FlowAction R → Prop
  | .press param button => (button.press param s).mover.pos.Near
  | _ => True

omit [Sqrtf R] in
def near (i : Axis) (k : ℤ) (x : R) : Prop := i = 2 → |(k : R) - x| ≤ 1 / 2

omit [Sqrtf R] in
theorem near_lround (i : Axis) (x : R) : near i (lround x) x := fun _ => abs_lround_sub_le x

omit [IsStrictOrderedRing R] [FloorRing R] [Sqrtf R] in
theorem tied_near_iff (p : StepPosition R) : p.Tied near ↔ p.Near := by
  constructor
  · exact fun h => h 2 rfl
  · rintro h i rfl
    exact h

omit [IsStrictOrderedRing R] in
/-- The steps of the next move differ from its way by the error of rounding its
destination, less the error of the position. -/
theorem inputNextPosition_stepError (param : Param R) (p : StepPosition R) (mm : Axis → R)
    (relative mask : Axis → Bool) (speed : R) (useAccel : Bool) {q : StepPosition R}
    (hq : (stepPositionInputNextPosition param p mm relative mask speed useAccel).1 = q)
    (i : Axis) :
    (q.stepOffset i : R) - q.mm2step i * (q.mmDst i - q.mm i) =
      ((lround (q.mm2step i * q.mmDst i) : R) - q.mm2step i * q.mmDst i) -
        ((p.step i : R) - p.mm2step i * p.mm i) := by
  obtain ⟨-, hstep, hmm, hscale, hdst⟩ :=
    inputNextPosition_frame param p mm relative mask speed useAccel
  rw [hq] at hstep hmm hscale hdst
  rw [StepPosition.stepOffset, hdst i, hstep, hmm, hscale]
  push_cast
  ring

omit [IsStrictOrderedRing R] in
/-- A destination may lie at any `y` on the scale of the steps, so where the next move
always extrudes as asked, the error of rounding `y` makes up for that of the position. -/
theorem Flow.ExtrudesAsAsked.rounding {s : Flow R} (hasked : s.ExtrudesAsAsked)
    (hfree : s.mover.free = true) (hpos : 0 < s.mover.pos.mm2step 2) (y : R) :
    |((lround y : R) - y) - ((s.mover.pos.step 2 : R) -
      s.mover.pos.mm2step 2 * s.mover.pos.mm 2)| ≤ 1 := by
  let param : Param R := ⟨0, 0, 0, 0, 0, 0, 0, 0, 0, 0⟩
  let x : Axis → R := fun _ => y / s.mover.pos.mm2step 2
  have hle := hasked hfree param x (fun _ => false) (fun _ => true) 0 false
  dsimp only at hle
  rw [inputNextPosition_stepError _ _ _ _ _ _ _ rfl] at hle
  obtain ⟨-, -, -, hscale, -⟩ :=
    inputNextPosition_frame param s.mover.pos x (fun _ => false) (fun _ => true) 0 false
  have hdst : (stepPositionInputNextPosition param s.mover.pos x (fun _ => false)
      (fun _ => true) 0 false).1.mmDst 2 = y / s.mover.pos.mm2step 2 := by
    unfold stepPositionInputNextPosition
    dsimp only
    split <;> rfl
  rw [hscale, hdst, mul_div_cancel₀ _ hpos.ne'] at hle
  exact hle

/-- The rounding of the destination can be off by a half either way. -/
theorem extrudesAsAsked_iff {s : Flow R} (hfree : s.mover.free = true)
    (hpos : 0 < s.mover.pos.mm2step 2) : s.ExtrudesAsAsked ↔ s.mover.pos.Near := by
  constructor
  · intro hasked
    by_contra hfar
    rw [StepPosition.Near, not_le, lt_abs] at hfar
    -- a destination that is rounded by a half, away from where the position is off
    rcases hfar with hahead | hbehind
    · have hle := hasked.rounding hfree hpos (-(1 / 2))
      rw [lround_neg_half, abs_le] at hle
      push_cast at hle
      linarith [hle.1]
    · have hle := hasked.rounding hfree hpos (1 / 2)
      rw [lround_half, abs_le] at hle
      push_cast at hle
      linarith [hle.2]
  · intro hnear _ param mm relative mask speed useAccel
    dsimp only
    rw [inputNextPosition_stepError _ _ _ _ _ _ _ rfl]
    refine (abs_sub _ _).trans ?_
    have hround := abs_lround_sub_le ((stepPositionInputNextPosition param s.mover.pos mm relative
      mask speed useAccel).1.mm2step 2 * (stepPositionInputNextPosition param s.mover.pos mm
        relative mask speed useAccel).1.mmDst 2)
    calc _ ≤ (1 : R) / 2 + 1 / 2 := add_le_add hround hnear
      _ = 1 := add_halves 1

/-- In every run the next move extrudes what it is asked to exactly if every button finds
the steps made so far still the nearest ones under the new scale. -/
theorem flow_iff {microStep : Axis → ℤ} {param : Param R} (hparam : param.Positive)
    {as : List (FlowAction R)}
    (hpositive : (flow microStep).AllSteps Flow.PositiveParam (Flow.boot param) as) :
    (flow microStep).Always Flow.ExtrudesAsAsked (Flow.boot param) as ↔
      (flow microStep).AllSteps Flow.StaysNear (Flow.boot param) as := by
  refine Machine.always_iff_allSteps_of_guard (J := Flow.Inv near) (fun s h hfree => ?_)
    (fun s a t h hstep hpos hnear => ?_) (fun s a t h hstep hpos hfar => ?_)
    (Flow.boot_inv near_lround hparam) hpositive
  · exact (extrudesAsAsked_iff hfree (h.mm2step_pos 2)).mpr
      ((tied_near_iff _).mp (h.tied.here hfree)) hfree
  · refine h.step near_lround hstep hpos ?_
    cases a with
    | press param button => exact (tied_near_iff _).mpr hnear
    | _ => trivial
  · cases a with
    | press param button =>
        obtain ⟨hfree, rfl⟩ := Option.ite_some_none_eq_some.mp hstep
        obtain ⟨hfree', hscale, -⟩ := press_spec hpos h.mm2step_pos h.flowRatio_ge button
        exact fun hasked =>
          hfar ((extrudesAsAsked_iff (hfree'.trans hfree) (hscale 2)).mp hasked)
    | _ => exact absurd trivial hfar

end

/-- A move of the extruder to 10 mm, then a button. -/
def extrudeAndRaise : List (FlowAction ℚ) :=
  (moveAxis resetRamParam 2 10 10).map .run ++ [.press resetRamParam .p10]

theorem extrudeAndRaise_positive : (flow resetRamParam.microStep).AllSteps Flow.PositiveParam
    (Flow.boot resetRamParam) extrudeAndRaise := by
  refine Machine.allSteps_of_forall (fun a ha _ => ?_) _
  rcases List.mem_append.mp ha with ha | ha
  · obtain ⟨_, -, rfl⟩ := List.mem_map.mp ha
    trivial
  · rw [List.mem_singleton.mp ha]
    exact resetRamParam_positive

theorem flow_iff_extrudeAndRaise :
    (flow resetRamParam.microStep).Always Flow.ExtrudesAsAsked (Flow.boot resetRamParam)
        extrudeAndRaise ↔
      (flow resetRamParam.microStep).AllSteps Flow.StaysNear (Flow.boot resetRamParam)
        extrudeAndRaise :=
  flow_iff resetRamParam_positive extrudeAndRaise_positive

/-- The 10 mm are 60 steps, and 66 after the button. -/
theorem extrudeAndRaise_exec : ∃ t, (flow resetRamParam.microStep).exec (Flow.boot resetRamParam)
    extrudeAndRaise = some t ∧ t.mover.free = true ∧ t.mover.pos.step 2 = 60 ∧
      t.mover.pos.mm2step 2 * t.mover.pos.mm 2 = 66 ∧ 0 < t.mover.pos.mm2step 2 ∧
      ∀ i ≠ 2, t.mover.pos.step i = lround (t.mover.pos.mm2step i * t.mover.pos.mm i) := by
  have hexec : ((flow resetRamParam.microStep).exec (Flow.boot resetRamParam)
      extrudeAndRaise).map (fun t => (t.mover.free, t.mover.pos.step 2,
        t.mover.pos.mm2step 2 * t.mover.pos.mm 2,
        decide (0 < t.mover.pos.mm2step 2 ∧ ∀ i ≠ 2, t.mover.pos.step i =
          lround (t.mover.pos.mm2step i * t.mover.pos.mm i)))) = some (true, 60, 66, true) := by
    decide +kernel
  obtain ⟨t, ht, hobserved⟩ := Option.map_eq_some_iff.mp hexec
  simp only [Prod.mk.injEq, decide_eq_true_eq] at hobserved
  exact ⟨t, ht, hobserved⟩

/-- The next move, wherever it goes, also makes the 6 steps. -/
theorem extrudeAndRaise_jumps : ¬ (flow resetRamParam.microStep).Always Flow.ExtrudesAsAsked
    (Flow.boot resetRamParam) extrudeAndRaise := by
  intro halways
  obtain ⟨t, ht, hfree, hstep, hway, hscale, -⟩ := extrudeAndRaise_exec
  have hnear := (extrudesAsAsked_iff hfree hscale).mp (halways.exec ht)
  rw [StepPosition.Near, hstep, hway] at hnear
  norm_num at hnear

/-! ## Divisors -/

/-- The divisors of a call of `stepPlanner_inputMotion` with the arguments `args` that
leaves `q` behind. -/
structure Divisors (args : MotionArgs R) (q : StepPlanner R) : Prop where
  speed_pos : 0 < args.speed
  length_pos : 0 < args.length
  nominalDt_pos : 0 < q.nominalDt
  masterStep_pos : 0 < q.block.masterStep
  distance_pos : 0 < q.block.distance
  nominalSpeed_pos : 0 < q.block.nominalSpeed

/-- Whatever the next move is, if it reaches `stepPlanner_inputMotion` the divisors are
positive. -/
def Flow.Divides (s : Flow R) : Prop :=
  s.mover.free = true → ∀ (param : Param R) (mm : Axis → R) (relative mask : Axis → Bool)
    (speed : R) (useAccel : Bool), param.Positive →
    let r := stepPositionGetOffsetLength (stepPositionSetMmDst s.mover.pos mm relative mask)
    let moved := stepPositionInputNextPosition param s.mover.pos mm relative mask speed useAccel
    moved.2 = true → Divisors (moveArgs param r.1 r.2 speed useAccel) moved.1.planner

/-- The condition on a button: rescaled, the extruder's coordinate is still rounded to
the steps made so far. -/
def Flow.StaysRounded (s : Flow R) : FlowAction R → Prop
  | .press param button => s.mover.pos.step 2 =
      lround ((button.press param s).mover.pos.mm2step 2 * s.mover.pos.mm 2)
  | _ => True

variable [IsStrictOrderedRing R]

omit [IsStrictOrderedRing R] [FloorRing R] [Sqrtf R] in
theorem prepareStages_nominalDt (param : Param R) (p : StepPlanner R) (args : MotionArgs R) :
    (prepareStages param p args).nominalDt =
      (slowdown p.stepBlock.len args.length args.speed).1 := by
  simp only [prepareStages, limitAccelSpeed, limitSpeed]
  split
  · rfl
  · rfl

/-- The planner divides by positive numbers if its arguments are positive. -/
theorem prepare_divisors [LawfulSqrtf R] {param : Param R} (hparam : param.Positive)
    {args : MotionArgs R} (hargs : args.Positive) (p : StepPlanner R) :
    Divisors args (stepPlannerPrepare param p args) := by
  have hscaled := (prepare_sized hparam hargs.accepted p).scaled
  refine ⟨hargs.speed_pos, hargs.length_pos, ?_, hscaled.masterStep_pos, hscaled.distance_pos,
    hscaled.nominalSpeed_pos⟩
  show 0 < (prepareStages param p args).nominalDt
  rw [prepareStages_nominalDt]
  exact (slowdown_spec p.stepBlock.len hargs.length_pos hargs.speed_pos).1

omit [IsStrictOrderedRing R] [Sqrtf R] in
theorem tied_rounds_iff {p q : StepPosition R} (hq : q.Tied rounds) (hstep : p.step = q.step)
    (hmm : p.mm = q.mm) (hscale : ∀ i ≠ 2, p.mm2step i = q.mm2step i) :
    p.Tied rounds ↔ q.step 2 = lround (p.mm2step 2 * q.mm 2) := by
  constructor
  · intro h
    have hextruder := h 2
    rw [hstep, hmm] at hextruder
    exact hextruder
  · intro hextruder i
    rw [hstep, hmm]
    rcases eq_or_ne i 2 with rfl | hi
    · exact hextruder
    · rw [hscale i hi]
      exact hq i

/-- Where the steps are the rounded millimetres, no move divides by zero. -/
theorem divides_of_tied [LawfulSqrtf R] {s : Flow R} (h : s.mover.Tied rounds) : s.Divides := by
  intro hfree param mm relative mask speed useAccel hparam r moved hmoved
  have hcall : stepPositionInputNextPosition param s.mover.pos mm relative mask speed useAccel =
      (moved.1, true) := Prod.ext rfl hmoved
  obtain ⟨q, length, hoffset, hmoves, hplanner⟩ := inputNextPosition_planner hcall
  have hr : r = (q, length) := hoffset
  rw [hr, hplanner]
  refine prepare_divisors hparam (moveArgs_positive hparam ?_ hoffset hmoves speed useAccel) _
  exact h.here hfree

/-- The move to where the printer stands has no way to go; if it has steps, they are
those of the extruder, and the length is zero. -/
theorem not_divides_of_off {param : Param R} (hparam : param.Positive) {s : Flow R}
    (hfree : s.mover.free = true)
    (hothers : ∀ i ≠ 2, s.mover.pos.step i = lround (s.mover.pos.mm2step i * s.mover.pos.mm i))
    (hoff : s.mover.pos.step 2 ≠ lround (s.mover.pos.mm2step 2 * s.mover.pos.mm 2)) :
    ¬ s.Divides := by
  intro hdivides
  let p := stepPositionSetMmDst s.mover.pos s.mover.pos.mm (fun _ => false) fun _ => true
  let q := (stepPositionGetOffsetLength p).1
  have hextruder : ∀ i, q.stepOffset i ≠ 0 ↔ i = 2 := by
    intro i
    have hstays : q.stepOffset i = lround (s.mover.pos.mm2step i * s.mover.pos.mm i) -
        s.mover.pos.step i := rfl
    rw [hstays, sub_ne_zero]
    constructor
    · intro hmoves
      by_contra hi
      exact hmoves (hothers i hi).symm
    · rintro rfl
      exact hoff.symm
  have hlength : (stepPositionGetOffsetLength p).2 = 0 := by
    have hone : (axes.filter fun i => q.stepOffset i ≠ 0) = [2] := by
      simp only [hextruder]
      decide
    have hsingle : (stepPositionGetOffsetLength p).2 =
        |s.mover.pos.mm 2 - s.mover.pos.mm 2| := offsetLength_of_single (Prod.ext rfl rfl) hone
    rw [hsingle, sub_self, abs_zero]
  have hmoved : (stepPositionInputNextPosition param s.mover.pos s.mover.pos.mm (fun _ => false)
      (fun _ => true) 0 false).2 = true := by
    simp only [stepPositionInputNextPosition, stepLength_pos_iff]
    rw [if_pos ⟨2, (hextruder 2).mpr rfl⟩]
  have hpos := (hdivides hfree param _ _ _ _ _ hparam hmoved).length_pos
  change 0 < (stepPositionGetOffsetLength p).2 at hpos
  exact hpos.ne' hlength

end

/-- In every run no division of the planner has a zero divisor exactly if every button
finds the steps of the extruder to be its rounded millimetres under the new scale. -/
theorem zeroDivisor_iff {microStep : Axis → ℤ} {param : Param ℝ} (hparam : param.Positive)
    {as : List (FlowAction ℝ)}
    (hpositive : (flow microStep).AllSteps Flow.PositiveParam (Flow.boot param) as) :
    (flow microStep).Always Flow.Divides (Flow.boot param) as ↔
      (flow microStep).AllSteps Flow.StaysRounded (Flow.boot param) as := by
  refine Machine.always_iff_allSteps_of_guard (J := Flow.Inv rounds)
    (fun s h => divides_of_tied h.tied) (fun s a t h hstep hpos hkeeps => ?_)
    (fun s a t h hstep hpos hoff => ?_) (Flow.boot_inv rounds_lround hparam) hpositive
  · refine h.step rounds_lround hstep hpos ?_
    cases a with
    | press param button =>
        obtain ⟨hfree, rfl⟩ := Option.ite_some_none_eq_some.mp hstep
        obtain ⟨-, -, -, hpstep, hmm, hscale⟩ :=
          press_spec hpos h.mm2step_pos h.flowRatio_ge button
        exact (tied_rounds_iff (h.tied.here hfree) hpstep hmm hscale).mpr hkeeps
    | _ => trivial
  · cases a with
    | press param button =>
        obtain ⟨hfree, rfl⟩ := Option.ite_some_none_eq_some.mp hstep
        obtain ⟨hfree', -, -, hpstep, hmm, hscale⟩ :=
          press_spec hpos h.mm2step_pos h.flowRatio_ge button
        refine not_divides_of_off hpos (hfree'.trans hfree) (fun i hi => ?_) ?_
        · rw [hpstep, hmm, hscale i hi]
          exact h.tied.here hfree i
        · rw [hpstep, hmm]
          exact hoff
    | _ => exact absurd trivial hoff

/-- Moves of the extruder and of the X axis, with a button behind each. -/
noncomputable def movesAndButtons : List (FlowAction ℝ) :=
  (moveAxis realParam 2 1 10).map .run ++ [.press realParam .p10] ++
    (moveAxis realParam 0 5 10).map .run ++ [.press realParam .m10]

theorem movesAndButtons_positive : (flow fun _ => 1).AllSteps Flow.PositiveParam
    (Flow.boot realParam) movesAndButtons := by
  refine Machine.allSteps_of_forall (fun a ha _ => ?_) _
  simp only [movesAndButtons, List.mem_append, List.mem_map, List.mem_singleton] at ha
  rcases ha with ((⟨_, -, rfl⟩ | rfl) | ⟨_, -, rfl⟩) | rfl
  · trivial
  · exact realParam_positive
  · trivial
  · exact realParam_positive

theorem zeroDivisor_iff_movesAndButtons :
    (flow fun _ => 1).Always Flow.Divides (Flow.boot realParam) movesAndButtons ↔
      (flow fun _ => 1).AllSteps Flow.StaysRounded (Flow.boot realParam) movesAndButtons :=
  zeroDivisor_iff realParam_positive movesAndButtons_positive

/-- The move to 10 mm, where the extruder is, has 6 steps to make on a way of length 0. -/
theorem extrudeAndRaise_divides : ¬ (flow resetRamParam.microStep).Always Flow.Divides
    (Flow.boot resetRamParam) extrudeAndRaise := by
  intro halways
  obtain ⟨t, ht, hfree, hstep, hway, -, hothers⟩ := extrudeAndRaise_exec
  refine not_divides_of_off resetRamParam_positive hfree hothers ?_ (halways.exec ht)
  rw [hstep, hway]
  decide +kernel

end TdPrinter
