import TdPrinter.Planning.Preparation
import TdPrinter.Position.Drift

/-!
# The arguments of a motion

`stepPosition_inputNextPosition` guards against moves without steps, and computes the
length from the way in millimetres.  As long as the steps are those of the position in
millimetres, a move with steps also has a way to go: `moveArgs_positive`.
-/

namespace TdPrinter

section

variable {R : Type*} [Field R] [LinearOrder R] [FloorRing R]

def rounds (_i : Axis) (k : ℤ) (x : R) : Prop := k = lround x

theorem rounds_lround (i : Axis) (x : R) : rounds i (lround x) x := rfl

omit [FloorRing R] in
/-- What `stepPosition_inputNextPosition` passes to `stepPlanner_inputMotion`. -/
def moveArgs (param : Param R) (p : StepPosition R) (length speed : R) (useAccel : Bool) :
    MotionArgs R where
  steps := p.stepOffset
  dist := p.mmOffset
  speed := if speed < minimumPositionSpeed then minimumPositionSpeed else speed
  length := length
  useAccel := useAccel
  defaultEntrySpeed := moveEntrySpeed param p.stepOffset length
  defaultExitSpeed := moveEntrySpeed param p.stepOffset length

variable [Sqrtf R]

/-- The call of `stepPlanner_inputMotion`, if it is made. -/
theorem inputNextPosition_planner {param : Param R} {p p' : StepPosition R} {pos : Axis → R}
    {relative mask : Axis → Bool} {speed : R} {useAccel : Bool}
    (h : stepPositionInputNextPosition param p pos relative mask speed useAccel = (p', true)) :
    ∃ q length, stepPositionGetOffsetLength (stepPositionSetMmDst p pos relative mask) =
        (q, length) ∧ (∃ i, q.stepOffset i ≠ 0) ∧
      p'.planner = stepPlannerPrepare param p.planner (moveArgs param q length speed useAccel) := by
  simp only [stepPositionInputNextPosition, stepLength_pos_iff] at h
  split at h
  · rename_i hmoves
    obtain ⟨rfl, -⟩ := Prod.mk.inj h
    exact ⟨_, _, rfl, hmoves, rfl⟩
  · simp at h

variable [IsStrictOrderedRing R]

omit [FloorRing R] [Sqrtf R] in
theorem minimumPositionSpeed_pos : (0 : R) < minimumPositionSpeed := by
  unfold minimumPositionSpeed
  positivity

omit [FloorRing R] [Sqrtf R] in
theorem moveEntrySpeed_pos {param : Param R} (hparam : param.Positive) (stepOffset : Axis → ℤ)
    (length : R) : 0 < moveEntrySpeed param stepOffset length := by
  unfold moveEntrySpeed
  split
  · exact hparam.defaultEntrySpeed_pos 3
  · split
    · exact hparam.defaultEntrySpeed_pos 2
    · split
      · exact hparam.defaultEntrySpeed_pos 0
      · exact lt_max_of_lt_right minimumPositionSpeed_pos

omit [IsStrictOrderedRing R] in
/-- An axis that has a step to make also has a way to go. -/
theorem mmOffset_ne {p q : StepPosition R} {length : R} (hrounded : p.Tied rounds)
    (h : stepPositionGetOffsetLength p = (q, length)) {i : Axis} (hi : q.stepOffset i ≠ 0) :
    q.mmOffset i ≠ 0 := by
  obtain ⟨rfl, -⟩ := Prod.mk.inj h
  intro hstays
  refine hi ?_
  have hmm : p.mmDst i = p.mm i := sub_eq_zero.mp hstays
  show lround (p.mm2step i * p.mmDst i) - p.step i = 0
  have hstep : p.step i = lround (p.mm2step i * p.mm i) := hrounded i
  rw [hmm, hstep, sub_self]

omit [IsStrictOrderedRing R] in
/-- A move on one axis only is as long as its way on that axis. -/
theorem offsetLength_of_single {p q : StepPosition R} {length : R}
    (h : stepPositionGetOffsetLength p = (q, length)) {i : Axis}
    (hone : (axes.filter fun j => q.stepOffset j ≠ 0) = [i]) : length = |q.mmOffset i| := by
  obtain ⟨hq, hlength⟩ := Prod.mk.inj h
  rw [hq] at hlength
  rw [← hlength, hone]

omit [FloorRing R] [IsStrictOrderedRing R] in
theorem sqrtf_pos [LawfulSqrtf R] {x : R} (hx : 0 < x) : 0 < sqrtf x := by
  refine lt_of_le_of_ne (LawfulSqrtf.sqrtf_nonneg x) fun hzero => ?_
  have hsquare := LawfulSqrtf.sqrtf_mul_self x hx.le
  rw [← hzero, mul_zero] at hsquare
  exact hx.ne hsquare

/-- The length is that of one axis, or of all but the extruder; among several axes there
is another one than the extruder. -/
theorem offsetLength_pos [LawfulSqrtf R] {p q : StepPosition R} {length : R}
    (hrounded : p.Tied rounds) (h : stepPositionGetOffsetLength p = (q, length)) : 0 < length := by
  have hway : ∀ i, q.stepOffset i ≠ 0 → q.mmOffset i ≠ 0 := fun i => mmOffset_ne hrounded h
  obtain ⟨hq, hlength⟩ := Prod.mk.inj h
  rw [hq] at hlength
  rw [← hlength]
  have hmem : ∀ i ∈ axes.filter fun i => q.stepOffset i ≠ 0, q.mmOffset i ≠ 0 := fun i hi =>
    hway i (of_decide_eq_true (List.mem_filter.mp hi).2)
  have hnodup : (axes.filter fun i => q.stepOffset i ≠ 0).Nodup :=
    (List.nodup_finRange _).filter _
  have hz : (axes.filter fun i : Axis => 3 ≤ i.val).foldl
      (fun z i => if |q.mmOffset i| > z then |q.mmOffset i| else z) 0 = |q.mmOffset 3| := by
    have hlast : (axes.filter fun i : Axis => 3 ≤ i.val) = [3] := by decide
    rw [hlast, List.foldl_cons, List.foldl_nil]
    split
    · rfl
    · rename_i hzero
      exact le_antisymm (abs_nonneg _) (not_lt.mp hzero)
  dsimp only
  generalize (axes.filter fun i => q.stepOffset i ≠ 0) = l at hmem hnodup ⊢
  match l with
  | [] => exact zero_lt_one
  | [i] => exact abs_pos.mpr (hmem i (by simp))
  | i :: j :: rest =>
      obtain ⟨k, hk, hne⟩ : ∃ k ∈ i :: j :: rest, k ≠ 2 := by
        have hij : i ≠ j := fun hij => by simp [hij] at hnodup
        rcases eq_or_ne i 2 with rfl | hi
        · exact ⟨j, by simp, hij.symm⟩
        · exact ⟨i, by simp, hi⟩
      have hoffset := hmem k hk
      simp only [hz]
      refine sqrtf_pos ?_
      have hx := mul_self_nonneg (q.mmOffset 0)
      have hy := mul_self_nonneg (q.mmOffset 1)
      have hzz := mul_self_nonneg |q.mmOffset 3|
      fin_cases k
      · have := mul_self_pos.mpr hoffset
        exact add_pos_of_pos_of_nonneg (add_pos_of_pos_of_nonneg this hy) hzz
      · have := mul_self_pos.mpr hoffset
        exact add_pos_of_pos_of_nonneg (add_pos_of_nonneg_of_pos hx this) hzz
      · exact absurd rfl hne
      · have := mul_self_pos.mpr (abs_ne_zero.mpr hoffset)
        exact add_pos_of_nonneg_of_pos (add_nonneg hx hy) this

/-- A call of `stepPlanner_inputMotion` has positive arguments. -/
theorem moveArgs_positive [LawfulSqrtf R] {param : Param R} (hparam : param.Positive)
    {p q : StepPosition R} {length : R} (hrounded : p.Tied rounds)
    (h : stepPositionGetOffsetLength p = (q, length)) (hmoves : ∃ i, q.stepOffset i ≠ 0)
    (speed : R) (useAccel : Bool) : (moveArgs param q length speed useAccel).Positive where
  length_pos := offsetLength_pos hrounded h
  speed_pos := by
    show 0 < if speed < minimumPositionSpeed then minimumPositionSpeed else speed
    split
    · exact minimumPositionSpeed_pos
    · rename_i hfast
      exact minimumPositionSpeed_pos.trans_le (not_lt.mp hfast)
  moves := hmoves
  defaultEntrySpeed_pos := moveEntrySpeed_pos hparam _ _
  defaultExitSpeed_eq := rfl

end

/-- A whole call, to `mm` on one axis. -/
def moveAxis {R : Type*} (param : Param R) (i : Axis) (mm speed : R) : List (MoveAction R) :=
  [.move param (fun _ => mm) (fun _ => false) (fun j => j = i) speed true, .input .insert,
    .input .replan, .input (.idleTest param), .updateSrc]

end TdPrinter
