import TdPrinter.Foundation.Rounding
import TdPrinter.Position.Positioner

/-!
# No step is lost in rounding

A position is kept in millimetres and in steps, and the displacement of a move is the
difference of two rounded positions.  A move that is too short for a step is dropped:
it changes the destination in millimetres, and nothing else.

`step_position` says once what a step of the G-code thread does to the position.  From
it follow the two invariants of this module: what the position in steps owes to the one
in millimetres (`Positioner.Tied`), for any notion of rounding that `lround` meets, and
that the displacements add up (`no_drift`).
-/

namespace TdPrinter

section

variable {R : Type*} [Field R] [LinearOrder R] [FloorRing R] [Sqrtf R]

/-! ## What a step does to the position -/

/-- The steps that an action hands to `stepPlanner_inputMotion`. -/
def MoveAction.handed (microStep : Axis → ℤ) (p : StepPosition R) : MoveAction R → Axis → ℤ
  | .move param mm relative mask speed useAccel =>
      let r := stepPositionInputNextPosition { param with microStep := microStep } p mm relative
        mask speed useAccel
      if r.2 then r.1.stepOffset else 0
  | _ => 0

omit [Field R] [LinearOrder R] [FloorRing R] [Sqrtf R] in
/-- The action is a call of `stepPosition_inputNextPosition`. -/
def MoveAction.isCall : MoveAction R → Bool
  | .move .. => true
  | _ => false

omit [Sqrtf R] in
/-- What a step of the G-code thread does to the position, and what it hands to the
planner. -/
inductive PositionStep (s t : Positioner R) (handed : Axis → ℤ) (call : Bool) : Prop
  /-- the thread stays where it is, or inside a move -/
  | kept (free_eq : t.free = s.free) (step_eq : t.pos.step = s.pos.step)
      (mm_eq : t.pos.mm = s.pos.mm) (mm2step_eq : t.pos.mm2step = s.pos.mm2step)
      (stepDst_eq : t.pos.stepDst = s.pos.stepDst) (mmDst_eq : t.pos.mmDst = s.pos.mmDst)
      (handed_eq : handed = 0) (not_call : call = false)
  /-- a move begins; if there is no step in it, it ends as well -/
  | begun (free : s.free = true) (step_eq : t.pos.step = s.pos.step)
      (mm_eq : t.pos.mm = s.pos.mm) (mm2step_eq : t.pos.mm2step = s.pos.mm2step)
      (stepDst_eq : ∀ i, t.pos.stepDst i = lround (t.pos.mm2step i * t.pos.mmDst i))
      (dropped : t.free = true → t.pos.stepDst = t.pos.step)
      (handed_eq : ∀ i, handed i = t.pos.stepDst i - t.pos.step i)
  /-- a move ends -/
  | ended (not_free : s.free = false) (step_eq : t.pos.step = s.pos.stepDst)
      (mm_eq : t.pos.mm = s.pos.mmDst) (mm2step_eq : t.pos.mm2step = s.pos.mm2step)
      (stepDst_eq : t.pos.stepDst = s.pos.stepDst) (mmDst_eq : t.pos.mmDst = s.pos.mmDst)
      (handed_eq : handed = 0) (not_call : call = false)

omit [Field R] [LinearOrder R] [FloorRing R] [Sqrtf R] in
/-- `stepLength` is positive exactly if some axis has a step to make. -/
theorem stepLength_pos_iff (p : StepPosition R) :
    (axes.map fun i => |p.stepOffset i|).sum > 0 ↔ ∃ i, p.stepOffset i ≠ 0 := by
  have hnonneg : ∀ x ∈ axes.map fun i => |p.stepOffset i|, 0 ≤ x := by simp
  constructor
  · intro hpos
    by_contra hnone
    push Not at hnone
    simp [hnone] at hpos
  · rintro ⟨i, hi⟩
    have hmem : |p.stepOffset i| ∈ axes.map fun i => |p.stepOffset i| :=
      List.mem_map_of_mem (List.mem_finRange i)
    exact (abs_pos.mpr hi).trans_le (List.single_le_sum hnonneg _ hmem)

/-- A move is dropped if it has no step on any axis. -/
theorem inputNextPosition_dropped {param : Param R} {p p' : StepPosition R} {mm : Axis → R}
    {relative mask : Axis → Bool} {speed : R} {useAccel : Bool}
    (h : stepPositionInputNextPosition param p mm relative mask speed useAccel = (p', false)) :
    p'.stepDst = p'.step := by
  simp only [stepPositionInputNextPosition, stepLength_pos_iff] at h
  split at h
  · simp at h
  · rename_i hnone
    obtain ⟨rfl, -⟩ := Prod.mk.inj h
    push Not at hnone
    exact funext fun i => sub_eq_zero.mp (hnone i)

/-- The inversion of a step, as far as the position is concerned. -/
theorem step_position {microStep : Axis → ℤ} {s t : Positioner R} {a : MoveAction R}
    (hstep : s.step microStep a = some t) :
    PositionStep s t (a.handed microStep s.pos) a.isCall := by
  cases a with
  | move param mm relative mask speed useAccel =>
      obtain ⟨hfree, rfl⟩ := Option.ite_some_none_eq_some.mp hstep
      have hframe := inputNextPosition_frame { param with microStep := microStep } s.pos mm
        relative mask speed useAccel
      simp only [Positioner.beginMove, MoveAction.handed]
      generalize hinput : stepPositionInputNextPosition { param with microStep := microStep }
        s.pos mm relative mask speed useAccel = r at hframe
      obtain ⟨p', moves⟩ := r
      obtain ⟨-, hpstep, hpmm, hpmm2step, hrounds⟩ := hframe
      cases moves with
      | true =>
          refine .begun hfree hpstep hpmm hpmm2step hrounds (fun hdone => ?_) fun _ => rfl
          -- a motion that is offered keeps the thread busy
          simp only [if_true, Positioner.free, stepBlockInputMotion] at hdone
          split at hdone
          · simp [InputPhase.isIdle] at hdone
          · simp [InputPhase.isIdle] at hdone
      | false =>
          have hdropped := inputNextPosition_dropped hinput
          refine .begun hfree hpstep hpmm hpmm2step hrounds (fun _ => hdropped) fun i => ?_
          show (0 : ℤ) = p'.stepDst i - p'.step i
          rw [hdropped, sub_self]
  | input m =>
      obtain ⟨⟨phase, sb⟩, hmove, rfl⟩ := Option.map_eq_some_iff.mp hstep
      have hbusy : s.phase.isIdle = false := by
        by_contra hidle
        rw [Bool.not_eq_false] at hidle
        rw [InputPhase.eq_idle_of_isIdle hidle] at hmove
        cases m <;> simp [inputMove] at hmove
      refine .kept ?_ rfl rfl rfl rfl rfl rfl rfl
      simp [Positioner.free, hbusy]
  | updateSrc =>
      obtain ⟨hreturning, rfl⟩ := Option.ite_some_none_eq_some.mp hstep
      have hbusy : s.free = false := by simp [Positioner.free, hreturning]
      exact .ended hbusy rfl rfl rfl rfl rfl rfl rfl
  | tick param pins =>
      obtain ⟨-, rfl⟩ := Option.ite_some_none_eq_some.mp hstep
      exact .kept rfl rfl rfl rfl rfl rfl rfl rfl

/-! ## Steps and millimetres -/

omit [FloorRing R] [LinearOrder R] [Sqrtf R] in
/-- The steps of each axis are tied to its millimetres. -/
def StepPosition.Tied (Q : Axis → ℤ → R → Prop) (p : StepPosition R) : Prop :=
  ∀ i, Q i (p.step i) (p.mm2step i * p.mm i)

omit [FloorRing R] [LinearOrder R] [Sqrtf R] in
/-- Between two moves it is the position that is tied, and inside a move the
destination. -/
structure Positioner.Tied (Q : Axis → ℤ → R → Prop) (s : Positioner R) : Prop where
  here : s.free = true → s.pos.Tied Q
  there : s.free = false → ∀ i, Q i (s.pos.stepDst i) (s.pos.mm2step i * s.pos.mmDst i)

/-- Every tie that rounding meets is kept by moves. -/
theorem Positioner.Tied.step {Q : Axis → ℤ → R → Prop} (hQ : ∀ i x, Q i (lround x) x)
    {microStep : Axis → ℤ} {s t : Positioner R} {a : MoveAction R} (h : s.Tied Q)
    (hstep : s.step microStep a = some t) : t.Tied Q := by
  rcases step_position hstep with ⟨hfree, hpstep, hmm, hmm2step, hdst, hmmDst, -, -⟩ |
    ⟨hfree, hpstep, hmm, hmm2step, hrounds, -, -⟩ |
    ⟨hbusy, hpstep, hmm, hmm2step, hdst, hmmDst, -, -⟩
  · refine ⟨fun hdone i => ?_, fun hdone i => ?_⟩
    · rw [hpstep, hmm, hmm2step]
      exact h.here (hfree ▸ hdone) i
    · rw [hdst, hmmDst, hmm2step]
      exact h.there (hfree ▸ hdone) i
  · refine ⟨fun _ i => ?_, fun _ i => ?_⟩
    · rw [hpstep, hmm, hmm2step]
      exact h.here hfree i
    · rw [hrounds i]
      exact hQ i _
  · refine ⟨fun _ i => ?_, fun _ i => ?_⟩
    · rw [hpstep, hmm, hmm2step]
      exact h.there hbusy i
    · rw [hdst, hmmDst, hmm2step]
      exact h.there hbusy i

end

/-! ## The ledger -/

/-- Moves, with the steps that have been handed to the planner and whether there was a
call at all. -/
structure Ledger (R : Type*) where
  mover : Positioner R
  handed : Axis → ℤ
  called : Bool

section

variable {R : Type*} [Field R] [LinearOrder R] [FloorRing R] [Sqrtf R]

omit [Field R] [LinearOrder R] [FloorRing R] [Sqrtf R] in
def Ledger.start (p : StepPosition R) : Ledger R := ⟨⟨p, .idle, false⟩, 0, false⟩

def Ledger.step (microStep : Axis → ℤ) (s : Ledger R) (a : MoveAction R) : Option (Ledger R) :=
  (s.mover.step microStep a).map fun mover =>
    { mover
      handed := s.handed + a.handed microStep s.mover.pos
      called := s.called || a.isCall }

def ledger (microStep : Axis → ℤ) : Machine (Ledger R) (MoveAction R) := ⟨Ledger.step microStep⟩

omit [Sqrtf R] in
/-- After each call the steps are those of the destination in millimetres, and the steps
handed on add up to what has been moved since `start`. -/
structure Ledger.Exact (start : Axis → ℤ) (s : Ledger R) : Prop where
  rounded : s.mover.free = true → s.called = true →
    ∀ i, s.mover.pos.step i = lround (s.mover.pos.mm2step i * s.mover.pos.mmDst i)
  summed : s.mover.free = true → ∀ i, s.handed i = s.mover.pos.step i - start i

omit [Sqrtf R] in
/-- The invariant: inside a move, the destination takes the place of the position. -/
structure Ledger.Inv (start : Axis → ℤ) (s : Ledger R) : Prop extends s.Exact start where
  rounded_there : s.mover.free = false →
    ∀ i, s.mover.pos.stepDst i = lround (s.mover.pos.mm2step i * s.mover.pos.mmDst i)
  summed_there : s.mover.free = false → ∀ i, s.handed i = s.mover.pos.stepDst i - start i

theorem Ledger.Inv.step {start microStep : Axis → ℤ} {s t : Ledger R} {a : MoveAction R}
    (h : s.Inv start) (hstep : s.step microStep a = some t) : t.Inv start := by
  obtain ⟨mover, hmove, rfl⟩ := Option.map_eq_some_iff.mp hstep
  rcases step_position hmove with ⟨hfree, hpstep, -, hmm2step, hdst, hmmDst, hhanded, hcall⟩ |
    ⟨hfree, hpstep, -, -, hrounds, hdropped, hhanded⟩ |
    ⟨hbusy, hpstep, -, hmm2step, hdst, hmmDst, hhanded, hcall⟩
  · refine ⟨⟨fun hdone hcalled i => ?_, fun hdone i => ?_⟩, fun hdone i => ?_, fun hdone i => ?_⟩
    · simp only [hcall, Bool.or_false] at hcalled
      simp only [hpstep, hmmDst, hmm2step]
      exact h.rounded (hfree ▸ hdone) hcalled i
    · simp only [hhanded, add_zero, hpstep]
      exact h.summed (hfree ▸ hdone) i
    · simp only [hdst, hmmDst, hmm2step]
      exact h.rounded_there (hfree ▸ hdone) i
    · simp only [hhanded, add_zero, hdst]
      exact h.summed_there (hfree ▸ hdone) i
  · -- a dropped move hands on nothing, and ends where it begins
    have hsum : ∀ i, s.handed i + a.handed microStep s.mover.pos i =
        mover.pos.stepDst i - start i := by
      intro i
      calc s.handed i + a.handed microStep s.mover.pos i
          = (s.mover.pos.step i - start i) + (mover.pos.stepDst i - mover.pos.step i) := by
            rw [h.summed hfree i, hhanded i]
        _ = mover.pos.stepDst i - start i := by
            rw [hpstep]
            ring
    refine ⟨⟨fun hdone _ i => ?_, fun hdone i => ?_⟩, fun _ i => hrounds i, fun _ i => hsum i⟩
    · show mover.pos.step i = _
      rw [← hdropped hdone]
      exact hrounds i
    · show s.handed i + a.handed microStep s.mover.pos i = mover.pos.step i - start i
      rw [← hdropped hdone]
      exact hsum i
  · refine ⟨⟨fun _ _ i => ?_, fun _ i => ?_⟩, fun _ i => ?_, fun _ i => ?_⟩
    · simp only [hpstep, hmmDst, hmm2step]
      exact h.rounded_there hbusy i
    · simp only [hhanded, add_zero, hpstep]
      exact h.summed_there hbusy i
    · simp only [hdst, hmmDst, hmm2step]
      exact h.rounded_there hbusy i
    · simp only [hhanded, add_zero, hdst]
      exact h.summed_there hbusy i

omit [Field R] [LinearOrder R] [FloorRing R] [Sqrtf R] in
theorem Ledger.start_free (p : StepPosition R) : (Ledger.start p).mover.free = true := rfl

omit [Sqrtf R] in
theorem Ledger.start_inv (p : StepPosition R) : (Ledger.start p).Inv p.step where
  rounded _ hcalled := by simp [Ledger.start] at hcalled
  summed _ i := (sub_self (p.step i)).symm
  rounded_there hbusy := by simp [Ledger.start_free] at hbusy
  summed_there hbusy := by simp [Ledger.start_free] at hbusy

/-- From any position, after any sequence of calls, dropped moves included, with any
interrupts in between, no sub-step remainder is lost or counted twice. -/
theorem no_drift (microStep : Axis → ℤ) (p : StepPosition R) (as : List (MoveAction R)) :
    (ledger microStep).Always (Ledger.Exact p.step) (Ledger.start p) as :=
  Machine.always_of_allSteps (J := Ledger.Inv p.step) (C := fun _ _ => True)
    (fun _ h => h.toExact) (fun _ _ _ h hstep _ => h.step hstep) (Ledger.start_inv p)
    (Machine.allSteps_true _ _)

end

end TdPrinter
