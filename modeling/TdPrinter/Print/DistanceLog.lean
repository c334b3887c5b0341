import Mathlib.Tactic.LinearCombination
import TdPrinter.Motion.Pipeline
import TdPrinter.Position.Positioner

/-!
# The distance log

The printer keeps the total way of its extruding moves in a file.  A move adds its
length to `distanceMoved`; `corePrinter_init` and `corePrinter_start` set that counter to
zero, and `corePrinter_init` and `corePrinter_stop` add it to the total in the file.

So a reset without a log loses what was moved, and a log without a reset counts it again.
`distance_logged_iff` is the exact condition: at each call of `corePrinter_stop` the moves
since the last reset are as long as those since the last call of `corePrinter_stop`.
-/

namespace TdPrinter

/-- The contents of the file of `totalDistance`. -/
inductive DistanceLog (R : Type*)
  | absent
  | nan
  | total (x : R)

/-- A print head, the log, and what has happened. -/
structure Odometer (R : Type*) where
  mover : Positioner R
  /-- `c->totalDistance` -/
  totalDistance : R
  log : DistanceLog R
  /-- the lengths of all extruding moves so far -/
  accepted : R
  /-- those since `distanceMoved` was set to zero -/
  sinceReset : R
  /-- those since `corePrinter_stop` -/
  sinceStop : R
  /-- `corePrinter_stop` was the last thing to happen -/
  stopped : Bool

inductive OdometerAction (R : Type*)
  | run (a : MoveAction R)
  | init (param : Param R)
  | start
  | stop

section

variable {R : Type*} [Field R]

/-- The distance in the file; it counts from zero if there is none. -/
def DistanceLog.value : DistanceLog R → R
  | .absent => 0
  | .nan => 0
  | .total x => x

/-- `logMovedDistance`: the total in memory and in the file.  A new file gets what is in
memory. -/
def logMovedDistance (totalDistance distanceMoved : R) (log : DistanceLog R) :
    R × DistanceLog R :=
  let total :=
    match log with
    | .absent => totalDistance
    | .nan => 0
    | .total x => x
  (total + distanceMoved, .total (total + distanceMoved))

theorem logMovedDistance_value {totalDistance : R} {log : DistanceLog R}
    (habsent : log = .absent → totalDistance = 0) (distanceMoved : R) :
    (logMovedDistance totalDistance distanceMoved log).2.value = log.value + distanceMoved := by
  cases log with
  | absent => simp [logMovedDistance, DistanceLog.value, habsent rfl]
  | nan => simp [logMovedDistance, DistanceLog.value]
  | total x => rfl

end

section

variable {R : Type*} [Field R] [LinearOrder R] [FloorRing R] [Sqrtf R]

/-! ## The calls -/

/-- The length by which a move extrudes: that of its way, if it is accepted and turns the
extruder forward. -/
def extrudedLength (p : StepPosition R) (mm : Axis → R) (relative mask : Axis → Bool) : R :=
  let r := stepPositionGetOffsetLength (stepPositionSetMmDst p mm relative mask)
  if (axes.map fun i => |r.1.stepOffset i|).sum > 0 ∧ r.1.stepOffset 2 > 0 then r.2 else 0

/-- What an action of the G-code thread extrudes. -/
def MoveAction.extruded (p : StepPosition R) : MoveAction R → R
  | .move _ mm relative mask _ _ => extrudedLength p mm relative mask
  | _ => 0

omit [Sqrtf R] in
/-- `stepPosition_init`. -/
def Positioner.reset (s : Positioner R) (param : Param R) : Positioner R where
  pos :=
    { stepPositionInit param with
      mm2step := s.pos.mm2step
      stepDst := s.pos.stepDst
      mmOffset := s.pos.mmOffset }
  phase := .idle
  returning := false

omit [Sqrtf R] in
/-- `stepGCode_stop` deletes the G-code thread, whatever it is doing, and calls
`stepPosition_stop`. -/
def Positioner.stop (s : Positioner R) : Positioner R where
  pos := stepPositionStop s.pos
  phase := .idle
  returning := false

omit [Sqrtf R] in
def Positioner.zeroDistance (s : Positioner R) : Positioner R :=
  { s with pos := { s.pos with distanceMoved := 0 } }

/-- One action; `microStep` stays fixed. -/
def Odometer.step (microStep : Axis → ℤ) (s : Odometer R) :
    OdometerAction R → Option (Odometer R)
  | .run a =>
      (s.mover.step microStep a).map fun mover =>
        { s with
          mover
          accepted := s.accepted + a.extruded s.mover.pos
          sinceReset := s.sinceReset + a.extruded s.mover.pos
          sinceStop := s.sinceStop + a.extruded s.mover.pos
          stopped := false }
  | .init param =>
      let mover := s.mover.reset param
      let logged := logMovedDistance s.totalDistance mover.pos.distanceMoved s.log
      some { s with
        mover, totalDistance := logged.1, log := logged.2, sinceReset := 0, stopped := false }
  | .start => some { s with mover := s.mover.stop.zeroDistance, sinceReset := 0, stopped := false }
  | .stop =>
      let mover := s.mover.stop
      let logged := logMovedDistance s.totalDistance mover.pos.distanceMoved s.log
      some { s with
        mover, totalDistance := logged.1, log := logged.2, sinceStop := 0, stopped := true }

def odometer (microStep : Axis → ℤ) : Machine (Odometer R) (OdometerAction R) :=
  ⟨Odometer.step microStep⟩

omit [Sqrtf R] in
/-- The printer when it is switched on, with what is in the file. -/
def Odometer.boot (param : Param R) (log : DistanceLog R) : Odometer R where
  mover := Positioner.boot param
  totalDistance := 0
  log := log
  accepted := 0
  sinceReset := 0
  sinceStop := 0
  stopped := false

omit [LinearOrder R] [FloorRing R] [Sqrtf R] in
/-- After `corePrinter_stop` the file has got every extruding move once. -/
def Odometer.Logged (log : DistanceLog R) (s : Odometer R) : Prop :=
  s.stopped = true → s.log.value = log.value + s.accepted

omit [Field R] [LinearOrder R] [FloorRing R] [Sqrtf R] in
/-- The condition on a step: a call of `corePrinter_stop` finds as much extruded since
`distanceMoved` was set to zero as since the last such call. -/
def Odometer.LogsOnce (s : Odometer R) : OdometerAction R → Prop
  | .stop => s.sinceReset = s.sinceStop
  | _ => True

/-! ## The counter -/

theorem inputNextPosition_distanceMoved (param : Param R) (p : StepPosition R) (mm : Axis → R)
    (relative mask : Axis → Bool) (speed : R) (useAccel : Bool) :
    (stepPositionInputNextPosition param p mm relative mask speed useAccel).1.distanceMoved =
      p.distanceMoved + extrudedLength p mm relative mask := by
  have hsame : (stepPositionGetOffsetLength
      (stepPositionSetMmDst p mm relative mask)).1.distanceMoved = p.distanceMoved := rfl
  unfold stepPositionInputNextPosition extrudedLength
  by_cases hmoves : (axes.map fun i => |(stepPositionGetOffsetLength
      (stepPositionSetMmDst p mm relative mask)).1.stepOffset i|).sum > 0
  · by_cases hextrudes : (stepPositionGetOffsetLength
        (stepPositionSetMmDst p mm relative mask)).1.stepOffset 2 > 0
    · simp [hmoves, hextrudes, hsame]
    · simp [hmoves, hextrudes, hsame]
  · simp [hmoves, hsame]

/-- The counter counts what the G-code thread extrudes. -/
theorem step_distanceMoved {microStep : Axis → ℤ} {s t : Positioner R} {a : MoveAction R}
    (hstep : s.step microStep a = some t) :
    t.pos.distanceMoved = s.pos.distanceMoved + a.extruded s.pos := by
  cases a with
  | move param mm relative mask speed useAccel =>
      rw [Positioner.step, Option.ite_none_right_eq_some] at hstep
      obtain ⟨_, hstep⟩ := hstep
      obtain rfl := Option.some.inj hstep
      have hcount := inputNextPosition_distanceMoved { param with microStep := microStep } s.pos mm
        relative mask speed useAccel
      rw [MoveAction.extruded, ← hcount, Positioner.beginMove]
      split <;> rfl
  | input m =>
      obtain ⟨r, _, rfl⟩ := Option.map_eq_some_iff.mp hstep
      exact (add_zero _).symm
  | updateSrc =>
      rw [Positioner.step, Option.ite_none_right_eq_some] at hstep
      obtain ⟨_, hstep⟩ := hstep
      obtain rfl := Option.some.inj hstep
      exact (add_zero _).symm
  | tick param pins =>
      rw [Positioner.step, Option.ite_none_right_eq_some] at hstep
      obtain ⟨_, hstep⟩ := hstep
      obtain rfl := Option.some.inj hstep
      exact (add_zero _).symm

/-! ## Runs -/

omit [LinearOrder R] [FloorRing R] [Sqrtf R] in
/-- What holds as long as every call of `corePrinter_stop` logs each move once. -/
structure Odometer.Inv (log : DistanceLog R) (s : Odometer R) : Prop where
  counted : s.mover.pos.distanceMoved = s.sinceReset
  persisted : s.log.value + s.sinceStop = log.value + s.accepted
  absent : s.log = .absent → s.totalDistance = 0
  logged : s.Logged log

omit [LinearOrder R] [FloorRing R] [Sqrtf R] in
theorem boot_odometerInv (param : Param R) (log : DistanceLog R) :
    (Odometer.boot param log).Inv log :=
  ⟨rfl, rfl, fun _ => rfl, fun h => by simp [Odometer.boot] at h⟩

omit [LinearOrder R] [FloorRing R] [Sqrtf R] in
theorem stop_distanceMoved (s : Positioner R) : s.stop.pos.distanceMoved = s.pos.distanceMoved :=
  rfl

/-- The call of `corePrinter_stop` adds to the file what was extruded since the last
reset. -/
theorem stop_log {microStep : Axis → ℤ} {log : DistanceLog R} {s t : Odometer R}
    (h : s.Inv log) (hstep : s.step microStep .stop = some t) :
    t.log.value = log.value + s.accepted - s.sinceStop + s.sinceReset := by
  obtain rfl := Option.some.inj hstep
  have hlog := logMovedDistance_value h.absent s.mover.stop.pos.distanceMoved
  rw [stop_distanceMoved, h.counted] at hlog
  have hpersisted := h.persisted
  calc _ = s.log.value + s.sinceReset := by
        rw [← hlog, ← h.counted]
        rfl
    _ = log.value + s.accepted - s.sinceStop + s.sinceReset := by
        linear_combination hpersisted

theorem odometer_keeps {microStep : Axis → ℤ} {log : DistanceLog R} {s t : Odometer R}
    {a : OdometerAction R} (h : s.Inv log) (hstep : s.step microStep a = some t)
    (hC : s.LogsOnce a) : t.Inv log := by
  cases a with
  | run a =>
      obtain ⟨mover, hmover, rfl⟩ := Option.map_eq_some_iff.mp hstep
      refine ⟨?_, ?_, h.absent, fun hstopped => by simp at hstopped⟩
      · rw [step_distanceMoved hmover, h.counted]
      · have hpersisted := h.persisted
        change s.log.value + (s.sinceStop + _) = log.value + (s.accepted + _)
        linear_combination hpersisted
  | init param =>
      obtain rfl := Option.some.inj hstep
      have hlog := logMovedDistance_value h.absent (s.mover.reset param).pos.distanceMoved
      have hzero : (s.mover.reset param).pos.distanceMoved = 0 := rfl
      refine ⟨rfl, ?_, fun habsent => ?_, fun hstopped => by simp at hstopped⟩
      · rw [hzero, add_zero] at hlog
        rw [← h.persisted, ← hlog]
        rfl
      · simp [logMovedDistance] at habsent
  | start =>
      obtain rfl := Option.some.inj hstep
      exact ⟨rfl, h.persisted, h.absent, fun hstopped => by simp at hstopped⟩
  | stop =>
      have hlog := stop_log h hstep
      obtain rfl := Option.some.inj hstep
      have hvalue : log.value + s.accepted - s.sinceStop + s.sinceReset =
          log.value + s.accepted := by
        have hsame : s.sinceReset = s.sinceStop := hC
        rw [hsame, sub_add_cancel]
      refine ⟨h.counted, ?_, fun habsent => ?_, fun _ => hlog.trans hvalue⟩
      · rw [hlog, hvalue]
        exact add_zero _
      · simp [logMovedDistance] at habsent

theorem odometer_breaks {microStep : Axis → ℤ} {log : DistanceLog R} {s t : Odometer R}
    {a : OdometerAction R} (h : s.Inv log) (hstep : s.step microStep a = some t)
    (hC : ¬ s.LogsOnce a) : ¬ t.Logged log := by
  cases a with
  | stop =>
      intro hlogged
      have hlog := stop_log h hstep
      obtain rfl := Option.some.inj hstep
      have hvalue := hlog.symm.trans (hlogged rfl)
      apply hC
      change s.sinceReset = s.sinceStop
      change log.value + s.accepted - s.sinceStop + s.sinceReset = log.value + s.accepted at hvalue
      linear_combination hvalue
  | run a => exact absurd trivial hC
  | init param => exact absurd trivial hC
  | start => exact absurd trivial hC

/-- Every call of `corePrinter_stop` leaves in the file the initial distance and each
extruding move once if and only if each of them logs what was moved since the last one. -/
theorem distance_logged_iff (microStep : Axis → ℤ) (param : Param R) (log : DistanceLog R)
    (as : List (OdometerAction R)) :
    (odometer microStep).Always (Odometer.Logged log) (Odometer.boot param log) as ↔
      (odometer microStep).AllSteps Odometer.LogsOnce (Odometer.boot param log) as :=
  Machine.always_iff_allSteps (J := Odometer.Inv log) (fun _ h => h.logged)
    (fun _ _ _ h hstep hC => odometer_keeps h hstep hC)
    (fun _ _ _ h hstep hC => odometer_breaks h hstep hC) (boot_odometerInv param log) as

end

/-! ## A button pressed twice -/

/-- A print that extrudes 0.01 mm, and two calls of `corePrinter_stop`. -/
def stoppedTwice : List (OdometerAction ℚ) :=
  [.init sampleParam, .start,
    .run (.move sampleParam (fun _ => 1 / 100) (fun _ => false) (fun i => i = 2) 1 false),
    .stop, .stop]

/-- The move has been counted twice. -/
theorem stoppedTwice_counts_again :
    ¬ (odometer fun _ => 16).Always (Odometer.Logged (.total 5))
      (Odometer.boot sampleParam (.total 5)) stoppedTwice := by
  intro halways
  have hexec : ((odometer fun _ => 16).exec (Odometer.boot sampleParam (.total 5))
      stoppedTwice).map (fun t => (t.stopped, t.log.value, t.accepted)) =
      some (true, 502 / 100, 1 / 100) := by
    decide +kernel
  obtain ⟨t, ht, hobserved⟩ := Option.map_eq_some_iff.mp hexec
  simp only [Prod.mk.injEq] at hobserved
  obtain ⟨hstopped, hvalue, haccepted⟩ := hobserved
  have hlogged := halways.exec ht hstopped
  rw [hvalue, haccepted] at hlogged
  exact absurd hlogged (by decide +kernel)

end TdPrinter
