import TdPrinter.Position.Bookkeeping

/-!
# End switches and homing

G28 switches the end switches on, makes its move, waits until the motion queue is
idle and switches them off again.  It switches them on first, while motions of
earlier G0 and G1 commands may still be queued or half executed; the commands that
only wait (M1, M2, M18) do so before they touch anything.

`issued` is the motion queue again, with the command each motion came from;
`executed` records for every finished motion the steps it has made.  `G0G1Complete`
says that no motion of a G0 or G1 has been cut short.  By `g0g1_complete_iff` this
holds exactly if, whenever such a motion is the current one, no interrupt finds the
switches enabled and the one in front of an unfinished axis pressed.
-/

namespace TdPrinter

/-- A motion and the kind of command it was made by. -/
structure Issue where
  homing : Bool
  command : Command

/-- A finished motion and the steps made. -/
structure Executed where
  issue : Issue
  done : Axis → ℤ

/-- Where the G-code thread is in a G28. -/
inductive HomingStage (R : Type*)
  /-- no G28 is running -/
  | off
  /-- `enableTrigger` has been set -/
  | enabled (param : Param R) (mm : Axis → R) (relative mask : Axis → Bool) (speed : R)
  /-- in `stepPosition_inputNextPosition` -/
  | moving
  /-- in front of `stepBlock_waitForIdle` -/
  | waiting
  /-- suspended in `stepBlock_waitForIdle` -/
  | asleep

/-- The G-code thread with its position, and what has become of its motions. -/
structure HomingThread (R : Type*) extends Positioner R where
  stage : HomingStage R
  /-- the queued motions, oldest first -/
  issued : List Issue
  /-- the motion being executed -/
  current : Option Issue
  executed : List Executed

inductive HomingAction (R : Type*)
  /-- G0 or G1 -/
  | move (param : Param R) (mm : Axis → R) (relative mask : Axis → Bool) (speed : R)
      (useAccel : Bool)
  /-- G28 -/
  | home (param : Param R) (mm : Axis → R) (relative mask : Axis → Bool) (speed : R)
  | homeMove
  | input (m : InputMove R)
  | updateSrc
  | homeWait
  | homeWake
  | tick (param : Param R) (pins : TriggerPins)

section

variable {R : Type*}

def HomingStage.isOff : HomingStage R → Bool
  | .off => true
  | _ => false

/-- The bookkeeping of a load, seen in `tail`. -/
def HomingThread.trackLoad (s : HomingThread R) (sb : StepBlock R) : HomingThread R :=
  if sb.tail = s.pos.sb.tail then { s with pos := s.pos.withSb sb }
  else
    { s with
      pos := s.pos.withSb sb
      current := s.issued.head?
      issued := s.issued.tail }

/-- The current motion is over, with the steps `done`. -/
def HomingThread.finish (s : HomingThread R) (done : Axis → ℤ) : HomingThread R :=
  { s with
    current := none
    executed := s.executed ++ s.current.toList.map fun issue => ⟨issue, done⟩ }

/-- `enableTrigger` set to `on`. -/
def HomingThread.setTrigger (s : HomingThread R) (on : Bool) : HomingThread R :=
  { s with
    pos := s.pos.withSb
      { s.pos.sb with stepAxis := { s.pos.sb.stepAxis with enableTrigger := on } } }

end

section

variable {R : Type*} [Field R] [LinearOrder R] [FloorRing R] [Sqrtf R]

/-- `stepPosition_inputNextPosition` up to the first piece of `stepBlock_inputMotion`;
a way without steps ends at once, in `stage`. -/
def HomingThread.beginMove (s : HomingThread R) (param : Param R) (mm : Axis → R)
    (relative mask : Axis → Bool) (speed : R) (useAccel : Bool) (stage : HomingStage R) :
    HomingThread R :=
  let r := s.toPositioner.beginMove param mm relative mask speed useAccel
  { s with toPositioner := r.1, stage := if r.2 then s.stage else stage }

def HomingThread.step (s : HomingThread R) : HomingAction R → Option (HomingThread R)
  | .move param mm relative mask speed useAccel =>
      if s.free && s.stage.isOff then
        some (s.beginMove param mm relative mask speed useAccel .off)
      else none
  | .home param mm relative mask speed =>
      if s.free && s.stage.isOff then
        some { s.setTrigger true with stage := .enabled param mm relative mask speed }
      else none
  | .homeMove =>
      match s.stage with
      | .enabled param mm relative mask speed =>
          some ({ s with stage := .moving }.beginMove param mm relative mask speed true .waiting)
      | _ => none
  | .input m =>
      (inputMove s.phase s.pos.sb m).map fun r =>
        let t := s.trackLoad r.2
        let issued :=
          match r.1 with
          | .inserted block => t.issued ++ [⟨!s.stage.isOff, block.toCommand⟩]
          | _ => t.issued
        { t with phase := r.1, returning := r.1.isIdle, issued := issued }
  | .updateSrc =>
      if s.returning then
        some { s with
          pos := stepPositionUpdateSrc s.pos
          returning := false
          stage := if s.stage.isOff then .off else .waiting }
      else none
  | .homeWait =>
      match s.stage with
      | .waiting =>
          let r := stepBlockWaitForIdle s.pos.sb .gcodeThread
          let t := { s with pos := s.pos.withSb r.1 }
          match r.2 with
          | some .eok => some { t.setTrigger false with stage := .off }
          | some _ => some t
          | none => some { t with stage := .asleep }
      | _ => none
  | .homeWake =>
      match s.stage with
      | .asleep =>
          (rtEventResume s.pos.sb.event .gcodeThread).map fun r =>
            let t := { s with pos := s.pos.withSb { s.pos.sb with event := r.2 } }
            match r.1 with
            | .eok => { t.setTrigger false with stage := .off }
            | _ => { t with stage := .waiting }
      | _ => none
  | .tick param pins =>
      if s.pos.sb.timer.enabled then
        let after := stepBlockExecute param pins s.pos.sb
        let sb := stepBlockISR param pins s.pos.sb
        if stepBlockIsBusy after then some { s with pos := s.pos.withSb sb }
        else some ((s.finish after.stepAxis.step).trackLoad sb)
      else none

variable (R) in
def homing : Machine (HomingThread R) (HomingAction R) := ⟨HomingThread.step⟩

omit [Sqrtf R] in
def HomingThread.boot (param : Param R) : HomingThread R where
  toPositioner := Positioner.boot param
  stage := .off
  issued := []
  current := none
  executed := []

end

/-! ## The law and its condition -/

section

variable {R : Type*}

/-- No motion of a G0 or G1 has been cut short: the finished ones have made all their
steps, and in the current one only axes that have made theirs have stopped. -/
structure HomingThread.G0G1Complete (s : HomingThread R) : Prop where
  executed_all : ∀ e ∈ s.executed, e.issue.homing = false → e.done = e.issue.command.steps
  current_all : ∀ issue, s.current = some issue → issue.homing = false → ∀ i,
    s.pos.sb.stepAxis.busyFlag i = false →
      s.pos.sb.stepAxis.step i = issue.command.steps i

/-- The condition on a step: no interrupt in a motion of a G0 or G1 finds the
switches enabled and the one in front of an unfinished axis pressed. -/
def HomingThread.Clear (s : HomingThread R) : HomingAction R → Prop
  | .tick _ pins => ∀ issue, s.current = some issue → issue.homing = false →
      ¬ s.pos.sb.stepAxis.Trips pins
  | _ => True

structure HomingThread.Tracked (s : HomingThread R) : Prop where
  phase_inv : s.phase.Inv s.pos.sb
  tallied : s.pos.sb.Tallied
  nonneg : s.phase.Nonneg
  issued_eq : s.pos.sb.pending = s.issued.map fun issue => issue.command
  need_eq : ∀ issue, s.current = some issue →
    s.pos.sb.stepAxis.stepNeed = issue.command.steps

structure HomingThread.Inv (s : HomingThread R) : Prop where
  tracked : s.Tracked
  law : s.G0G1Complete

/-- The frame rule: a step that leaves the step counts, the queued commands and the
record alone only has to keep the phase in order. -/
theorem HomingThread.Inv.frame {s t : HomingThread R} (h : s.Inv)
    (hphase : t.phase.Inv t.pos.sb) (hnonneg : t.phase.Nonneg)
    (hbusy : t.pos.sb.stepAxis.busyFlag = s.pos.sb.stepAxis.busyFlag)
    (hstep : t.pos.sb.stepAxis.step = s.pos.sb.stepAxis.step)
    (hneed : t.pos.sb.stepAxis.stepNeed = s.pos.sb.stepAxis.stepNeed)
    (hpending : t.pos.sb.pending = s.pos.sb.pending) (hissued : t.issued = s.issued)
    (hcurrent : t.current = s.current) (hexecuted : t.executed = s.executed) : t.Inv where
  tracked := by
    obtain ⟨hbusyNeed, hstepLe⟩ := h.tracked.tallied.counted
    refine ⟨hphase, ⟨⟨?_, ?_⟩, ?_⟩, hnonneg, ?_, ?_⟩
    · rw [hbusy, hneed]
      exact hbusyNeed
    · rw [hstep, hneed]
      exact hstepLe
    · rw [hpending]
      exact h.tracked.tallied.queued_nonneg
    · rw [hpending, hissued]
      exact h.tracked.issued_eq
    · rw [hcurrent, hneed]
      exact h.tracked.need_eq
  law := by
    refine ⟨?_, ?_⟩
    · rw [hexecuted]
      exact h.law.executed_all
    · rw [hcurrent, hbusy, hstep]
      exact h.law.current_all

/-- With the counts of the current motion complete, so is the record of it. -/
theorem HomingThread.Tracked.current_all {s : HomingThread R} (h : s.Tracked)
    (hcomplete : ∀ issue, s.current = some issue → issue.homing = false →
      s.pos.sb.stepAxis.Complete) :
    ∀ issue, s.current = some issue → issue.homing = false → ∀ i,
      s.pos.sb.stepAxis.busyFlag i = false →
        s.pos.sb.stepAxis.step i = issue.command.steps i := by
  intro issue hcurrent hmove i hclear
  rw [hcomplete issue hcurrent hmove i hclear, h.need_eq issue hcurrent]

theorem HomingThread.Inv.complete {s : HomingThread R} (h : s.Inv) {issue : Issue}
    (hcurrent : s.current = some issue) (hmove : issue.homing = false) :
    s.pos.sb.stepAxis.Complete := by
  intro i hclear
  rw [h.law.current_all issue hcurrent hmove i hclear, ← h.tracked.need_eq issue hcurrent]

/-! ## Changes outside the record -/

/-- Writing `enableTrigger` concerns neither counts nor queue. -/
theorem HomingThread.Inv.setTrigger {s : HomingThread R} (h : s.Inv) (on : Bool)
    (stage : HomingStage R) : HomingThread.Inv { s.setTrigger on with stage := stage } :=
  h.frame ⟨h.tracked.phase_inv.sound.withStepAxis _, h.tracked.phase_inv.room⟩ h.tracked.nonneg
    rfl rfl rfl rfl rfl rfl rfl

theorem HomingThread.Inv.withStage {s : HomingThread R} (h : s.Inv) (stage : HomingStage R) :
    HomingThread.Inv { s with stage := stage } :=
  h.frame h.tracked.phase_inv h.tracked.nonneg rfl rfl rfl rfl rfl rfl rfl

theorem HomingThread.Inv.withEvent {s : HomingThread R} (h : s.Inv)
    {e : Event Thread StepEvent} (he : StepBlock.Sound { s.pos.sb with event := e }) :
    HomingThread.Inv { s with pos := s.pos.withSb { s.pos.sb with event := e } } :=
  h.frame ⟨he, h.tracked.phase_inv.room⟩ h.tracked.nonneg rfl rfl rfl rfl rfl rfl rfl

end

/-! ## Loading -/

section

variable {R : Type*}

theorem HomingThread.trackLoad_same {s : HomingThread R} {sb : StepBlock R}
    (htail : sb.tail = s.pos.sb.tail) : s.trackLoad sb = { s with pos := s.pos.withSb sb } := by
  rw [HomingThread.trackLoad, if_pos htail]

/-- The end of a motion that has made its steps, or that a G28 has made. -/
theorem HomingThread.Inv.finish_executed {s : HomingThread R} (h : s.Inv) {done : Axis → ℤ}
    (hdone : ∀ issue, s.current = some issue → issue.homing = false →
      done = issue.command.steps) :
    ∀ e ∈ (s.finish done).executed, e.issue.homing = false → e.done = e.issue.command.steps := by
  intro e he hmove
  rcases List.mem_append.mp he with he | he
  · exact h.law.executed_all e he hmove
  · obtain ⟨issue, hcurrent, rfl⟩ := List.mem_map.mp he
    exact hdone issue (Option.mem_toList.mp hcurrent) hmove

end

section

variable {R : Type*} [Field R] [LinearOrder R] [FloorRing R]

omit [LinearOrder R] [FloorRing R] in
theorem HomingThread.boot_inv (param : Param R) : (HomingThread.boot param).Inv where
  tracked :=
    ⟨⟨init_sound, fun _ h => by simp [HomingThread.boot, Positioner.boot] at h⟩, init_tallied,
      fun _ h => by simp [HomingThread.boot, Positioner.boot, InputPhase.waiting] at h, rfl,
      fun _ h => by simp [HomingThread.boot] at h⟩
  law := ⟨fun _ h => by simp [HomingThread.boot] at h, fun _ h => by simp [HomingThread.boot] at h⟩

theorem HomingThread.trackLoad_loads {s : HomingThread R} {sb sb' : StepBlock R}
    {line : MotionLine R} {rest : List (MotionLine R)} (hload : Loads sb sb' line rest)
    (htail : sb.tail = s.pos.sb.tail)
    (hpending : sb.pending = s.issued.map fun issue => issue.command) :
    ∃ issue issued, issue.command = line.toCommand ∧
      sb'.pending = issued.map (fun issue => issue.command) ∧
      s.trackLoad sb' =
        { s with pos := s.pos.withSb sb', current := some issue, issued := issued } := by
  rw [hload.pending_before] at hpending
  cases hissued : s.issued with
  | nil => simp [hissued] at hpending
  | cons issue issued =>
      rw [hissued, List.map_cons] at hpending
      obtain ⟨hline, hrest⟩ := List.cons.inj hpending
      refine ⟨issue, issued, hline.symm, hrest, ?_⟩
      rw [HomingThread.trackLoad, if_neg (by rw [← htail]; exact hload.tail_ne), hissued]
      rfl

/-- A motion that has just been loaded asks for the steps of its command, and no axis
has stopped short. -/
theorem Loads.fresh {sb sb' : StepBlock R} {line : MotionLine R} {rest : List (MotionLine R)}
    (hload : Loads sb sb' line rest) (htally : sb.Tallied) :
    sb'.stepAxis.stepNeed = line.steps ∧ sb'.stepAxis.Complete := by
  have hnonneg := htally.queued_nonneg
  rw [hload.pending_before] at hnonneg
  obtain ⟨advance, haxis⟩ := hload.stepAxis_eq
  rw [haxis]
  exact ⟨rfl, reload_complete sb.stepAxis line.masterStep line.dir
    (hnonneg _ List.mem_cons_self)⟩

/-- With a motion just loaded, and its record taken along, only the finished ones
count. -/
theorem HomingThread.Inv.of_load {s : HomingThread R} {sb : StepBlock R} {line : MotionLine R}
    {rest : List (MotionLine R)} (hload : Loads sb s.pos.sb line rest) (htally : sb.Tallied)
    (hphase : s.phase.Inv s.pos.sb) (htallied : s.pos.sb.Tallied) (hnonneg : s.phase.Nonneg)
    {issue : Issue} (hcurrent : s.current = some issue) (hline : issue.command = line.toCommand)
    (hissued : s.pos.sb.pending = s.issued.map fun issue => issue.command)
    (hexecuted : ∀ e ∈ s.executed, e.issue.homing = false → e.done = e.issue.command.steps) :
    s.Inv := by
  obtain ⟨hneed, hcomplete⟩ := hload.fresh htally
  have htracked : s.Tracked := by
    refine ⟨hphase, htallied, hnonneg, hissued, ?_⟩
    intro issue' hcurrent'
    obtain rfl := Option.some.inj (hcurrent.symm.trans hcurrent')
    rw [hline]
    exact hneed
  exact ⟨htracked, hexecuted, htracked.current_all fun _ _ _ => hcomplete⟩

end

section

variable {R : Type*} [Field R] [LinearOrder R] [FloorRing R] [Sqrtf R]

/-! ## The pieces of a move -/

/-- The beginning of a move changes neither counts nor queue. -/
theorem HomingThread.Inv.beginMove {s : HomingThread R} (h : s.Inv) (param : Param R)
    (mm : Axis → R) (relative mask : Axis → Bool) (speed : R) (useAccel : Bool)
    (stage : HomingStage R) :
    (s.beginMove param mm relative mask speed useAccel stage).Inv := by
  have hbegins := beginMove_spec h.tracked.phase_inv param mm relative mask speed useAccel
  obtain ⟨hinv, ⟨e, he, -⟩, -, -, hstill, hmoving⟩ := hbegins
  refine h.frame hinv ?_ ?_ ?_ ?_ ?_ rfl rfl rfl
  · intro block hblock
    change (s.toPositioner.beginMove _ _ _ _ _ _).1.phase.waiting = some block at hblock
    cases hmoves : (s.toPositioner.beginMove param mm relative mask speed useAccel).2 with
    | true =>
        obtain ⟨block', hwaiting, hnonneg, -⟩ := hmoving hmoves
        obtain rfl := Option.some.inj (hwaiting.symm.trans hblock)
        exact hnonneg
    | false =>
        rw [hstill hmoves] at hblock
        exact h.tracked.nonneg block hblock
  all_goals simp only [HomingThread.beginMove, he]
  rfl

theorem HomingThread.Inv.input {s t : HomingThread R} {m : InputMove R} (h : s.Inv)
    (hstep : s.step (.input m) = some t) : t.Inv := by
  simp only [HomingThread.step, Option.map_eq_some_iff] at hstep
  obtain ⟨⟨phase', sb'⟩, hmove, rfl⟩ := hstep
  obtain ⟨hphase, htallied, hnonneg, hissued, hneed⟩ := h.tracked
  obtain ⟨htallied', hnonneg'⟩ := move_tallied hphase htallied hnonneg hmove
  obtain ⟨hphase', hwaits | ⟨block, hready, rfl, hroom, rfl⟩ | ⟨block, hinserted, rfl, rfl⟩ |
    ⟨param, hplanned, rfl, rfl⟩⟩ := inputMove_cases hphase hmove
  · have hne : phase'.waiting ≠ none := by
      rw [hwaits.waiting_eq]
      exact hwaits.waiting_ne
    obtain ⟨e, rfl⟩ := hwaits.same
    have htrack : s.trackLoad { s.pos.sb with event := e } = _ := HomingThread.trackLoad_same rfl
    simp only [htrack]
    refine h.frame hphase' hnonneg' rfl rfl rfl rfl ?_ rfl rfl
    cases phase' with
    | inserted block => simp [InputPhase.waiting] at hne
    | _ => rfl
  · have htrack : s.trackLoad (stepBlockInsert s.pos.sb block) = _ :=
      HomingThread.trackLoad_same rfl
    simp only [htrack]
    refine ⟨⟨hphase', htallied', hnonneg', ?_, hneed⟩, ⟨h.law.executed_all, h.law.current_all⟩⟩
    show (stepBlockInsert s.pos.sb block).pending = _
    rw [insert_pending hphase.sound hroom, hissued]
    simp
  · obtain ⟨buf, hbuf⟩ := replan_frame s.pos.sb block
    have haxis : (stepBlockReplan s.pos.sb block).stepAxis = s.pos.sb.stepAxis := by rw [hbuf]
    have htrack : s.trackLoad (stepBlockReplan s.pos.sb block) = _ :=
      HomingThread.trackLoad_same (by rw [hbuf])
    simp only [htrack]
    refine h.frame hphase' hnonneg' ?_ ?_ ?_ (replan_pending hphase.sound block) rfl rfl rfl
    · exact congrArg StepAxis.busyFlag haxis
    · exact congrArg StepAxis.step haxis
    · exact congrArg StepAxis.stepNeed haxis
  · obtain ⟨-, ⟨-, hsame⟩ | ⟨-, line, rest, hload⟩ | ⟨-, -, hlost⟩⟩ :=
      idleTest_cases param hphase.sound
    · have htrack : s.trackLoad s.pos.sb = _ := HomingThread.trackLoad_same rfl
      simp only [hsame, htrack] at hphase' ⊢
      exact h.frame hphase' hnonneg' rfl rfl rfl rfl rfl rfl rfl
    · obtain ⟨issue, issued, hline, hrest, htrack⟩ := HomingThread.trackLoad_loads hload rfl hissued
      simp only [htrack]
      exact .of_load hload htallied hphase' htallied' hnonneg' rfl hline hrest h.law.executed_all
    · have htrack : s.trackLoad (stepBlockIdleTest param s.pos.sb) = _ :=
        HomingThread.trackLoad_same (by rw [hlost])
      simp only [htrack]
      simp only [hlost] at hphase' ⊢
      exact h.frame hphase' hnonneg' rfl rfl rfl rfl rfl rfl rfl

/-! ## The interrupt -/

/-- An interrupt that meets the condition keeps the law. -/
theorem HomingThread.Inv.tick {s t : HomingThread R} {param : Param R} {pins : TriggerPins}
    (h : s.Inv) (hstep : s.step (.tick param pins) = some t)
    (hclear : s.Clear (.tick param pins)) : t.Inv := by
  simp only [HomingThread.step] at hstep
  split at hstep
  · rename_i htimer
    obtain ⟨hphase, htallied, hnonneg, hissued, hneed⟩ := h.tracked
    have hphase' := hphase.isr htimer param pins
    have htallied' := htallied.isr hphase.sound htimer param pins
    have hexecNeed := execute_stepNeed param pins s.pos.sb
    have hexecPending := execute_pending param pins s.pos.sb
    have hexecTail := execute_tail param pins s.pos.sb
    have hcomplete : ∀ issue, s.current = some issue → issue.homing = false →
        (stepBlockExecute param pins s.pos.sb).stepAxis.Complete :=
      fun issue hcurrent hmove => (execute_complete_iff htallied (h.complete hcurrent hmove) param
        pins).mpr (hclear issue hcurrent hmove)
    obtain ⟨-, ⟨hbusy, heq⟩ | ⟨hdone, hcases⟩⟩ := isr_cases param pins hphase.sound htimer
    · rw [if_pos hbusy] at hstep
      obtain rfl := Option.some.inj hstep
      simp only [heq] at hphase' htallied' ⊢
      have htracked : HomingThread.Tracked
          { s with pos := s.pos.withSb (stepBlockExecute param pins s.pos.sb) } :=
        ⟨hphase', htallied', hnonneg, hexecPending.trans hissued,
          fun issue hcurrent => hexecNeed.trans (hneed issue hcurrent)⟩
      exact ⟨htracked, h.law.executed_all, htracked.current_all hcomplete⟩
    · rw [if_neg (by rw [hdone]; exact Bool.false_ne_true)] at hstep
      obtain rfl := Option.some.inj hstep
      have hexecuted :
          ∀ e ∈ (s.finish (stepBlockExecute param pins s.pos.sb).stepAxis.step).executed,
            e.issue.homing = false → e.done = e.issue.command.steps := by
        refine h.finish_executed ?_
        -- with no axis busy, the counts are those of the command
        intro issue hcurrent hmove
        funext i
        rw [hcomplete issue hcurrent hmove i (isBusy_eq_false_iff.mp hdone i), hexecNeed,
          hneed issue hcurrent]
      rcases hcases with ⟨line, rest, hload⟩ | hstop
      · obtain ⟨issue, issued, hline, hrest, htrack⟩ := HomingThread.trackLoad_loads
          (s := s.finish _) hload hexecTail (hexecPending.trans hissued)
        rw [htrack]
        exact .of_load hload (htallied.execute param pins) hphase' htallied' hnonneg rfl hline
          hrest hexecuted
      · rw [HomingThread.trackLoad_same (s := s.finish _) (hstop.tail_eq.trans hexecTail)]
        have hpending : (stepBlockISR param pins s.pos.sb).pending =
            (stepBlockExecute param pins s.pos.sb).pending := by
          simp only [StepBlock.pending, hstop.queue_after, hstop.queue_before]
        refine ⟨⟨hphase', htallied', hnonneg, hpending.trans (hexecPending.trans hissued), ?_⟩,
          hexecuted, ?_⟩
        · intro _ hcurrent
          simp [HomingThread.finish] at hcurrent
        · intro _ hcurrent
          simp [HomingThread.finish] at hcurrent
  · simp at hstep

/-- An interrupt that misses the condition cuts the current motion short. -/
theorem HomingThread.Inv.broken {s t : HomingThread R} {a : HomingAction R} (h : s.Inv)
    (hstep : s.step a = some t) (hmiss : ¬ s.Clear a) : ¬ t.G0G1Complete := by
  cases a with
  | tick param pins =>
      simp only [HomingThread.Clear, not_forall, not_not] at hmiss
      obtain ⟨issue, hcurrent, hmove, htrips⟩ := hmiss
      simp only [HomingThread.step] at hstep
      split at hstep
      · rename_i htimer
        have hexecNeed := execute_stepNeed param pins s.pos.sb
        have hneed := hexecNeed.trans (h.tracked.need_eq issue hcurrent)
        -- some axis is stopped with steps left
        have hshort : ∃ i, (stepBlockExecute param pins s.pos.sb).stepAxis.busyFlag i = false ∧
            (stepBlockExecute param pins s.pos.sb).stepAxis.step i ≠ issue.command.steps i := by
          have hnot := mt (execute_complete_iff h.tracked.tallied (h.complete hcurrent hmove) param
            pins).mp (not_not.mpr htrips)
          simp only [StepAxis.Complete, not_forall] at hnot
          obtain ⟨i, hclear, hne⟩ := hnot
          rw [hneed] at hne
          exact ⟨i, hclear, hne⟩
        obtain ⟨i, hclear, hne⟩ := hshort
        intro hlaw
        cases hbusy : stepBlockIsBusy (stepBlockExecute param pins s.pos.sb) with
        | true =>
            rw [hbusy, if_pos rfl] at hstep
            obtain rfl := Option.some.inj hstep
            have heq : stepBlockISR param pins s.pos.sb =
                stepBlockExecute param pins s.pos.sb := by simp [stepBlockISR, hbusy]
            simp only [heq] at hlaw
            exact hne (hlaw.current_all issue hcurrent hmove i hclear)
        | false =>
            rw [hbusy, if_neg Bool.false_ne_true] at hstep
            obtain rfl := Option.some.inj hstep
            have hmem : ⟨issue, (stepBlockExecute param pins s.pos.sb).stepAxis.step⟩ ∈
                ((s.finish (stepBlockExecute param pins s.pos.sb).stepAxis.step).trackLoad
                  (stepBlockISR param pins s.pos.sb)).executed := by
              unfold HomingThread.trackLoad
              split <;> simp [HomingThread.finish, hcurrent]
            have hall := hlaw.executed_all _ hmem hmove
            exact hne (congrFun hall i)
      · simp at hstep
  | _ => exact absurd trivial hmiss

theorem HomingThread.Inv.homeWait {s t : HomingThread R} (h : s.Inv)
    (hstep : s.step .homeWait = some t) : t.Inv := by
  simp only [HomingThread.step] at hstep
  split at hstep
  · have hwaited := h.withEvent (h.tracked.phase_inv.sound.waitForIdle .gcodeThread)
    split at hstep
    · obtain rfl := Option.some.inj hstep
      exact hwaited.setTrigger false .off
    · obtain rfl := Option.some.inj hstep
      exact hwaited
    · obtain rfl := Option.some.inj hstep
      exact hwaited.withStage .asleep
  · simp at hstep

/-- The receive of a G28 returns; after an error it is repeated. -/
theorem HomingThread.Inv.homeWake {s t : HomingThread R} (h : s.Inv)
    (hstep : s.step .homeWake = some t) : t.Inv := by
  simp only [HomingThread.step] at hstep
  split at hstep
  · obtain ⟨⟨err, e⟩, hresume, rfl⟩ := Option.map_eq_some_iff.mp hstep
    obtain ⟨-, rfl⟩ := resume_spec hresume
    have hsound := h.tracked.phase_inv.sound
    have hwoken := h.withEvent (hsound.withEvent (e := { s.pos.sb.event with
      resumed := s.pos.sb.event.resumed.erase (.gcodeThread, err) }) id hsound.unclaimed)
    cases err with
    | eok => exact hwoken.setTrigger false .off
    | error => exact hwoken.withStage .waiting
    | etimeout => exact hwoken.withStage .waiting
  · simp at hstep

/-- Every step that meets the condition keeps the law. -/
theorem HomingThread.Inv.step {s t : HomingThread R} {a : HomingAction R} (h : s.Inv)
    (hstep : s.step a = some t) (hclear : s.Clear a) : t.Inv := by
  cases a with
  | move param mm relative mask speed useAccel =>
      obtain ⟨-, rfl⟩ := Option.ite_some_none_eq_some.mp hstep
      exact h.beginMove param mm relative mask speed useAccel .off
  | home param mm relative mask speed =>
      obtain ⟨-, rfl⟩ := Option.ite_some_none_eq_some.mp hstep
      exact h.setTrigger true _
  | homeMove =>
      simp only [HomingThread.step] at hstep
      split at hstep
      · rename_i param mm relative mask speed _
        obtain rfl := Option.some.inj hstep
        exact (h.withStage .moving).beginMove param mm relative mask speed true .waiting
      · simp at hstep
  | input m => exact h.input hstep
  | updateSrc =>
      obtain ⟨-, rfl⟩ := Option.ite_some_none_eq_some.mp hstep
      exact h.frame h.tracked.phase_inv h.tracked.nonneg rfl rfl rfl rfl rfl rfl rfl
  | homeWait => exact h.homeWait hstep
  | homeWake => exact h.homeWake hstep
  | tick param pins => exact h.tick hstep hclear

/-- No motion of a G0 or G1 is cut short in a run exactly if no interrupt in such a
motion finds the switches enabled and the one in front of an unfinished axis
pressed. -/
theorem g0g1_complete_iff (param : Param R) (as : List (HomingAction R)) :
    (homing R).Always HomingThread.G0G1Complete (HomingThread.boot param) as ↔
      (homing R).AllSteps HomingThread.Clear (HomingThread.boot param) as :=
  Machine.always_iff_allSteps (J := HomingThread.Inv) (fun _ h => h.law)
    (fun _ _ _ h hstep hclear => h.step hstep hclear)
    (fun _ _ _ h hstep hmiss => h.broken hstep hmiss) (HomingThread.boot_inv param) as

end

/-! ## G28 behind a move -/

/-- The far end switch of the X axis is pressed. -/
def xAtEnd : TriggerPins := ⟨fun i => i = 0, fun _ => false⟩

/-- G1 X0.01, and G28 X1 before the step has been made; the X axis stands at its
switch. -/
def homedEarly : List (HomingAction ℚ) :=
  [.move sampleParam (fun _ => 1 / 100) (fun _ => false) (fun i => i = 0) 1 false, .input .insert,
    .input .replan, .input (.idleTest sampleParam), .updateSrc,
    .home sampleParam (fun _ => 1) (fun _ => false) (fun i => i = 0) 1,
    .tick sampleParam xAtEnd]

/-- The G1 ends without its step. -/
theorem homedEarly_cuts_g1 :
    ¬ (homing ℚ).Always HomingThread.G0G1Complete (HomingThread.boot sampleParam) homedEarly := by
  intro halways
  have hexec : ((homing ℚ).exec (HomingThread.boot sampleParam) homedEarly).map
      (fun t => t.executed.map fun e => (e.issue.homing, e.issue.command.steps 0, e.done 0)) =
        some [(false, 1, 0)] := by
    decide +kernel
  obtain ⟨t, ht, hobserved⟩ := Option.map_eq_some_iff.mp hexec
  obtain ⟨e, hlist⟩ : ∃ e, t.executed = [e] := by
    rw [← List.length_eq_one_iff, ← List.length_map (f := fun e : Executed =>
      (e.issue.homing, e.issue.command.steps 0, e.done 0)), hobserved]
    rfl
  simp only [hlist, List.map_cons, List.map_nil, List.cons.injEq, Prod.mk.injEq, and_true]
    at hobserved
  obtain ⟨hmove, hsteps, hdone⟩ := hobserved
  have hall := (halways.exec ht).executed_all e (by rw [hlist]; exact List.mem_singleton_self e)
    hmove
  rw [hall, hsteps] at hdone
  exact absurd hdone (by decide)

end TdPrinter
