import TdPrinter.GCode.Endstop

/-!
# The end of a print

While a file is printed, the G-code thread reads it byte by byte and executes its
lines; `corePrinter_thread` looks every now and then whether the file has been read
to its end.  Then it waits for the motion queue to become idle and calls
`corePrinter_stop`, which deletes the G-code thread and stops the motion block.

`corePrinter_thread` does not look at the result of `stepBlock_waitForIdle`.  Loading
a motion resets the event, and a reset wakes every waiting thread with an error; so
when the thread has to wait while motions are queued, the next load ends its wait,
with all the rest of the print still to be done.  The other callers of
`stepBlock_waitForIdle` repeat it until it succeeds.

`stops_drained` gives conditions on the steps of a run under which the call of
`corePrinter_stop` finds everything executed; `twoMoves_stop_early` is a file of two
moves for which it does not.
-/

namespace TdPrinter

/-- The commands of a G-code file, as far as they concern the motion queue. -/
inductive GCommand (R : Type*)
  /-- G0 and G1 -/
  | move (mm : Axis → R) (relative mask : Axis → Bool) (speed : R) (useAccel : Bool)
  /-- G28 -/
  | home (mm : Axis → R) (relative mask : Axis → Bool) (speed : R)
  /-- G92 and M592 -/
  | setMm (mm : Axis → R) (relative mask : Axis → Bool)
  /-- M1, M2 and M18 -/
  | waitForIdle
  /-- M0 and M84 -/
  | stop
  /-- the commands that leave the motion queue alone -/
  | other

/-- A line of the file: the number of bytes in front of its terminator, and what it
says. -/
structure GLine (R : Type*) where
  body : ℕ
  command : GCommand R

inductive GCodeStage (R : Type*)
  /-- in `getLine` -/
  | reading
  /-- in front of `stepGCodeProcessor_run` -/
  | ready (command : GCommand R)
  /-- `enableTrigger` has been set for a G28 -/
  | homing (mm : Axis → R) (relative mask : Axis → Bool) (speed : R)
  /-- in `stepPosition_inputNextPosition`, for a G28 or not -/
  | moving (home : Bool)
  /-- in front of `stepBlock_waitForIdle` -/
  | waiting (home : Bool)
  /-- suspended in `stepBlock_waitForIdle` -/
  | asleep (home : Bool)
  /-- in the `rt_thread_delay` of `stepBlock_forceStop` -/
  | stopDelay
  | deleted

/-- Where `corePrinter_thread` is. -/
inductive PrinterStage
  /-- in its loop, with `printFileComplete` below 100 -/
  | polling
  /-- in front of `stepBlock_waitForIdle` -/
  | atWait
  /-- suspended in `stepBlock_waitForIdle` -/
  | suspended
  /-- in front of `corePrinter_stop` -/
  | atStop
  /-- `corePrinter_stop` has been executed -/
  | stopped
  deriving DecidableEq

structure Printing (R : Type*) extends Positioner R where
  gcode : GCodeStage R
  printer : PrinterStage
  /-- the lines not yet read to their end -/
  lines : List (GLine R)
  /-- the bytes read of the first of them -/
  lineLength : ℕ
  /-- the bytes after the last terminator -/
  trailing : ℕ
  /-- `fd.pos` -/
  filePos : ℕ
  /-- `fd.size` -/
  fileSize : ℕ

inductive PrintAction (R : Type*)
  | readByte
  | run (param : Param R)
  | homeMove (param : Param R)
  | input (m : InputMove R)
  | updateSrc
  | waitForIdle
  | wake
  | forceStopEnd
  | tick (param : Param R) (pins : TriggerPins)
  | poll
  | printerWait
  | printerWake
  | printerStop

section

variable {R : Type*}

def byteCount (lines : List (GLine R)) (trailing : ℕ) : ℕ :=
  (lines.map fun l => l.body + 1).sum + trailing

/-- `printFileComplete`, as `corePrinter_thread` computes it: the quotient is one of
integers. -/
def printFileComplete (pos size : ℕ) : ℕ := if size = 0 then 100 else pos / size * 100

/-- The same print over another state of the step block. -/
def Printing.withSb (s : Printing R) (sb : StepBlock R) : Printing R :=
  { s with pos := s.pos.withSb sb }

/-- `enableTrigger` set to `on`. -/
def Printing.setTrigger (s : Printing R) (on : Bool) : Printing R :=
  s.withSb { s.pos.sb with stepAxis := { s.pos.sb.stepAxis with enableTrigger := on } }

/-- The step of `getLine`: one more byte of the file. -/
def Printing.readByte (s : Printing R) : Option (Printing R) :=
  match s.lines with
  | l :: rest =>
      if s.lineLength < l.body then
        some { s with lineLength := s.lineLength + 1, filePos := s.filePos + 1 }
      else
        -- a line of less than three bytes is not executed
        some { s with
          lines := rest
          lineLength := 0
          filePos := s.filePos + 1
          gcode := if l.body + 1 < 3 then .reading else .ready l.command }
  | [] =>
      if 0 < s.trailing then
        some { s with trailing := s.trailing - 1, filePos := s.filePos + 1 }
      else none

end

section

variable {R : Type*} [Field R] [LinearOrder R] [FloorRing R] [Sqrtf R]

/-- `stepPosition_inputNextPosition` up to the first piece of
`stepBlock_inputMotion`. -/
def Printing.beginMove (s : Printing R) (param : Param R) (mm : Axis → R)
    (relative mask : Axis → Bool) (speed : R) (useAccel home : Bool) : Printing R :=
  let r := s.toPositioner.beginMove param mm relative mask speed useAccel
  { s with
    toPositioner := r.1
    gcode := if r.2 then .moving home else if home then .waiting true else .reading }

/-- The start of `stepGCodeProcessor_run`. -/
def Printing.runCommand (s : Printing R) (param : Param R) : GCommand R → Printing R
  | .move mm relative mask speed useAccel =>
      s.beginMove param mm relative mask speed useAccel false
  | .home mm relative mask speed =>
      { s.setTrigger true with gcode := .homing mm relative mask speed }
  | .setMm mm relative mask =>
      { s with pos := stepPositionSetMm s.pos mm relative mask, gcode := .reading }
  | .waitForIdle => { s with gcode := .waiting false }
  | .stop => { s.withSb (stepBlockForceStopBegin s.pos.sb) with gcode := .stopDelay }
  | .other => { s with gcode := .reading }

def Printing.step (s : Printing R) : PrintAction R → Option (Printing R)
  | .readByte =>
      match s.gcode with
      | .reading => s.readByte
      | _ => none
  | .run param =>
      match s.gcode with
      | .ready command => some (s.runCommand param command)
      | _ => none
  | .homeMove param =>
      match s.gcode with
      | .homing mm relative mask speed =>
          some (s.beginMove param mm relative mask speed true true)
      | _ => none
  | .input m =>
      match s.gcode with
      | .moving _ =>
          (inputMove s.phase s.pos.sb m).map fun r =>
            { s.withSb r.2 with phase := r.1, returning := r.1.isIdle }
      | _ => none
  | .updateSrc =>
      match s.gcode with
      | .moving home =>
          if s.returning then
            some { s with
              pos := stepPositionUpdateSrc s.pos
              returning := false
              gcode := if home then .waiting true else .reading }
          else none
      | _ => none
  | .waitForIdle =>
      match s.gcode with
      | .waiting home =>
          let r := stepBlockWaitForIdle s.pos.sb .gcodeThread
          let t := s.withSb r.1
          match r.2 with
          | some .eok => some { if home then t.setTrigger false else t with gcode := .reading }
          | some _ => some t
          | none => some { t with gcode := .asleep home }
      | _ => none
  | .wake =>
      match s.gcode with
      | .asleep home =>
          (rtEventResume s.pos.sb.event .gcodeThread).map fun r =>
            let t := s.withSb { s.pos.sb with event := r.2 }
            match r.1 with
            | .eok => { if home then t.setTrigger false else t with gcode := .reading }
            | _ => { t with gcode := .waiting home }
      | _ => none
  | .forceStopEnd =>
      match s.gcode with
      | .stopDelay =>
          let pos := s.pos.withSb (stepBlockForceStopEnd s.pos.sb)
          some { s with pos := stepPositionResetFromHardware pos, gcode := .reading }
      | _ => none
  | .tick param pins =>
      if s.pos.sb.timer.enabled then some (s.withSb (stepBlockISR param pins s.pos.sb)) else none
  | .poll =>
      if s.printer = .polling then
        if printFileComplete s.filePos s.fileSize = 100 then some { s with printer := .atWait }
        else some s
      else none
  | .printerWait =>
      if s.printer = .atWait then
        let r := stepBlockWaitForIdle s.pos.sb .corePrinterThread
        match r.2 with
        | some _ => some { s.withSb r.1 with printer := .atStop }
        | none => some { s.withSb r.1 with printer := .suspended }
      else none
  | .printerWake =>
      if s.printer = .suspended then
        -- the error that the thread finds is not looked at
        (rtEventResume s.pos.sb.event .corePrinterThread).map fun r =>
          { s.withSb { s.pos.sb with event := r.2 } with printer := .atStop }
      else none
  | .printerStop =>
      if s.printer = .atStop then
        some { s with
          pos := stepPositionStop s.pos
          gcode := .deleted
          printer := .stopped }
      else none

variable (R) in
def printing : Machine (Printing R) (PrintAction R) := ⟨Printing.step⟩

omit [Sqrtf R] in
/-- After `corePrinter_start` with a file. -/
def Printing.boot (param : Param R) (lines : List (GLine R)) (trailing : ℕ) : Printing R where
  toPositioner := Positioner.boot param
  gcode := .reading
  printer := .polling
  lines := lines
  lineLength := 0
  trailing := trailing
  filePos := 0
  fileSize := byteCount lines trailing

end

/-! ## The law and its conditions -/

section

variable {R : Type*}

/-- Everything accepted has been executed: a stop throws away the queued motions and
the steps of the busy axes, and there are none. -/
def StepBlock.Drained (sb : StepBlock R) : Prop := sb.len = 0 ∧ stepBlockIsBusy sb = false

instance (sb : StepBlock R) : Decidable sb.Drained :=
  inferInstanceAs (Decidable (sb.len = 0 ∧ stepBlockIsBusy sb = false))

/-- `corePrinter_thread` only comes to its call of `corePrinter_stop` with everything
executed. -/
def Printing.StopsDrained (s : Printing R) : Prop := s.printer = .atStop → s.pos.sb.Drained

/-- The conditions on a step: `corePrinter_thread` starts to wait with an empty queue;
no motion is inserted from then on; and M0 and M84 find nothing to throw away. -/
def Printing.InOrder (s : Printing R) : PrintAction R → Prop
  | .printerWait => s.pos.sb.len = 0
  | .input .insert => s.printer ≠ .suspended ∧ s.printer ≠ .atStop
  | .run _ =>
      match s.gcode with
      | .ready .stop => s.pos.sb.Drained
      | _ => True
  | _ => True

instance (s : Printing R) (a : PrintAction R) : Decidable (s.InOrder a) := by
  cases a with
  | input m =>
      cases m with
      | insert => exact inferInstanceAs (Decidable (_ ≠ _ ∧ _ ≠ _))
      | _ => exact isTrue trivial
  | printerWait => exact inferInstanceAs (Decidable (_ = _))
  | run param =>
      unfold Printing.InOrder
      exact match s.gcode with
        | .ready .stop => inferInstanceAs (Decidable s.pos.sb.Drained)
        | .ready (.move _ _ _ _ _) => isTrue trivial
        | .ready (.home _ _ _ _) => isTrue trivial
        | .ready (.setMm _ _ _) => isTrue trivial
        | .ready .waitForIdle => isTrue trivial
        | .ready .other => isTrue trivial
        | .reading => isTrue trivial
        | .homing _ _ _ _ => isTrue trivial
        | .moving _ => isTrue trivial
        | .waiting _ => isTrue trivial
        | .asleep _ => isTrue trivial
        | .stopDelay => isTrue trivial
        | .deleted => isTrue trivial
  | _ => exact isTrue trivial

/-! ## The invariant -/

/-- The invariant of the runs whose steps are in order. -/
structure Printing.Inv (s : Printing R) : Prop where
  phase_inv : s.phase.Inv s.pos.sb
  settled : s.pos.sb.timer.enabled = false → stepBlockIsBusy s.pos.sb = false
  delayed : s.gcode = .stopDelay → s.pos.sb.timer.enabled = false
  fresh : s.printer = .polling ∨ s.printer = .atWait →
    s.pos.sb.event.Absent .corePrinterThread
  /-- whatever has woken the waiting thread, everything was executed by then -/
  suspended : s.printer = .suspended → s.pos.sb.len = 0 ∧
    ∀ err, (Thread.corePrinterThread, err) ∈ s.pos.sb.event.resumed →
      s.pos.sb.timer.enabled = false
  atStop : s.printer = .atStop → s.pos.sb.len = 0 ∧ s.pos.sb.timer.enabled = false

theorem Printing.Inv.stopsDrained {s : Printing R} (h : s.Inv) : s.StopsDrained := by
  intro hat
  obtain ⟨hlen, hoff⟩ := h.atStop hat
  exact ⟨hlen, h.settled hoff⟩

/-- With everything executed and the timer off the invariant asks for little. -/
theorem Printing.Inv.of_off {s : Printing R} (hphase : s.phase.Inv s.pos.sb)
    (hdrained : s.pos.sb.Drained) (hoff : s.pos.sb.timer.enabled = false)
    (hfresh : s.printer = .polling ∨ s.printer = .atWait →
      s.pos.sb.event.Absent .corePrinterThread) : s.Inv where
  phase_inv := hphase
  settled _ := hdrained.2
  delayed _ := hoff
  fresh := hfresh
  suspended _ := ⟨hdrained.1, fun _ _ => hoff⟩
  atStop _ := ⟨hdrained.1, hoff⟩

/-- The step blocks agree in all that the invariant looks at. -/
structure Spares (sb sb' : StepBlock R) : Prop where
  len_eq : sb'.len = sb.len
  timer_eq : sb'.timer.enabled = sb.timer.enabled
  busy_eq : stepBlockIsBusy sb' = stepBlockIsBusy sb
  noNews : sb.event.NoNews .corePrinterThread sb'.event

theorem Spares.of_noNews {sb : StepBlock R} {e : Event Thread StepEvent}
    (h : sb.event.NoNews .corePrinterThread e) : Spares sb { sb with event := e } :=
  ⟨rfl, rfl, rfl, h⟩

theorem Spares.refl (sb : StepBlock R) : Spares sb sb := .of_noNews (.refl _ _)

/-- A step of the G-code thread that spares the step block keeps the invariant. -/
theorem Printing.Inv.spared {s t : Printing R} (h : s.Inv) (hphase : t.phase.Inv t.pos.sb)
    (hspares : Spares s.pos.sb t.pos.sb) (hprinter : t.printer = s.printer)
    (hdelay : t.gcode = .stopDelay → s.gcode = .stopDelay) : t.Inv where
  phase_inv := hphase
  settled hoff := by
    rw [hspares.timer_eq] at hoff
    rw [hspares.busy_eq]
    exact h.settled hoff
  delayed hstop := by
    rw [hspares.timer_eq]
    exact h.delayed (hdelay hstop)
  fresh hprinting := (h.fresh (hprinter ▸ hprinting)).of_noNews hspares.noNews
  suspended hsuspended := by
    obtain ⟨hlen, hresumed⟩ := h.suspended (hprinter ▸ hsuspended)
    rw [hspares.len_eq, hspares.timer_eq]
    exact ⟨hlen, fun err herr => hresumed err (hspares.noNews.resumed err herr)⟩
  atStop hat := by
    rw [hspares.len_eq, hspares.timer_eq]
    exact h.atStop (hprinter ▸ hat)

/-- `stepBlock_waitForIdle` of the G-code thread changes nothing for the other. -/
theorem Printing.Inv.waitForIdle {s : Printing R} (h : s.Inv) :
    (s.withSb (stepBlockWaitForIdle s.pos.sb .gcodeThread).1).Inv :=
  h.spared ⟨h.phase_inv.sound.waitForIdle _, h.phase_inv.room⟩
    (.of_noNews (noNews_recv _ (by decide) _)) rfl id

theorem Printing.Inv.setTrigger {s : Printing R} (h : s.Inv) (on : Bool) :
    (s.setTrigger on).Inv := by
  exact h.spared ⟨h.phase_inv.sound.withStepAxis _, h.phase_inv.room⟩
    ⟨rfl, rfl, rfl, .refl _ _⟩ rfl id

theorem Printing.Inv.proceed {s : Printing R} (h : s.Inv) {gcode : GCodeStage R}
    (hgcode : gcode ≠ .stopDelay) : Printing.Inv { s with gcode := gcode } :=
  h.spared h.phase_inv (.refl _) rfl fun hstop => absurd hstop hgcode

theorem Printing.Inv.readByte {s t : Printing R} (h : s.Inv) (hread : s.readByte = some t) :
    t.Inv := by
  simp only [Printing.readByte] at hread
  split at hread
  · split at hread
    · obtain rfl := Option.some.inj hread
      exact h.spared h.phase_inv (.refl _) rfl id
    · obtain rfl := Option.some.inj hread
      refine h.spared h.phase_inv (.refl _) rfl ?_
      intro hstop
      split at hstop <;> simp at hstop
  · split at hread
    · obtain rfl := Option.some.inj hread
      exact h.spared h.phase_inv (.refl _) rfl id
    · simp at hread

theorem Printing.Inv.waited {s : Printing R} (h : s.Inv) (home : Bool) :
    Printing.Inv { if home then s.setTrigger false else s with gcode := .reading } := by
  cases home with
  | true => exact (h.setTrigger false).proceed (by simp)
  | false => exact h.proceed (by simp)

end

section

variable {R : Type*} [Field R] [LinearOrder R] [FloorRing R] [Sqrtf R]

omit [LinearOrder R] [FloorRing R] [Sqrtf R] in
theorem Printing.boot_inv (param : Param R) (lines : List (GLine R)) (trailing : ℕ) :
    (Printing.boot param lines trailing).Inv := by
  refine .of_off ⟨init_sound, fun _ h => by simp [Printing.boot, Positioner.boot] at h⟩
    ⟨rfl, init_undisturbed.settled rfl⟩ rfl fun _ => ?_
  have hempty : (rtEventCreate : Event Thread StepEvent).Absent .corePrinterThread :=
    ⟨fun r hr => by simp [rtEventCreate] at hr, fun err herr => by simp [rtEventCreate] at herr⟩
  exact (hempty.send _).send _

/-- The beginning of a move spares the step block. -/
theorem Printing.Inv.beginMove {s : Printing R} (h : s.Inv) (param : Param R) (mm : Axis → R)
    (relative mask : Axis → Bool) (speed : R) (useAccel home : Bool) :
    (s.beginMove param mm relative mask speed useAccel home).Inv := by
  have hbegins := beginMove_spec h.phase_inv param mm relative mask speed useAccel
  obtain ⟨e, he, -, hnews⟩ := hbegins.same
  refine h.spared hbegins.phase_inv ?_ rfl fun hstop => ?_
  · show Spares s.pos.sb (s.toPositioner.beginMove param mm relative mask speed useAccel).1.pos.sb
    rw [he]
    exact .of_noNews hnews
  · simp only [Printing.beginMove] at hstop
    split at hstop
    · simp at hstop
    · split at hstop <;> simp at hstop

/-- The start of a command keeps the invariant if it is none that stops the motion
block before everything is executed. -/
theorem Printing.Inv.runCommand {s : Printing R} (h : s.Inv) (param : Param R)
    (command : GCommand R) (hstop : command = .stop → s.pos.sb.Drained) :
    (s.runCommand param command).Inv := by
  have hphase := h.phase_inv
  cases command with
  | move mm relative mask speed useAccel =>
      exact h.beginMove param mm relative mask speed useAccel false
  | home mm relative mask speed =>
      exact (h.setTrigger true).proceed (by simp)
  | setMm mm relative mask =>
      refine h.spared ⟨hphase.sound.withStepAxis _, hphase.room⟩ ⟨rfl, rfl, rfl, .refl _ _⟩ rfl ?_
      intro hdelay
      simp [Printing.runCommand] at hdelay
  | waitForIdle => exact h.proceed (by simp)
  | stop =>
      obtain ⟨hlen, hbusy⟩ := hstop rfl
      have hsound := hphase.sound
      have hhalted := forceStopBegin_halted hsound.unclaimed
      have hroom : 0 < motionBufferSize - 1 := by decide
      refine .of_off ⟨⟨Nat.zero_le _, ?_, fun hon => absurd hon Bool.false_ne_true,
        fun hmem => absurd hmem hhalted.idle_clear, hhalted.unclaimed⟩, fun _ _ => hroom⟩
        ⟨rfl, hbusy⟩ rfl fun hprinting => ?_
      · have hhead := hsound.head_eq
        rw [hlen] at hhead
        exact hhead
      · exact ((h.fresh hprinting).of_noNews (noNews_recv _ (by decide) _)).send _
  | other => exact h.proceed (by simp)

/-- A piece of `stepBlock_inputMotion` keeps the invariant if it does not insert a
motion behind the back of the thread that waits for the end. -/
theorem Printing.Inv.input {s : Printing R} (h : s.Inv) {m : InputMove R} {phase : InputPhase R}
    {sb : StepBlock R} (hmove : inputMove s.phase s.pos.sb m = some (phase, sb))
    (hlive : s.gcode ≠ .stopDelay)
    (hinsert : m = .insert → s.printer ≠ .suspended ∧ s.printer ≠ .atStop) :
    Printing.Inv { s.withSb sb with phase := phase, returning := phase.isIdle } := by
  obtain ⟨hphase, hcases⟩ := inputMove_cases h.phase_inv hmove
  rcases hcases with hwaits | ⟨block, hready, -, -, rfl⟩ | ⟨block, -, -, rfl⟩ |
    ⟨param, -, -, rfl⟩
  · have hnews := hwaits.noNews
    obtain ⟨e, rfl⟩ := hwaits.same
    exact h.spared hphase (.of_noNews hnews) rfl id
  · obtain rfl : m = .insert := by
      cases m with
      | insert => rfl
      | _ => simp [hready, inputMove] at hmove
    obtain ⟨hsuspended, hat⟩ := hinsert rfl
    exact ⟨hphase, h.settled, h.delayed, h.fresh, fun hs => absurd hs hsuspended,
      fun hs => absurd hs hat⟩
  · obtain ⟨buf, hbuf⟩ := replan_frame s.pos.sb block
    refine h.spared hphase ?_ rfl id
    rw [hbuf]
    exact ⟨rfl, rfl, rfl, .refl _ _⟩
  · obtain ⟨-, ⟨-, hsame⟩ | ⟨hmem, line, rest, hload⟩ | ⟨hmem, -, hlost⟩⟩ :=
      idleTest_cases param h.phase_inv.sound
    · rw [hsame] at hphase ⊢
      exact h.spared hphase (.refl _) rfl id
    · -- while the other thread waits, there is nothing to load
      have hlen := hload.len_ne
      refine ⟨hphase, fun hoff => ?_, fun hstop => absurd hstop hlive, fun hprinting => ?_,
        fun hs => absurd (h.suspended hs).1 hlen, fun hs => absurd (h.atStop hs).1 hlen⟩
      · exact absurd (hload.timer_on.symm.trans hoff) (by decide)
      · exact idleTest_absent (h.fresh hprinting) (by decide) param
    · have hnews : s.pos.sb.event.NoNews .corePrinterThread
          (rtEventRecv s.pos.sb.event recvIdleClear false).1 := noNews_recv _ (by decide) _
      rw [recvIdleClear_of_mem hmem] at hnews
      rw [hlost] at hphase ⊢
      exact h.spared hphase (.of_noNews hnews) rfl id

omit [Sqrtf R] in
/-- The interrupt keeps the invariant: only its last visit turns the timer off, and
while the other thread waits there is nothing that it could load. -/
theorem Printing.Inv.tick {s : Printing R} (h : s.Inv) (param : Param R) (pins : TriggerPins)
    (htimer : s.pos.sb.timer.enabled = true) :
    (s.withSb (stepBlockISR param pins s.pos.sb)).Inv := by
  have hphase := h.phase_inv.isr htimer param pins
  have hon : ∀ {p : Prop}, s.pos.sb.timer.enabled = false → p := fun hoff =>
    absurd (htimer.symm.trans hoff) (by decide)
  have hfresh : s.printer = .polling ∨ s.printer = .atWait →
      (stepBlockISR param pins s.pos.sb).event.Absent .corePrinterThread :=
    fun hprinting => isr_absent (h.fresh hprinting) param pins
  obtain ⟨-, ⟨-, heq⟩ | ⟨hbusy, ⟨line, rest, hload⟩ | hstop⟩⟩ :=
    isr_cases param pins h.phase_inv.sound htimer
  · obtain ⟨_, _, _, _, _, _, timer, hframe, henabled, -⟩ := execute_frame param pins s.pos.sb
    rw [heq, hframe] at hphase hfresh ⊢
    have hon' : ∀ {p : Prop}, timer.enabled = false → p := fun hoff =>
      hon (henabled.symm.trans hoff)
    refine ⟨hphase, hon', fun hs => hon (h.delayed hs), hfresh, fun hs => ?_,
      fun hs => hon (h.atStop hs).2⟩
    obtain ⟨hlen, hresumed⟩ := h.suspended hs
    exact ⟨hlen, fun err herr => hon (hresumed err herr)⟩
  · have hlen : s.pos.sb.len ≠ 0 := by
      rw [s.pos.sb.len_eq_length, ← execute_queue param pins, ← StepBlock.len_eq_length]
      exact hload.len_ne
    exact ⟨hphase, fun hoff => absurd (hload.timer_on.symm.trans hoff) (by decide),
      fun hs => hon (h.delayed hs), hfresh, fun hs => absurd (h.suspended hs).1 hlen,
      fun hs => absurd (h.atStop hs).1 hlen⟩
  · have hlen : (stepBlockISR param pins s.pos.sb).len = 0 := by
      rw [StepBlock.len_eq_length, hstop.queue_after, List.length_nil]
    have hidle : stepBlockIsBusy (stepBlockISR param pins s.pos.sb) = false := by
      rw [stepBlockIsBusy, hstop.stepAxis_eq]
      exact hbusy
    exact .of_off hphase ⟨hlen, hidle⟩ hstop.timer_off hfresh

/-- The call of `stepBlock_waitForIdle` in the G-code thread. -/
theorem Printing.Inv.gcodeWait {s t : Printing R} (h : s.Inv)
    (hstep : s.step .waitForIdle = some t) : t.Inv := by
  simp only [Printing.step] at hstep
  split at hstep
  · rename_i home hgcode
    have hwait := h.waitForIdle
    rcases waitForIdle_cases s.pos.sb .gcodeThread with ⟨-, heq⟩ | ⟨-, heq⟩
    · rw [heq] at hstep hwait
      obtain rfl := Option.some.inj hstep
      exact hwait.waited home
    · rw [heq] at hstep hwait
      obtain rfl := Option.some.inj hstep
      exact hwait.proceed (by simp)
  · simp at hstep

/-- The G-code thread returns from its receive, and waits again after an error. -/
theorem Printing.Inv.gcodeWake {s t : Printing R} (h : s.Inv) (hstep : s.step .wake = some t) :
    t.Inv := by
  simp only [Printing.step] at hstep
  split at hstep
  · rename_i home hgcode
    obtain ⟨⟨err, e⟩, hresume, heq⟩ := Option.map_eq_some_iff.mp hstep
    have hnews := noNews_resume hresume .corePrinterThread
    obtain ⟨-, rfl⟩ := resume_spec hresume
    have hsound := h.phase_inv.sound
    have hresumed : Printing.Inv (s.withSb { s.pos.sb with
        event := { s.pos.sb.event with
          resumed := s.pos.sb.event.resumed.erase (.gcodeThread, err) } }) :=
      h.spared ⟨hsound.withEvent id hsound.unclaimed, h.phase_inv.room⟩ (.of_noNews hnews) rfl id
    cases err with
    | eok =>
        obtain rfl := heq
        exact hresumed.waited home
    | error =>
        obtain rfl := heq
        exact hresumed.proceed (by simp)
    | etimeout =>
        obtain rfl := heq
        exact hresumed.proceed (by simp)
  · simp at hstep

/-- `stepBlock_forceStop` ends as it began, with nothing queued and the timer off. -/
theorem Printing.Inv.forceStopEnd {s t : Printing R} (h : s.Inv)
    (hstep : s.step .forceStopEnd = some t) : t.Inv := by
  simp only [Printing.step] at hstep
  split at hstep
  · rename_i hgcode
    obtain rfl := Option.some.inj hstep
    have hoff := h.delayed hgcode
    have hroom : 0 < motionBufferSize - 1 := by decide
    refine .of_off ⟨forceStopEnd_sound hoff h.phase_inv.sound.unclaimed, fun _ _ => hroom⟩
      ⟨rfl, h.settled hoff⟩ hoff ?_
    intro hprinting
    exact ((h.fresh hprinting).send _).send _
  · simp at hstep

theorem Printing.Inv.poll {s t : Printing R} (h : s.Inv) (hstep : s.step .poll = some t) :
    t.Inv := by
  simp only [Printing.step] at hstep
  split at hstep
  · rename_i hpolling
    have hfresh := h.fresh (Or.inl hpolling)
    split at hstep
    · obtain rfl := Option.some.inj hstep
      exact ⟨h.phase_inv, h.settled, h.delayed, fun _ => hfresh, fun hs => by simp at hs,
        fun hs => by simp at hs⟩
    · obtain rfl := Option.some.inj hstep
      exact h
  · simp at hstep

/-- `corePrinter_thread` starts to wait with nothing queued.  Either the flag is set
and everything is executed, or nobody has news for the thread yet. -/
theorem Printing.Inv.printerWait {s t : Printing R} (h : s.Inv) (hlen : s.pos.sb.len = 0)
    (hstep : s.step .printerWait = some t) : t.Inv := by
  simp only [Printing.step] at hstep
  split at hstep
  · rename_i hat
    have hsound := h.phase_inv.sound
    have hwait := hsound.waitForIdle .corePrinterThread
    rcases waitForIdle_cases s.pos.sb .corePrinterThread with ⟨hmem, heq⟩ | ⟨-, heq⟩
    · rw [heq] at hstep
      obtain rfl := Option.some.inj hstep
      have hoff := hsound.idle_off hmem
      refine .of_off h.phase_inv ⟨hlen, h.settled hoff⟩ hoff ?_
      intro hprinting
      simp at hprinting
    · rw [heq] at hstep hwait
      obtain rfl := Option.some.inj hstep
      refine ⟨⟨hwait, h.phase_inv.room⟩, h.settled, h.delayed, fun hs => by simp at hs,
        fun _ => ⟨hlen, fun err herr => ?_⟩, fun hs => by simp at hs⟩
      exact absurd herr ((h.fresh (Or.inr hat)).resumed err)
  · simp at hstep

/-- `corePrinter_thread` returns from its receive: the invariant has waited with it. -/
theorem Printing.Inv.printerWake {s t : Printing R} (h : s.Inv)
    (hstep : s.step .printerWake = some t) : t.Inv := by
  simp only [Printing.step] at hstep
  split at hstep
  · rename_i hsuspended
    obtain ⟨hlen, hresumed⟩ := h.suspended hsuspended
    obtain ⟨⟨err, e⟩, hresume, rfl⟩ := Option.map_eq_some_iff.mp hstep
    obtain ⟨hmem, rfl⟩ := resume_spec hresume
    have hoff := hresumed err hmem
    have hsound := h.phase_inv.sound
    refine .of_off ⟨hsound.withEvent id hsound.unclaimed, h.phase_inv.room⟩
      ⟨hlen, h.settled hoff⟩ hoff ?_
    intro hprinting
    simp at hprinting
  · simp at hstep

/-- A step in order keeps the invariant until the print is over. -/
theorem Printing.Inv.step {s t : Printing R} {a : PrintAction R} (h : s.Inv)
    (hstep : s.step a = some t) (horder : s.InOrder a) : t.printer = .stopped ∨ t.Inv := by
  cases a with
  | readByte =>
      simp only [Printing.step] at hstep
      split at hstep
      · exact Or.inr (h.readByte hstep)
      · simp at hstep
  | run param =>
      simp only [Printing.step] at hstep
      split at hstep
      · rename_i command hgcode
        obtain rfl := Option.some.inj hstep
        refine Or.inr (h.runCommand param command ?_)
        intro hcommand
        simpa only [Printing.InOrder, hgcode, hcommand] using horder
      · simp at hstep
  | homeMove param =>
      simp only [Printing.step] at hstep
      split at hstep
      · obtain rfl := Option.some.inj hstep
        exact Or.inr (h.beginMove param _ _ _ _ true true)
      · simp at hstep
  | input m =>
      simp only [Printing.step] at hstep
      split at hstep
      · rename_i home hgcode
        obtain ⟨⟨phase, sb⟩, hmove, rfl⟩ := Option.map_eq_some_iff.mp hstep
        refine Or.inr (h.input hmove (by simp [hgcode]) ?_)
        intro hinsert
        subst hinsert
        exact horder
      · simp at hstep
  | updateSrc =>
      simp only [Printing.step] at hstep
      split at hstep
      · obtain ⟨-, rfl⟩ := Option.ite_some_none_eq_some.mp hstep
        refine Or.inr (h.spared h.phase_inv (.refl _) rfl ?_)
        intro hdelay
        split at hdelay <;> simp at hdelay
      · simp at hstep
  | waitForIdle => exact Or.inr (h.gcodeWait hstep)
  | wake => exact Or.inr (h.gcodeWake hstep)
  | forceStopEnd => exact Or.inr (h.forceStopEnd hstep)
  | tick param pins =>
      obtain ⟨htimer, rfl⟩ := Option.ite_some_none_eq_some.mp hstep
      exact Or.inr (h.tick param pins htimer)
  | poll => exact Or.inr (h.poll hstep)
  | printerWait => exact Or.inr (h.printerWait horder hstep)
  | printerWake => exact Or.inr (h.printerWake hstep)
  | printerStop =>
      obtain ⟨-, rfl⟩ := Option.ite_some_none_eq_some.mp hstep
      exact Or.inl rfl

/-! ## Runs -/

omit [Field R] [LinearOrder R] [FloorRing R] [Sqrtf R] in
theorem Printing.readByte_printer {s t : Printing R} (hread : s.readByte = some t) :
    t.printer = s.printer := by
  simp only [Printing.readByte] at hread
  split at hread
  · split at hread <;> obtain rfl := Option.some.inj hread <;> rfl
  · split at hread
    · obtain rfl := Option.some.inj hread
      rfl
    · simp at hread

theorem Printing.runCommand_printer (s : Printing R) (param : Param R) (command : GCommand R) :
    (s.runCommand param command).printer = s.printer := by
  cases command <;> rfl

theorem Printing.stopped_of_step {s t : Printing R} {a : PrintAction R}
    (h : s.printer = .stopped) (hstep : s.step a = some t) : t.printer = .stopped := by
  cases a with
  | readByte =>
      simp only [Printing.step] at hstep
      split at hstep
      · rw [Printing.readByte_printer hstep, h]
      · simp at hstep
  | run param =>
      simp only [Printing.step] at hstep
      split at hstep
      · obtain rfl := Option.some.inj hstep
        rw [Printing.runCommand_printer, h]
      · simp at hstep
  | waitForIdle =>
      simp only [Printing.step] at hstep
      split at hstep
      · rename_i home hgcode
        split at hstep <;> obtain rfl := Option.some.inj hstep <;> cases home <;> exact h
      · simp at hstep
  | wake =>
      simp only [Printing.step] at hstep
      split at hstep
      · rename_i home hgcode
        obtain ⟨⟨err, e⟩, -, rfl⟩ := Option.map_eq_some_iff.mp hstep
        cases err <;> cases home <;> exact h
      · simp at hstep
  | input m =>
      simp only [Printing.step] at hstep
      split at hstep
      · obtain ⟨r, -, rfl⟩ := Option.map_eq_some_iff.mp hstep
        exact h
      · simp at hstep
  | updateSrc =>
      simp only [Printing.step] at hstep
      split at hstep
      · split at hstep
        · obtain rfl := Option.some.inj hstep
          exact h
        · simp at hstep
      · simp at hstep
  | poll => simp [Printing.step, h] at hstep
  | printerWait => simp [Printing.step, h] at hstep
  | printerWake => simp [Printing.step, h] at hstep
  | printerStop => simp [Printing.step, h] at hstep
  | _ =>
      simp only [Printing.step] at hstep
      split at hstep
      · obtain rfl := Option.some.inj hstep
        exact h
      · simp at hstep

/-- In a run whose steps are all in order, `corePrinter_thread` only comes to its call
of `corePrinter_stop` with everything executed. -/
theorem stops_drained (param : Param R) (lines : List (GLine R)) (trailing : ℕ)
    (as : List (PrintAction R))
    (horder : (printing R).AllSteps Printing.InOrder (.boot param lines trailing) as) :
    (printing R).Always Printing.StopsDrained (.boot param lines trailing) as := by
  refine Machine.always_of_allSteps (J := fun s => s.printer = .stopped ∨ s.Inv)
    (fun s h => ?_) (fun s a t h hstep horder => ?_) (Or.inr (Printing.boot_inv ..)) horder
  · rcases h with hstopped | h
    · intro hat
      simp [hstopped] at hat
    · exact h.stopsDrained
  · rcases h with hstopped | h
    · exact Or.inl (Printing.stopped_of_step hstopped hstep)
    · exact h.step hstep horder

end

/-! ### A file of two moves -/

/-- The line `G1X0.01` and its likes: a move of the X axis to `x`. -/
def lineX (x : ℚ) : GLine ℚ :=
  ⟨7, .move (fun _ => x) (fun _ => false) (fun i => i = 0) 1 true⟩

/-- The file `G1X0.01`, `G1X0.02`. -/
def twoMoves : Printing ℚ := .boot sampleParam [lineX (1 / 100), lineX (2 / 100)] 0

/-- A line is read, and its move is handed over without an interruption. -/
def executeLine : List (PrintAction ℚ) :=
  List.replicate 8 .readByte ++
    [.run sampleParam, .input .insert, .input .replan, .input (.idleTest sampleParam), .updateSrc]

/-- The interrupts in which one step is made and its motion ends. -/
def twoTicks : List (PrintAction ℚ) := List.replicate 2 (.tick sampleParam releasedPins)

/-- Each motion is executed before the next line is read, and the last one while
`corePrinter_thread` waits for it. -/
def twoMovesApart : List (PrintAction ℚ) :=
  executeLine ++ twoTicks ++ executeLine ++ [.poll, .printerWait] ++ twoTicks ++ [.printerWake]

theorem stops_drained_twoMoves :
    (printing ℚ).Always Printing.StopsDrained twoMoves twoMovesApart :=
  stops_drained sampleParam [lineX (1 / 100), lineX (2 / 100)] 0 twoMovesApart
    (by decide +kernel)

/-- Both lines are read before the first motion ends: its end wakes the waiting
`corePrinter_thread`, because the second one is loaded. -/
def twoMovesQueued : List (PrintAction ℚ) :=
  executeLine ++ executeLine ++ [.poll, .printerWait] ++ twoTicks ++ [.printerWake]

/-- `corePrinter_thread` is about to stop while the X axis has a step to make. -/
theorem twoMoves_stop_early :
    ¬ (printing ℚ).Always Printing.StopsDrained twoMoves twoMovesQueued := by
  intro halways
  have hexec : ((printing ℚ).exec twoMoves twoMovesQueued).map
      (fun t => (t.printer, stepBlockIsBusy t.pos.sb, t.pos.sb.stepAxis.hardPos 0)) =
        some (.atStop, true, 1) := by
    decide +kernel
  obtain ⟨t, ht, hobserved⟩ := Option.map_eq_some_iff.mp hexec
  simp only [Prod.mk.injEq] at hobserved
  obtain ⟨hat, hbusy, -⟩ := hobserved
  have hdrained := halways.exec ht hat
  exact absurd (hbusy.symm.trans hdrained.2) (by decide)

end TdPrinter
